import Polycentric.Library.Cascade
import Polycentric.Server.Authorization
import Polycentric.Server.Cursors
import Polycentric.Server.Listing
import Polycentric.Server.Tombstones

/-! The filter stage of the feeds, `feeds/rpc/common.rs`. Blocked, deleted and labeled
rows are left out of a page, and in a thread the replies to blocked posts with them. -/
namespace Polycentric.Server

open Proto Cascade

variable (P : Primitives)

/-- The columns of a key that somebody refers to. -/
def toTargetEventKey (key : EventKey) : Option EventKeyParts := key.signedBy.map (.of key)

/-- The decoded body of the content of a row. -/
def rowBody (row : EventWithContentRow) : Option ContentBody := row.2.bind (ContentRow.body P)

namespace Feeds

def replyParent (row : EventWithContentRow) : Option EventKeyParts :=
  match rowBody P row with
  | some (.post post) => post.reply.bind fun reply => reply.parent.bind toTargetEventKey
  | _ => none

/-- Whether the content of a row references another event as a quote or repost. -/
inductive Referenced where
  | quote (target : EventKeyParts)
  | repost (target : EventKeyParts)
  deriving DecidableEq, Repr

/-- The referenced target key of a feed row, if any. -/
def referencedTarget (row : EventWithContentRow) : Option Referenced :=
  match rowBody P row with
  | some (.post post) => (post.quote.bind toTargetEventKey).map .quote
  | some (.repost post) => (post.bind toTargetEventKey).map .repost
  | _ => none

/-- What the filter reads of the hydrated data. -/
structure HydrationState where
  deletesByTarget : List (EventKeyParts × List EventBundle)
  quotePostEvents : List EventWithContentRow
  repostEvents : List EventWithContentRow
  labelEvents : List EventWithContentRow
  /-- Empty for anonymous requests. -/
  blockedIdentities : List String

structure GetFeedResponseFilter (SortedBy : Type) where
  liveRows : List EventWithContentRow
  tombstoneBundles : List EventBundle
  eventHints : List EventWithContentRow
  pageInfo : PageInfo SortedBy

/-- The event that a label row labels, with the values. -/
def labelOf (row : EventWithContentRow) : Option (EventKeyParts × List String) :=
  match rowBody P row with
  | some (.labels eventKey labelValues) =>
      (eventKey.bind toTargetEventKey).map fun key => (key, labelValues)
  | _ => none

/-- The first label row for the key decides. -/
def hasMatchingLabel (labelEvents : List EventWithContentRow) (key : EventKeyParts)
    (omitted : List String) : Bool :=
  match (labelEvents.filterMap (labelOf P)).find? fun label => label.1 = key with
  | some (_, labelValues) => labelValues.any fun value => omitted.contains value
  | none => false

/-- Whether the caller blocks the author of the row. -/
def isBlockedRow (blockedIdentities : List String) (row : EventWithContentRow) : Bool :=
  blockedIdentities.contains row.1.key.identity

section Rows

variable (hydration : HydrationState) (omitLabels : List String)

def isOmitLabeled (key : EventKeyParts) : Bool :=
  !omitLabels.isEmpty && hasMatchingLabel P hydration.labelEvents key omitLabels

def isOmitted (key : EventKeyParts) : Bool :=
  hydration.blockedIdentities.contains key.identity ||
    (hydration.deletesByTarget.lookup key).isSome || isOmitLabeled P hydration omitLabels key

/-- A row that no block drops: whether it stays, and the tombstones that it brings. -/
def judgeRow (row : EventWithContentRow) : Bool × List EventBundle :=
  match hydration.deletesByTarget.lookup row.1.key with
  | some bundles => (false, bundles)
  | none =>
      if isOmitLabeled P hydration omitLabels row.1.key then (false, [])
      else
        match referencedTarget P row with
        | some (.repost target) => (!isOmitted P hydration omitLabels target, [])
        | some (.quote target) => (true, (hydration.deletesByTarget.lookup target).getD [])
        | none => (true, [])

/-- The loop over the rows: the live ones, and the tombstones. -/
def filterLive (cascadeBlockedReplies : Bool) :
    List EventWithContentRow → List EventKeyParts → List EventWithContentRow × List EventBundle
  | [], _ => ([], [])
  | row :: rest, droppedForBlock =>
      let cascadesFromDroppedParent := cascadeBlockedReplies &&
        (replyParent P row).any fun parent => decide (parent ∈ droppedForBlock)
      if isBlockedRow hydration.blockedIdentities row || cascadesFromDroppedParent then
        filterLive cascadeBlockedReplies rest (row.1.key :: droppedForBlock)
      else
        let (live, tombstones) := filterLive cascadeBlockedReplies rest droppedForBlock
        let (stays, bundles) := judgeRow P hydration omitLabels row
        (if stays then row :: live else live, bundles ++ tombstones)

end Rows

variable {SortedBy : Type}

def filterRows (fetched : Fetched EventWithContentRow SortedBy) (hydration : HydrationState)
    (omitLabels : List String) (cascadeBlockedReplies : Bool) : GetFeedResponseFilter SortedBy where
  liveRows := (filterLive P hydration omitLabels cascadeBlockedReplies fetched.rows []).1
  tombstoneBundles := (filterLive P hydration omitLabels cascadeBlockedReplies fetched.rows []).2
  eventHints := (hydration.quotePostEvents ++ hydration.repostEvents).filter fun row =>
    !isOmitted P hydration omitLabels row.1.key
  pageInfo := fetched.pageInfo

/-- Remove rows that are blocked, tombstoned or omit-labeled, directly or through the
target of their repost. -/
def filter (fetched : Fetched EventWithContentRow SortedBy) (hydration : HydrationState)
    (omitLabels : List String) : GetFeedResponseFilter SortedBy :=
  filterRows P fetched hydration omitLabels false

/-- Drop blocked posts in a thread, along with all replies to those blocked posts. -/
def filterThread (fetched : Fetched EventWithContentRow SortedBy) (hydration : HydrationState)
    (omitLabels : List String) : GetFeedResponseFilter SortedBy :=
  filterRows P fetched hydration omitLabels true

/-! ### What stays -/

section Live

variable (hydration : HydrationState) (omitLabels : List String)

variable {P} {hydration} {omitLabels} {row : EventWithContentRow} {rows : List EventWithContentRow}

/-- The loop drops rows as a pass over the replies does, and judges the others. -/
theorem filterLive_thread (rows : List EventWithContentRow) (droppedForBlock : List EventKeyParts) :
    (filterLive P hydration omitLabels true rows droppedForBlock).1 =
      (sweep (fun row => some row.1.key) (replyParent P) (isBlockedRow hydration.blockedIdentities) rows
        droppedForBlock).1.filter fun row => (judgeRow P hydration omitLabels row).1 := by
  induction rows generalizing droppedForBlock with
  | nil => rfl
  | cons row rest ih =>
      simp only [filterLive, sweep, Bool.true_and]
      split
      · exact ih _
      · rw [List.filter_cons, ih]

theorem filterLive_alone (rows : List EventWithContentRow) (droppedForBlock : List EventKeyParts) :
    (filterLive P hydration omitLabels false rows droppedForBlock).1 =
      rows.filter fun row => !isBlockedRow hydration.blockedIdentities row && (judgeRow P hydration omitLabels row).1 := by
  induction rows generalizing droppedForBlock with
  | nil => rfl
  | cons row rest ih =>
      simp only [filterLive, Bool.false_and, Bool.or_false, List.filter_cons, ih]
      cases isBlockedRow hydration.blockedIdentities row with
      | true => exact ih _
      | false => rfl

/-- Outside of threads each row is judged for itself. -/
theorem filter_liveRows (fetched : Fetched EventWithContentRow SortedBy) :
    (filter P fetched hydration omitLabels).liveRows = fetched.rows.filter fun row =>
      !isBlockedRow hydration.blockedIdentities row && (judgeRow P hydration omitLabels row).1 :=
  filterLive_alone fetched.rows []

/-- Whether a row is by a blocked author, or a reply below a listed row that is. -/
abbrev BelowBlocked (P : Primitives) (blocked : List String) (rows : List EventWithContentRow) :
    EventWithContentRow → Prop :=
  Removed (fun row => some row.1.key) (replyParent P) (isBlockedRow blocked) rows

/-- With parents before their replies, exactly the rows below blocked posts are dropped. -/
theorem mem_filterThread {fetched : Fetched EventWithContentRow SortedBy}
    (hFirst : ParentsFirst (fun row => some row.1.key) (replyParent P) fetched.rows) :
    row ∈ (filterThread P fetched hydration omitLabels).liveRows ↔
      row ∈ fetched.rows ∧ ¬BelowBlocked P hydration.blockedIdentities fetched.rows row ∧
        (judgeRow P hydration omitLabels row).1 = true := by
  classical
  show row ∈ (filterLive P hydration omitLabels true fetched.rows []).1 ↔ _
  rw [filterLive_thread, sweep_eq_filter_of_parentsFirst hFirst, List.mem_filter, List.mem_filter,
    decide_eq_true_eq, and_assoc]

end Live

end Feeds

end Polycentric.Server
