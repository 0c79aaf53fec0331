import Polycentric.Library.FlooredCounter
import Polycentric.Server.Listing
import Polycentric.Server.Tombstones

/-! The reaction counters of URLs, `stats/worker.rs` and `stats/repository.rs`. The worker
counts a reaction when it consumes it, and a Delete takes one away again, whatever has been
counted so far. -/
namespace Polycentric.Server.Stats

open Proto FlooredCounter

variable (P : Primitives)

/-! ### The table -/

/-- A row of `attributed_to_reaction_summary`, one for each URL. -/
structure SummaryRow where
  url : String
  upvoteCount : Nat
  downvoteCount : Nat
  deriving DecidableEq, Repr

namespace SummaryRow

variable (row : SummaryRow)

def count (positive : Bool) : Nat := if positive then row.upvoteCount else row.downvoteCount

def withCount (positive : Bool) (count : Nat) : SummaryRow :=
  if positive then { row with upvoteCount := count } else { row with downvoteCount := count }

end SummaryRow

abbrev Summaries := List SummaryRow

/-- Increment a count, creating the row with a count of one if there is none. -/
def countAttributedReactionFor (summaries : Summaries) (url : String) (positive : Bool) : Summaries :=
  if summaries.any fun row => row.url = url then
    summaries.map fun row =>
      if row.url = url then row.withCount positive (row.count positive + 1) else row
  else summaries ++ [⟨url, if positive then 1 else 0, if positive then 0 else 1⟩]

/-- Decrement a count, only when it is greater than zero. -/
def removeAttributedReactionFor (summaries : Summaries) (url : String) (positive : Bool) : Summaries :=
  summaries.map fun row =>
    if row.url = url ∧ 0 < row.count positive then row.withCount positive (row.count positive - 1) else row

/-- The counts for a URL, or zeros if there are none yet. -/
def getAttributedReactionSummary (summaries : Summaries) (url : String) : Nat × Nat :=
  match summaries.find? fun row => row.url = url with
  | some row => (row.upvoteCount, row.downvoteCount)
  | none => (0, 0)

/-! ### The worker -/

/-- The attributed URL of an out-of-network reaction. -/
def attributedReactionUrl (reaction : AttributedToReaction) : Option String :=
  reaction.attributedTo.bind AttributedTo.linkUrl

/-- What the worker reads of a message. -/
structure Input where
  key : EventKeyParts
  contentBody : ContentBody

def toTargetKey (key : EventKey) : Option EventKeyParts := key.signedBy.map (.of key)

/-- The key of the event in a message. -/
def messageKey (bundle : EventBundle) : Option EventKey := do
  let signed ← bundle.signedEvent
  let event ← (P.decodeEvent signed.eventBytes).toOption
  event.key

/-- Ignore events that do not have a valid value for any of the fields. -/
def Input.extractFrom (bundle : EventBundle) : Option Input := do
  let key ← toTargetKey (← messageKey P bundle)
  let serialized ← bundle.serializedContent
  let content ← (P.decodeContent serialized.contentBytes).toOption
  return ⟨key, ← content.contentBody⟩

/-- The content of the stored event with the key. -/
def findContentByKey (db : Database) (key : EventKey) : Option ContentBody := do
  let columns ← toTargetKey key
  let row ← db.event.find? fun row => row.key = columns
  let content ← row.contentDigest.bind fun digest => db.content.find? fun content => content.digest = digest
  content.body P

/-- Consume a single message. -/
def process (db : Database) (summaries : Summaries) (bundle : EventBundle) : Summaries :=
  match Input.extractFrom P bundle with
  | none => summaries
  | some input =>
      match input.contentBody with
      | .delete (some target) =>
          if target.identity ≠ input.key.identity then summaries
          else
            match findContentByKey P db target with
            | some (.attributedToReaction reaction) =>
                match attributedReactionUrl reaction with
                | some url => removeAttributedReactionFor summaries url reaction.positive
                | none => summaries
            | _ => summaries
      | .attributedToReaction reaction =>
          match attributedReactionUrl reaction with
          | some url => countAttributedReactionFor summaries url reaction.positive
          | none => summaries
      | _ => summaries

/-- The table after all messages, in the order in which they are consumed. -/
def consume (db : Database) (bundles : List EventBundle) : Summaries := bundles.foldl (process P db) []

/-! ### What the counters are for -/

/-- Whether content is a reaction of the sign to the URL. -/
def reactsTo (url : String) (positive : Bool) : ContentBody → Bool
  | .attributedToReaction reaction => attributedReactionUrl reaction = some url && reaction.positive = positive
  | _ => false

def isReactionTo (url : String) (positive : Bool) (bundle : EventBundle) : Bool :=
  (Input.extractFrom P bundle).any fun input => reactsTo url positive input.contentBody

/-- The event that a Delete of the same identity is for. -/
def deleteTarget (bundle : EventBundle) : Option EventKey := do
  let input ← Input.extractFrom P bundle
  match input.contentBody with
  | .delete (some target) => if target.identity ≠ input.key.identity then none else some target
  | _ => none

/-- Whether the message is a Delete for which the server finds such a reaction. -/
def removes (db : Database) (url : String) (positive : Bool) (bundle : EventBundle) : Bool :=
  ((deleteTarget P bundle).bind (findContentByKey P db)).any (reactsTo url positive)

/-- Whether some Delete of the same identity targets the event. -/
def isDeleted (bundles : List EventBundle) (bundle : EventBundle) : Bool :=
  bundles.any fun delete => (deleteTarget P delete).any fun target => messageKey P bundle = some target

/-- The reactions to a URL that no Delete of the same identity targets. -/
def liveReactions (bundles : List EventBundle) (url : String) (positive : Bool) : Nat :=
  bundles.countP fun bundle => isReactionTo P url positive bundle && !isDeleted P bundles bundle

def deletedReactions (bundles : List EventBundle) (url : String) (positive : Bool) : Nat :=
  bundles.countP fun bundle => isReactionTo P url positive bundle && isDeleted P bundles bundle

/-- How many Deletes find a reaction to the URL, beyond one for each deleted reaction. -/
def surplus (db : Database) (bundles : List EventBundle) (url : String) (positive : Bool) : Int :=
  bundles.countP (removes P db url positive) - deletedReactions P bundles url positive

variable {P} {db : Database} {summaries : Summaries} {bundle : EventBundle} {bundles : List EventBundle}
  {url url' : String} {positive positive' : Bool}

/-- The count that is shown for a URL and a sign. -/
def shown (summaries : Summaries) (url : String) (positive : Bool) : Nat :=
  (summaries.find? fun row => row.url = url).elim 0 fun row => row.count positive

theorem getAttributedReactionSummary_eq (summaries : Summaries) (url : String) :
    getAttributedReactionSummary summaries url = (shown summaries url true, shown summaries url false) := by
  unfold getAttributedReactionSummary shown
  cases summaries.find? fun row => row.url = url with
  | none => rfl
  | some row => rfl

namespace SummaryRow

@[simp] theorem withCount_url (row : SummaryRow) (n : Nat) : (row.withCount positive n).url = row.url := by
  cases positive <;> rfl

theorem withCount_count (row : SummaryRow) (n : Nat) :
    (row.withCount positive n).count positive' = if positive = positive' then n else row.count positive' := by
  cases positive <;> cases positive' <;> rfl

end SummaryRow

/-- A change of the rows that keeps their URLs. -/
theorem shown_map {change : SummaryRow → SummaryRow} (hUrl : ∀ row, (change row).url = row.url) :
    shown (summaries.map change) url positive =
      (summaries.find? fun row => row.url = url).elim 0 fun row => (change row).count positive := by
  have hSame : ((fun row : SummaryRow => decide (row.url = url)) ∘ change) = fun row => decide (row.url = url) := by
    funext row
    simp only [Function.comp, hUrl]
  rw [shown, List.find?_map, hSame]
  cases summaries.find? fun row => row.url = url with
  | none => rfl
  | some row => rfl

/-- A count goes up by one, that of the URL and the sign. -/
theorem shown_countAttributedReactionFor :
    shown (countAttributedReactionFor summaries url positive) url' positive' =
      shown summaries url' positive' + if url = url' ∧ positive = positive' then 1 else 0 := by
  unfold countAttributedReactionFor
  split
  · next hAny =>
      rw [shown_map (by intro row; split <;> simp), shown]
      cases hFind : summaries.find? fun row => row.url = url' with
      | none =>
          have hOther : url ≠ url' := by
            rintro rfl
            obtain ⟨row, hRow, hUrl⟩ := List.any_eq_true.mp hAny
            exact List.find?_eq_none.mp hFind row hRow hUrl
          simp [hOther]
      | some row =>
          have hUrl : row.url = url' := by simpa using List.find?_some hFind
          by_cases hSame : url = url'
          · simp only [Option.elim_some, hUrl, hSame, if_true, SummaryRow.withCount_count, true_and]
            by_cases hSign : positive = positive'
            · simp [hSign]
            · simp [hSign]
          · simp [hUrl, Ne.symm hSame, hSame]
  · next hAny =>
      have hNone : (summaries.find? fun row => row.url = url) = none := by simpa using hAny
      unfold shown
      rw [List.find?_append]
      by_cases hSame : url = url'
      · subst hSame
        rw [hNone]
        cases positive <;> cases positive' <;> simp [SummaryRow.count]
      · simp [hSame]

/-- It goes down by one, unless it is zero. -/
theorem shown_removeAttributedReactionFor :
    shown (removeAttributedReactionFor summaries url positive) url' positive' =
      shown summaries url' positive' - if url = url' ∧ positive = positive' then 1 else 0 := by
  unfold removeAttributedReactionFor
  rw [shown_map (by intro row; split <;> simp), shown]
  cases hFind : summaries.find? fun row => row.url = url' with
  | none => simp
  | some row =>
      have hUrl : row.url = url' := by simpa using List.find?_some hFind
      by_cases hSame : url = url'
      · by_cases hSign : positive = positive'
        · subst hSign
          by_cases hZero : 0 < row.count positive
          · simp [hUrl, hSame, hZero, SummaryRow.withCount_count]
          · have hNot : row.count positive = 0 := by omega
            simp [hUrl, hSame, hNot]
        · by_cases hZero : 0 < row.count positive
          · simp [hUrl, hSame, hZero, hSign, SummaryRow.withCount_count]
          · simp [hUrl, hSame, hZero, hSign]
      · simp [hUrl, Ne.symm hSame, hSame]

/-! ### What a message does -/

theorem reactsTo_attributed (reaction : AttributedToReaction) :
    reactsTo url positive (.attributedToReaction reaction) =
      decide (attributedReactionUrl reaction = some url ∧ reaction.positive = positive) := by
  simp [reactsTo]

/-- No message is a reaction and a Delete. -/
theorem removes_of_isReactionTo (h : isReactionTo P url positive bundle = true) :
    removes P db url positive bundle = false := by
  unfold isReactionTo at h
  unfold removes deleteTarget
  cases hInput : Input.extractFrom P bundle with
  | none => rfl
  | some input =>
      rw [hInput, Option.any_some] at h
      cases hBody : input.contentBody with
      | attributedToReaction reaction => simp [hBody]
      | _ => rw [hBody] at h; cases h

/-- A message moves the count of each URL and sign as a floored counter. -/
theorem shown_process :
    shown (process P db summaries bundle) url positive =
      move (isReactionTo P url positive) (removes P db url positive) (shown summaries url positive) bundle := by
  unfold process move isReactionTo removes deleteTarget
  cases hInput : Input.extractFrom P bundle with
  | none => rfl
  | some input =>
      obtain ⟨key, contentBody⟩ := input
      simp only [Option.any_some, Option.bind_eq_bind, Option.bind_some]
      cases contentBody with
      | attributedToReaction reaction =>
          simp only [reactsTo_attributed]
          cases hLink : attributedReactionUrl reaction with
          | none => simp
          | some link =>
              dsimp only
              rw [shown_countAttributedReactionFor]
              by_cases hSame : link = url ∧ reaction.positive = positive
              · simp [hSame]
              · simp [hSame]
      | delete eventKey =>
          cases eventKey with
          | none => rfl
          | some target =>
              by_cases hOwner : target.identity = key.identity
              · simp only [hOwner, ne_eq, not_true_eq_false, if_false, Option.bind_some]
                cases hFound : findContentByKey P db target with
                | none => rfl
                | some found =>
                    cases found with
                    | attributedToReaction reaction =>
                        simp only [Option.any_some, reactsTo_attributed]
                        cases hLink : attributedReactionUrl reaction with
                        | none => simp [reactsTo]
                        | some link =>
                            dsimp only
                            rw [shown_removeAttributedReactionFor]
                            by_cases hSame : link = url ∧ reaction.positive = positive
                            · simp [hSame, reactsTo]
                            · simp [hSame, reactsTo]
                    | _ => rfl
              · simp only [hOwner, ne_eq, not_false_eq_true, if_true]
                rfl
      | _ => rfl

theorem shown_consume (db : Database) (bundles : List EventBundle) (url : String) (positive : Bool) :
    shown (consume P db bundles) url positive =
      level (isReactionTo P url positive) (removes P db url positive) bundles := by
  induction bundles using List.reverseRecOn with
  | nil => rfl
  | append_singleton bundles bundle ih =>
      rw [consume, List.foldl_concat, ← consume, shown_process, ih, level, level, List.foldl_concat]

/-- Reactions are deleted or live. -/
theorem live_add_deleted (bundles : List EventBundle) (url : String) (positive : Bool) :
    liveReactions P bundles url positive + deletedReactions P bundles url positive =
      bundles.countP (isReactionTo P url positive) := by
  have hSplit : ∀ list : List EventBundle,
      (list.countP fun bundle => isReactionTo P url positive bundle && !isDeleted P bundles bundle) +
        (list.countP fun bundle => isReactionTo P url positive bundle && isDeleted P bundles bundle) =
      list.countP (isReactionTo P url positive) := by
    intro list
    induction list with
    | nil => rfl
    | cons bundle rest ih =>
        simp only [List.countP_cons, ← ih]
        cases isReactionTo P url positive bundle <;> cases isDeleted P bundles bundle <;> simp <;> omega
  exact hSplit bundles

/-- The counts of all URLs are those of the live reactions if and only if for every URL and
sign the Deletes never exceed the reactions by more than there are too many of them, and
once by as many. -/
theorem url_counters_iff (P : Primitives) (db : Database) (bundles : List EventBundle) :
    (∀ url, getAttributedReactionSummary (consume P db bundles) url =
        (liveReactions P bundles url true, liveReactions P bundles url false)) ↔
      ∀ url positive, GreatestExcess (isReactionTo P url positive) (removes P db url positive) bundles
        (surplus P db bundles url positive) := by
  have hOne : ∀ url positive, shown (consume P db bundles) url positive = liveReactions P bundles url positive ↔
      GreatestExcess (isReactionTo P url positive) (removes P db url positive) bundles
        (surplus P db bundles url positive) := by
    intro url positive
    have hSurplus : (liveReactions P bundles url positive : Int) +
        excess (isReactionTo P url positive) (removes P db url positive) bundles =
          surplus P db bundles url positive := by
      have hSum := @live_add_deleted P bundles url positive
      unfold excess surplus
      omega
    rw [← hSurplus, ← level_eq_iff (fun _ => removes_of_isReactionTo), ← shown_consume, Nat.cast_inj]
  simp only [getAttributedReactionSummary_eq, Prod.mk.injEq, hOne]
  refine forall_congr' fun url => ⟨fun h positive => ?_, fun h => ⟨h true, h false⟩⟩
  cases positive with
  | true => exact h.1
  | false => exact h.2

end Polycentric.Server.Stats

namespace Polycentric.TableInstance

open Proto Server

/-- Event `[3]` is Bob's like of a URL, and event `[4]` his Delete of it. -/
def likePrimitives : Primitives := primitives
  [([3], event Collections.interactions "bob" (key 3) 1 [1] [13]),
    ([4], event Collections.interactions "bob" (key 3) 2 [2] [14])]
  [([13], ⟨some (.attributedToReaction ⟨some ⟨some "https://example.org/video"⟩, none, true⟩)⟩),
    ([14], ⟨some (.delete (some ⟨Collections.interactions, "bob", some (key 3), 1⟩))⟩)]

def likeRow (id : Nat) (eventBytes contentBytes : Bytes) : EventRow :=
  ⟨id, ⟨Collections.interactions.toInt16, "bob", keyTypeEd25519.toInt16, (key 3).key, id.toInt64⟩,
    some ⟨contentDigestTypeSha256, (digest contentBytes).val⟩, sign (key 3).key eventBytes, eventBytes, 0⟩

/-- Both events are stored. -/
def likeDatabase : Database :=
  { Database.empty with
    event := [likeRow 1 [3] [13], likeRow 2 [4] [14]]
    content := [⟨⟨contentDigestTypeSha256, (digest [13]).val⟩, [13]⟩,
      ⟨⟨contentDigestTypeSha256, (digest [14]).val⟩, [14]⟩] }

def likeMessage (eventBytes contentBytes : Bytes) : Proto.EventBundle :=
  ⟨some ⟨sign (key 3).key eventBytes, eventBytes⟩, some ⟨contentBytes⟩, [], none⟩

end Polycentric.TableInstance

namespace Polycentric.Server.Stats

open TableInstance

/-- A Delete that is consumed before its reaction is lost, and the reaction counts. -/
theorem early_delete_lost :
    ¬∀ url, getAttributedReactionSummary
        (consume likePrimitives likeDatabase [likeMessage [4] [14], likeMessage [3] [13]]) url =
      (liveReactions likePrimitives [likeMessage [4] [14], likeMessage [3] [13]] url true,
        liveReactions likePrimitives [likeMessage [4] [14], likeMessage [3] [13]] url false) := by
  intro h
  exact absurd (h "https://example.org/video") (by decide +kernel)

end Polycentric.Server.Stats
