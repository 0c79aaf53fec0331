import Polycentric.Client.Validation
import Polycentric.Library.KeyedMerge

/-! Merging the answers of several servers, `query/event/merge.rs` and
`query/validation.rs`. Bundles with the same event key are merged, left before
right, and the merged bundles are validated afterwards. -/
namespace Polycentric.Client

open Proto KeyedMerge Result

variable (P : Primitives)

/-- Collection, identity, key type, key and sequence of an event. -/
abbrev EventDedupKey := Int32 × String × Int32 × Bytes × UInt64

/-- The dedup key of a decoded event. -/
def dedupKey (event : Event) : Option EventDedupKey := do
  let key ← event.key
  let signedBy ← key.signedBy
  return (key.collection, key.identity, signedBy.keyType, signedBy.key, key.sequence)

/-- The bundle's event, when it decodes. -/
def decodeEvent (bundle : EventBundle) : Option Event := do
  let signed ← bundle.signedEvent
  (P.decodeEvent signed.eventBytes).toOption

def eventDedupKey (bundle : EventBundle) : Option EventDedupKey := (decodeEvent P bundle).bind dedupKey

/-- Most popular first, then by emoji and sign, descending. -/
def compareTallies (a b : ReactionTally) : Ordering :=
  (compare b.count a.count).then <|
    (compare b.emoji a.emoji).then <| compare b.positive a.positive

def mergeReactions (left right : List ReactionTally) : List ReactionTally :=
  let merged := mergeByKey (fun tally => some (tally.emoji, tally.positive))
    (fun a b => { a with count := max a.count b.count }) (left ++ right)
  merged.insertionSort fun a b => (compareTallies a b).isLE

def mergeBundleMeta (left right : EventMetadata) : EventMetadata where
  replyCount := max left.replyCount right.replyCount
  reactionCount := max left.reactionCount right.reactionCount
  upvoteCount := max left.upvoteCount right.upvoteCount
  downvoteCount := max left.downvoteCount right.downvoteCount
  emojiReactions := mergeReactions left.emojiReactions right.emojiReactions

/-- Merge only if both values are present. -/
def mergeOpt {α : Type} (left right : Option α) (merge : α → α → α) : Option α :=
  match left, right with
  | some l, some r => some (merge l r)
  | l, r => l.or r

/-- Assume the event keys are the same and merge data. -/
def mergeBundle (left right : EventBundle) : EventBundle where
  signedEvent := left.signedEvent.or right.signedEvent
  serializedContent := left.serializedContent.or right.serializedContent
  eventProofs := if left.eventProofs.isEmpty then right.eventProofs else left.eventProofs
  metadata := mergeOpt left.metadata right.metadata mergeBundleMeta

/-- Deduplicate bundles. The index of the source maps a key to the position of
the entry filed under it. -/
def mergeEventBundles (bundles : List EventBundle) : List EventBundle :=
  mergeByKey (eventDedupKey P) mergeBundle bundles

/-- Deduplicate hints. Hints without a bundle are dropped. -/
def mergeEventHints (hints : List EventHint) : List EventHint :=
  (mergeEventBundles P (hints.filterMap EventHint.eventBundle)).map fun b => ⟨some b⟩

/-- Whether the bundle has a signed event that passes `validate_event`. -/
def isValidated (client : PolycentricClient) (bundle : EventBundle) : Bool :=
  match bundle.signedEvent with
  | some signed => (client.validateEvent P signed bundle.eventProofs).isOk
  | none => false

def retainValidatedBundles (client : PolycentricClient) (bundles : List EventBundle) :
    List EventBundle :=
  bundles.filter (isValidated P client)

def retainValidatedHints (client : PolycentricClient) (hints : List EventHint) : List EventHint :=
  hints.filter fun h => h.eventBundle.any (isValidated P client)

structure PageInfo where
  startCursor : String
  endCursor : String
  hasPreviousPage : Bool
  hasNextPage : Bool
  deriving DecidableEq, Repr

/-- What merging reads of a response. Response types without pages have no page
info. -/
structure BundleResponse where
  eventBundles : List EventBundle
  eventHints : List EventHint
  pageInfo : Option PageInfo
  deriving DecidableEq, Repr

/-- Concatenate the bundles of all responses that decode, merge them by event key
and drop invalid ones. `decode` is the decoder of the response type. -/
def mergeBundleResponse (decode : Bytes → Option BundleResponse) (values : List Bytes)
    (client : PolycentricClient) : BundleResponse where
  eventBundles := retainValidatedBundles P client
    (mergeEventBundles P ((values.filterMap decode).flatMap BundleResponse.eventBundles))
  eventHints := retainValidatedHints P client
    (mergeEventHints P ((values.filterMap decode).flatMap BundleResponse.eventHints))
  pageInfo := none

/-! ### What a merged bundle carries -/

/-- The proofs of a bundle, when there are any. -/
def attachedProofs (bundle : EventBundle) : Option (List EventProof) :=
  if bundle.eventProofs.isEmpty then none else some bundle.eventProofs

/-- The first non-empty list of proofs. -/
def firstProofs (bundles : List EventBundle) : List EventProof :=
  (bundles.findSome? attachedProofs).getD []

/-- The first signed event. -/
def firstSigned (bundles : List EventBundle) : Option SignedEvent :=
  bundles.findSome? EventBundle.signedEvent

/-- The first content attached. -/
def firstContent (bundles : List EventBundle) : Option SerializedContent :=
  bundles.findSome? EventBundle.serializedContent

variable {P}

theorem mergeAll_mergeBundle {bundles : List EventBundle} {b : EventBundle}
    (h : mergeAll mergeBundle bundles = some b) :
    b.signedEvent = firstSigned bundles ∧ b.serializedContent = firstContent bundles ∧
      b.eventProofs = firstProofs bundles := by
  have hProofs : b.eventProofs = (attachedProofs b).getD [] := by
    unfold attachedProofs
    split
    · next hEmpty => simpa using hEmpty
    · rfl
  have hMerge : ∀ l r, attachedProofs (mergeBundle l r) =
      (attachedProofs l).or (attachedProofs r) := by
    intro l r
    unfold attachedProofs mergeBundle
    by_cases hLeft : l.eventProofs.isEmpty = true <;> simp [hLeft]
  refine ⟨?_, ?_, ?_⟩
  · rw [firstSigned, ← mergeAll_bind_eq_findSome? mergeBundle (fun _ _ => rfl), h]
    rfl
  · rw [firstContent, ← mergeAll_bind_eq_findSome? mergeBundle (fun _ _ => rfl), h]
    rfl
  · rw [hProofs, firstProofs, ← mergeAll_bind_eq_findSome? mergeBundle hMerge, h]
    rfl

/-- A validated event decodes and has a full key. -/
theorem validateEvent_isOk {client : PolycentricClient} {signed : SignedEvent}
    {proofs : List EventProof} (h : (client.validateEvent P signed proofs).isOk = true) :
    ∃ event k, P.decodeEvent signed.eventBytes = .ok event ∧ dedupKey event = some k := by
  obtain ⟨u, hOk⟩ := isOk_iff.mp h
  simp only [PolycentricClient.validateEvent, bind_eq_ok_iff, mapError_eq_ok_iff,
    okOr_eq_ok_iff] at hOk
  obtain ⟨event, hEvent, key, hKey, signer, hSigner, -⟩ := hOk
  exact ⟨event, _, hEvent, by simp [dedupKey, hKey, hSigner]; rfl⟩

/-! ### Page infos

`query/pagination.rs`. A client cursor is an encoded map from servers to their own
cursors. -/

structure CursorInfo where
  token : String
  offset : Int32
  moreData : Bool
  deriving DecidableEq, Repr

/-- `BTreeMap<String, CursorInfo>`, the entries in server order. -/
abbrev CursorMap := List (String × CursorInfo)

def CursorMap.insert (server : String) (info : CursorInfo) : CursorMap → CursorMap
  | [] => [(server, info)]
  | entry :: rest =>
      match compare server entry.1 with
      | .lt => (server, info) :: entry :: rest
      | .eq => (server, info) :: rest
      | .gt => entry :: CursorMap.insert server info rest

/-- `FakeCursorToken::encode` and `decode`: JSON in base64, neither of which is
part of this development. -/
structure CursorCodec where
  encode : CursorMap → Option String
  decode : String → Option CursorMap

/-- The entry of a server in two maps: the farthest cursor. As in `i32::abs`, the absolute
value of the least offset wraps. -/
def fartherCursor (info other : CursorInfo) : CursorInfo :=
  if other.offset.abs ≤ info.offset.abs then info else other

/-- The entries of the first map, then what is left of the second. -/
def mergeCursorMaps (c₁ c₂ : CursorMap) : CursorMap :=
  let merged := c₁.foldl (fun merged (server, info) =>
    CursorMap.insert server ((c₂.lookup server).elim info (fartherCursor info)) merged) []
  (c₂.filter fun entry => (c₁.lookup entry.1).isNone).foldl
    (fun merged (server, info) => CursorMap.insert server info merged) merged

/-- Merge two encoded cursors; the first one and `false` if either does not
decode. -/
def mergeCursors (codec : CursorCodec) (t₁ t₂ : String) : String × Bool :=
  match codec.decode t₁, codec.decode t₂ with
  | some c₁, some c₂ =>
      let merged := mergeCursorMaps c₁ c₂
      ((codec.encode merged).getD t₁, merged.any fun entry => entry.2.moreData)
  | _, _ => (t₁, false)

def mergePageInfo (codec : CursorCodec) (i₁ i₂ : Option PageInfo) : Option PageInfo :=
  mergeOpt i₁ i₂ fun i₁ i₂ =>
    let start := mergeCursors codec i₁.startCursor i₂.startCursor
    let last := mergeCursors codec i₁.endCursor i₂.endCursor
    { startCursor := start.1
      endCursor := last.1
      hasPreviousPage := start.2
      hasNextPage := last.2 }

end Polycentric.Client
