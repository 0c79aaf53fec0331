import Polycentric.Client.Blocks
import Polycentric.Client.Merge

/-! Merging feed pages, `do_feed_merge` of `query/feed.rs`. The decay of upvotes
is floating-point arithmetic and stays a parameter: the bits of
`count / (hours + 2) ^ 1.8` for a count and an age in milliseconds. -/
namespace Polycentric.Client

open Proto

variable (P : Primitives)

/-- The key servers ordered a feed by. -/
inductive FeedOrder where
  | createdAt
  | upvotes
  deriving DecidableEq, Repr

/-- The positive-reaction count the server reported, 0 if it reported none. -/
def bundleUpvoteCount (bundle : EventBundle) : UInt64 :=
  (max ((bundle.metadata.bind EventMetadata.upvoteCount).getD 0) 0).toInt.toNat.toUInt64

section Ranking

variable (decay : UInt64 → UInt64 → UInt64)

def decayedUpvoteKey (bundle : EventBundle) (createdAt : Option UInt64) (nowMs : UInt64) : UInt64 :=
  decay (bundleUpvoteCount bundle)
    (createdAt.elim 0 fun created => if created ≤ nowMs then nowMs - created else 0)

def FeedOrder.key (order : FeedOrder) (bundle : EventBundle) (createdAt : Option UInt64)
    (nowMs : UInt64) : Option UInt64 :=
  match order with
  | .createdAt => createdAt
  | .upvotes => some (decayedUpvoteKey decay bundle createdAt nowMs)

/-- Where each post sat in the last emission, in insertion order: for a repeated
key the last position counts. -/
def anchoredPositions (decode : Bytes → Option BundleResponse) (previous : Option Bytes) :
    List (EventDedupKey × Nat) :=
  match previous.bind decode with
  | none => []
  | some response => response.eventBundles.zipIdx.filterMap fun (bundle, position) =>
      (eventDedupKey P bundle).map fun key => (key, position)

/-- What bundles are sorted by: the anchored position, the rank and the creation
time, both descending, and the event key. -/
structure FeedRank where
  position : Nat
  rank : Option UInt64
  createdAt : Option UInt64
  key : Option EventDedupKey

def compareDedupKeys (a b : EventDedupKey) : Ordering :=
  (compare a.1 b.1).then <| (compare a.2.1 b.2.1).then <| (compare a.2.2.1 b.2.2.1).then <|
    (compare a.2.2.2.1 b.2.2.2.1).then <| compare a.2.2.2.2 b.2.2.2.2

/-- `None` sorts before every key. -/
def compareOptionalKeys : Option EventDedupKey → Option EventDedupKey → Ordering
  | none, none => .eq
  | none, some _ => .lt
  | some _, none => .gt
  | some a, some b => compareDedupKeys a b

def FeedRank.cmp (a b : FeedRank) : Ordering :=
  (compare a.position b.position).then <| (compare b.rank a.rank).then <|
    (compare b.createdAt a.createdAt).then <| compareOptionalKeys a.key b.key

/-- `usize::MAX`, the position of a bundle that was not shown before. -/
def unanchored : Nat := 2 ^ 64 - 1

def feedRank (anchor : List (EventDedupKey × Nat)) (order : FeedOrder) (nowMs : UInt64)
    (bundle : EventBundle) : FeedRank :=
  let event := decodeEvent P bundle
  let key := event.bind dedupKey
  let createdAt := event.map Event.createdAt
  { position := (key.bind fun k => anchor.reverse.lookup k).getD unanchored
    rank := order.key decay bundle createdAt nowMs
    createdAt := createdAt
    key := key }

def sortFeed (anchor : List (EventDedupKey × Nat)) (order : FeedOrder) (nowMs : UInt64)
    (bundles : List EventBundle) : List EventBundle :=
  bundles.insertionSort fun a b =>
    ((feedRank P decay anchor order nowMs a).cmp (feedRank P decay anchor order nowMs b)).isLE

end Ranking

/-- How many bundles an emission may carry: the window, but never fewer than were
shown before. -/
def keepCount (windowSize : Option Int32) (anchor : List (EventDedupKey × Nat)) : Nat :=
  max (max (windowSize.getD Int32.maxValue) 0).toInt.toNat (anchor.map Prod.fst).dedup.length

/-- `do_feed_merge` up to the encoding of its result. -/
def doFeedMerge (codec : CursorCodec) (decay : UInt64 → UInt64 → UInt64)
    (decode : Bytes → Option BundleResponse) (nowMs : UInt64) (values : List Bytes)
    (previous : Option Bytes) (client : PolycentricClient) (validate : Bool) (order : FeedOrder)
    (windowSize : Option Int32) : BundleResponse :=
  let incoming := values.filterMap decode
  let pageInfo := incoming.foldl (fun info r => mergePageInfo codec info r.pageInfo) none
  let bundles := mergeEventBundles P (incoming.flatMap BundleResponse.eventBundles)
  let hints := mergeEventHints P (incoming.flatMap BundleResponse.eventHints)
  let bundles := if validate then retainValidatedBundles P client bundles else bundles
  let hints := if validate then retainValidatedHints P client hints else hints
  let blocked := client.blocked P
  let bundles := retainUnblockedBundles P blocked bundles
  let hints := retainUnblockedHints P blocked hints
  let anchor := anchoredPositions P decode previous
  let sorted := sortFeed P decay anchor order nowMs bundles
  let keep := keepCount windowSize anchor
  if keep < sorted.length then
    { eventBundles := sorted.take keep
      eventHints := hints
      pageInfo := some { pageInfo.getD ⟨"", "", false, false⟩ with hasNextPage := true } }
  else { eventBundles := sorted, eventHints := hints, pageInfo := pageInfo }

variable {P} {codec : CursorCodec} {decay : UInt64 → UInt64 → UInt64}
  {decode : Bytes → Option BundleResponse} {nowMs : UInt64} {values : List Bytes}
  {previous : Option Bytes} {client : PolycentricClient} {order : FeedOrder}
  {windowSize : Option Int32}

/-- Blocking, ranking and the window add no bundle to the validated ones. -/
theorem mem_doFeedMerge_eventBundles {bundle : EventBundle}
    (h : bundle ∈ (doFeedMerge P codec decay decode nowMs values previous client true order
      windowSize).eventBundles) :
    bundle ∈ (mergeBundleResponse P decode values client).eventBundles := by
  unfold doFeedMerge at h
  simp only [if_true] at h
  have hSorted : bundle ∈ sortFeed P decay (anchoredPositions P decode previous) order nowMs
      (retainUnblockedBundles P (client.blocked P)
        (mergeBundleResponse P decode values client).eventBundles) := by
    split at h
    · exact List.mem_of_mem_take h
    · exact h
  rw [sortFeed, List.mem_insertionSort] at hSorted
  exact (retainUnblocked_sublist P _ _ _).subset hSorted

theorem mem_doFeedMerge_eventHints {hint : EventHint}
    (h : hint ∈ (doFeedMerge P codec decay decode nowMs values previous client true order
      windowSize).eventHints) :
    hint ∈ (mergeBundleResponse P decode values client).eventHints := by
  unfold doFeedMerge at h
  simp only [if_true] at h
  have hKept : hint ∈ retainUnblockedHints P (client.blocked P)
      (mergeBundleResponse P decode values client).eventHints := by
    split at h
    · exact h
    · exact h
  exact (retainUnblockedHints_sublist P _ _).subset hKept

end Polycentric.Client
