import Polycentric.Client.FeedAnchoring
import Polycentric.Client.ThreadBlocks

/-! Whether the order in which the pages of a feed arrive matters. It does not, as long as
the copies of an event differ in their metadata only: metadata is merged in a way that
forgets the order, and the rows that validate all have different keys. -/
namespace Polycentric.Client

open Proto KeyedMerge SortedEntries

/-! ### Counts -/

theorem toInt_max (a b : Int32) : (max a b).toInt = max a.toInt b.toInt := by
  change (if a ≤ b then b else a).toInt = _
  split
  · next hLe => rw [max_eq_right (Int32.le_iff_toInt_le.mp hLe)]
  · next hGt => rw [max_eq_left (Int32.le_iff_toInt_le.mp (Int32.le_of_lt (Int32.not_le.mp hGt)))]

theorem max_count_comm (a b : Int32) : max a b = max b a := by
  rw [← Int32.toInt_inj, toInt_max, toInt_max, max_comm]

theorem max_count_right_comm (a b c : Int32) : max (max a b) c = max (max a c) b := by
  rw [← Int32.toInt_inj, toInt_max, toInt_max, toInt_max, toInt_max, max_right_comm]

theorem max_optional_comm (a b : Option Int32) : max a b = max b a := by
  cases a with
  | none => simp
  | some a =>
      cases b with
      | none => simp
      | some b => simp [max_count_comm a b]

theorem max_optional_right_comm (a b c : Option Int32) : max (max a b) c = max (max a c) b := by
  cases a with
  | none => simp [max_optional_comm b c]
  | some a =>
      cases b with
      | none => simp
      | some b =>
          cases c with
          | none => simp
          | some c => simp [max_count_right_comm a b c]

/-! ### Reactions -/

/-- What tallies are merged by. -/
def tallyKey (tally : ReactionTally) : Option (String × Bool) := some (tally.emoji, tally.positive)

def mergeTally (a b : ReactionTally) : ReactionTally := { a with count := max a.count b.count }

/-- Tallies of one reaction can be merged in any order. -/
theorem commutes_mergeTally (k : String × Bool) :
    Commutes mergeTally fun tally => tallyKey tally = some k where
  closed _ _ ha _ := ha
  comm a b ha hb := by
    obtain ⟨emoji, positive, count⟩ := a
    obtain ⟨emoji', positive', count'⟩ := b
    obtain ⟨rfl, rfl⟩ := Prod.mk.inj (Option.some.inj (ha.trans hb.symm))
    simp [mergeTally, max_count_comm count count']
  right_comm a b c _ _ _ := by simp [mergeTally, max_count_right_comm]

theorem keepsKey_mergeTally : KeepsKey tallyKey mergeTally := fun _ _ _ ha _ => ha

instance : Std.TransCmp compareTallies :=
  haveI : Std.TransCmp fun a b : ReactionTally => compareOn ReactionTally.count b a :=
    Std.TransCmp.opposite
  haveI : Std.TransCmp fun a b : ReactionTally => compareOn ReactionTally.emoji b a :=
    Std.TransCmp.opposite
  haveI : Std.TransCmp fun a b : ReactionTally => compareOn ReactionTally.positive b a :=
    Std.TransCmp.opposite
  inferInstanceAs (Std.TransCmp (compareLex (fun a b => compareOn ReactionTally.count b a)
    (compareLex (fun a b => compareOn ReactionTally.emoji b a)
      (fun a b => compareOn ReactionTally.positive b a))))

instance : Std.LawfulEqCmp compareTallies where
  eq_of_compare {a b} h := by
    obtain ⟨_, _, _⟩ := a
    obtain ⟨_, _, _⟩ := b
    simp only [compareTallies, Ordering.then_eq_eq, Std.LawfulEqCmp.compare_eq_iff_eq] at h
    obtain ⟨rfl, rfl, rfl⟩ := h
    rfl

/-- The sorted tallies of a list, one for each emoji and sign. -/
def tallied (tallies : List ReactionTally) : List ReactionTally :=
  (mergeByKey tallyKey mergeTally tallies).insertionSort fun a b => (compareTallies a b).isLE

theorem mergeReactions_eq (left right : List ReactionTally) :
    mergeReactions left right = tallied (left ++ right) := rfl

/-- Merged tallies are of different reactions, so none is listed twice. -/
theorem nodup_mergeTallies (tallies : List ReactionTally) :
    (mergeByKey tallyKey mergeTally tallies).Nodup :=
  (map_key_nodup (fun _ _ => rfl) (keepsKey_mergeTally.nodup tallies)).of_map

/-- Which tallies are left is all that matters. -/
theorem tallied_congr {tallies tallies' : List ReactionTally}
    (h : ∀ tally, tally ∈ mergeByKey tallyKey mergeTally tallies ↔
      tally ∈ mergeByKey tallyKey mergeTally tallies') : tallied tallies = tallied tallies' := by
  refine insertionSort_eq_of_perm ?_ ?_
  · exact (List.perm_ext_iff_of_nodup (nodup_mergeTallies _) (nodup_mergeTallies _)).mpr h
  · intro a _ b _ hab hba
    exact Std.LawfulEqCmp.eq_of_compare (Std.OrientedCmp.isLE_antisymm hab hba)

/-- The sorted tallies do not depend on the order in which they came. -/
theorem tallied_perm {tallies tallies' : List ReactionTally} (hPerm : tallies.Perm tallies') :
    tallied tallies = tallied tallies' := by
  refine tallied_congr fun tally => mem_mergeByKey_perm ?_ hPerm
  intro k
  exact ⟨_, commutes_mergeTally k, fun x hx => by simpa using (List.mem_filter.mp hx).2⟩

/-- Tallying in two parts is tallying once. -/
theorem tallied_append (left right : List ReactionTally) :
    tallied (tallied left ++ right) = tallied (left ++ right) := by
  have hSorted : (tallied left ++ right).Perm
      (mergeByKey tallyKey mergeTally left ++ right) := (List.perm_insertionSort _ _).append_right _
  rw [tallied_perm hSorted]
  exact tallied_congr fun tally => keepsKey_mergeTally.mem_mergeByKey_append

theorem mergeReactions_comm (a b : List ReactionTally) : mergeReactions a b = mergeReactions b a :=
  tallied_perm List.perm_append_comm

theorem mergeReactions_right_comm (a b c : List ReactionTally) :
    mergeReactions (mergeReactions a b) c = mergeReactions (mergeReactions a c) b := by
  simp only [mergeReactions_eq, tallied_append]
  rw [List.append_assoc, List.append_assoc]
  exact tallied_perm (List.perm_append_comm.append_left a)

/-! ### Bundles -/

/-- Two copies of a bundle give the same metadata in both orders. -/
theorem mergeBundleMeta_comm (a b : EventMetadata) : mergeBundleMeta a b = mergeBundleMeta b a := by
  simp only [mergeBundleMeta, EventMetadata.mk.injEq]
  exact ⟨max_optional_comm _ _, max_optional_comm _ _, max_optional_comm _ _,
    max_optional_comm _ _, mergeReactions_comm _ _⟩

/-- Of three copies, the last two can change places. -/
theorem mergeBundleMeta_right_comm (a b c : EventMetadata) :
    mergeBundleMeta (mergeBundleMeta a b) c = mergeBundleMeta (mergeBundleMeta a c) b := by
  simp only [mergeBundleMeta, EventMetadata.mk.injEq]
  exact ⟨max_optional_right_comm _ _ _, max_optional_right_comm _ _ _,
    max_optional_right_comm _ _ _, max_optional_right_comm _ _ _, mergeReactions_right_comm _ _ _⟩

section MergeOpt

variable {α : Type} {merge : α → α → α}

theorem mergeOpt_comm (h : ∀ a b, merge a b = merge b a) (a b : Option α) :
    mergeOpt a b merge = mergeOpt b a merge := by
  cases a with
  | none => cases b <;> rfl
  | some a =>
      cases b with
      | none => rfl
      | some b => exact congrArg some (h a b)

theorem mergeOpt_right_comm (hComm : ∀ a b, merge a b = merge b a)
    (h : ∀ a b c, merge (merge a b) c = merge (merge a c) b) (a b c : Option α) :
    mergeOpt (mergeOpt a b merge) c merge = mergeOpt (mergeOpt a c merge) b merge := by
  cases a with
  | none =>
      cases b with
      | none => cases c <;> rfl
      | some b =>
          cases c with
          | none => rfl
          | some c => exact congrArg some (hComm b c)
  | some a =>
      cases b with
      | none => cases c <;> rfl
      | some b =>
          cases c with
          | none => rfl
          | some c => exact congrArg some (h a b c)

end MergeOpt

/-- Equal up to the metadata. -/
def SameParts (a b : EventBundle) : Prop :=
  a.signedEvent = b.signedEvent ∧ a.serializedContent = b.serializedContent ∧
    a.eventProofs = b.eventProofs

/-- Copies that agree in everything but their metadata are merged in their metadata only. -/
theorem mergeBundle_eq {first a b : EventBundle} (ha : SameParts a first) (hb : SameParts b first) :
    mergeBundle a b = { first with metadata := mergeOpt a.metadata b.metadata mergeBundleMeta } := by
  obtain ⟨haSigned, haContent, haProofs⟩ := ha
  obtain ⟨hbSigned, hbContent, hbProofs⟩ := hb
  simp [mergeBundle, haSigned, haContent, haProofs, hbSigned, hbContent, hbProofs]

/-- Copies that agree can be merged in any order. -/
theorem commutes_mergeBundle (first : EventBundle) :
    Commutes mergeBundle fun bundle => SameParts bundle first where
  closed a b ha hb := by
    rw [mergeBundle_eq ha hb]
    exact ⟨rfl, rfl, rfl⟩
  comm a b ha hb := by
    rw [mergeBundle_eq ha hb, mergeBundle_eq hb ha, mergeOpt_comm mergeBundleMeta_comm]
  right_comm a b c ha hb hc := by
    have hMerged : ∀ metadata, SameParts { first with metadata := metadata } first :=
      fun _ => ⟨rfl, rfl, rfl⟩
    rw [mergeBundle_eq ha hb, mergeBundle_eq ha hc, mergeBundle_eq (hMerged _) hc,
      mergeBundle_eq (hMerged _) hb,
      mergeOpt_right_comm mergeBundleMeta_comm mergeBundleMeta_right_comm]

/-! ### Pages -/

variable (P : Primitives)

/-- Copies of a key differ in their metadata only. -/
def CopiesAgree (bundles : List EventBundle) : Prop :=
  ∀ a ∈ bundles, ∀ b ∈ bundles, ∀ k, eventDedupKey P a = some k → eventDedupKey P b = some k →
    SameParts a b

section Ranking

variable (rank : UInt64 → Option UInt64 → UInt64 → Option UInt64)

/-- What new rows are sorted by when they are ranked by any function of the merged upvote
count, the creation time and the moment of the merge. -/
def rankOf (nowMs : UInt64) (bundle : EventBundle) : FeedRank :=
  let createdAt := (decodeEvent P bundle).map Event.createdAt
  { position := unanchored
    rank := rank (bundleUpvoteCount bundle) createdAt nowMs
    createdAt := createdAt
    key := eventDedupKey P bundle }

/-- The bundles of a validated merge without an earlier emission, with any ranking. -/
def rankedRows (decode : Bytes → Option BundleResponse) (nowMs : UInt64) (values : List Bytes)
    (client : PolycentricClient) (windowSize : Option Int32) : List EventBundle :=
  ((survivingRows P decode values client true).insertionSort fun a b =>
    ((rankOf P rank nowMs a).cmp (rankOf P rank nowMs b)).isLE).take (keepCount windowSize [])

end Ranking

/-- The ranking of `FeedOrder::key`. -/
def FeedOrder.rank (decay : UInt64 → UInt64 → UInt64) (order : FeedOrder) (count : UInt64)
    (createdAt : Option UInt64) (nowMs : UInt64) : Option UInt64 :=
  match order with
  | .createdAt => createdAt
  | .upvotes => some (decay count
      (createdAt.elim 0 fun created => if created ≤ nowMs then nowMs - created else 0))

variable {P} {rank : UInt64 → Option UInt64 → UInt64 → Option UInt64} {codec : CursorCodec}
  {decay : UInt64 → UInt64 → UInt64} {decode : Bytes → Option BundleResponse} {nowMs : UInt64}
  {values values' : List Bytes} {client : PolycentricClient} {windowSize : Option Int32}
  {bundles bundles' : List EventBundle}

/-- Without an earlier window, a feed ranks the rows that survive the merge. -/
theorem doFeedMerge_eq_rankedRows (order : FeedOrder) :
    (doFeedMerge P codec decay decode nowMs values none client true order
      windowSize).eventBundles =
    rankedRows P (order.rank decay) decode nowMs values client windowSize := by
  have hRank : feedRank P decay [] order nowMs = rankOf P (order.rank decay) nowMs := by
    funext bundle
    have hPosition : (feedRank P decay [] order nowMs bundle).position = unanchored := by
      rw [feedRank_position]
      cases eventDedupKey P bundle <;> rfl
    have hOrder : ∀ createdAt, order.key decay bundle createdAt nowMs =
        order.rank decay (bundleUpvoteCount bundle) createdAt nowMs := by
      intro createdAt
      cases order <;> rfl
    rw [rankOf, ← hOrder, ← hPosition]
    rfl
  rw [doFeedMerge_eventBundles, rankedRows, anchoredPositions, Option.bind_none]
  simp only [sortFeed, hRank]

/-- The merged bundles are the same in every order of the answers. -/
theorem mem_mergeEventBundles_perm (hCopies : CopiesAgree P bundles)
    (hPerm : bundles.Perm bundles') {b : EventBundle} :
    b ∈ mergeEventBundles P bundles ↔ b ∈ mergeEventBundles P bundles' := by
  refine mem_mergeByKey_perm ?_ hPerm
  intro k
  cases hFirst : copies (eventDedupKey P) k bundles with
  | nil => exact ⟨_, commutes_mergeBundle ⟨none, none, [], none⟩, fun x hx => nomatch hx⟩
  | cons first rest =>
      refine ⟨_, commutes_mergeBundle first, ?_⟩
      have hKeyed : ∀ x ∈ first :: rest, x ∈ bundles ∧ eventDedupKey P x = some k := by
        intro x hx
        rw [← hFirst] at hx
        simpa [copies] using hx
      intro x hx
      obtain ⟨hMem, hKey⟩ := hKeyed x hx
      obtain ⟨hMemFirst, hKeyFirst⟩ := hKeyed first List.mem_cons_self
      exact hCopies x hMem first hMemFirst k hKey hKeyFirst

/-- A row that validates has a key. -/
theorem survivingRows_keyed : ∀ row ∈ survivingRows P decode values client true,
    (eventDedupKey P row).isSome = true := by
  intro row hRow
  have hKept := (retainUnblocked_sublist P _ _ _).subset hRow
  exact isValidated_eventDedupKey (List.mem_filter.mp hKept).2

/-- Deletes and blocks are read from the same rows in every order of the answers. -/
theorem survivingRows_perm (hCopies : CopiesAgree P (receivedBundles decode values))
    (hPerm : values.Perm values') :
    (survivingRows P decode values client true).Perm
      (survivingRows P decode values' client true) := by
  have hNodup : ∀ values, (survivingRows P decode values client true).Nodup := fun values =>
    (map_key_nodup survivingRows_keyed survivingRows_nodup).of_map
  have hBundles : (receivedBundles decode values).Perm (receivedBundles decode values') :=
    (hPerm.filterMap decode).flatMap_right _
  rw [List.perm_ext_iff_of_nodup (hNodup _) (hNodup _)]
  intro row
  simp only [survivingRows, if_true, retainUnblockedBundles_eq_filter, retainValidatedBundles,
    List.mem_filter]
  rw [← receivedBundles, ← receivedBundles, mem_mergeEventBundles_perm hCopies hBundles]

/-- Rows are ranked by what they are and not by when they came. -/
theorem rankedRows_perm (hCopies : CopiesAgree P (receivedBundles decode values))
    (hPerm : values.Perm values') :
    rankedRows P rank decode nowMs values client windowSize =
      rankedRows P rank decode nowMs values' client windowSize := by
  unfold rankedRows
  rw [insertionSort_eq_of_perm (survivingRows_perm hCopies hPerm)]
  intro a ha b hb hab hba
  -- The key decides between rows that tie in everything before it.
  have hEq : (rankOf P rank nowMs a).cmp (rankOf P rank nowMs b) = .eq :=
    Std.OrientedCmp.isLE_antisymm hab hba
  have hKey : eventDedupKey P a = eventDedupKey P b := by
    simp only [FeedRank.cmp, Ordering.then_eq_eq] at hEq
    exact Std.LawfulEqCmp.eq_of_compare hEq.2.2.2
  exact List.inj_on_of_nodup_map (map_key_nodup survivingRows_keyed survivingRows_nodup) ha hb hKey

/-- The order of the pages does not matter to a validated merge without an earlier
emission, whatever new rows are ranked by. -/
theorem feed_page_order (P : Primitives) (rank : UInt64 → Option UInt64 → UInt64 → Option UInt64)
    (codec : CursorCodec) (decay : UInt64 → UInt64 → UInt64)
    (decode : Bytes → Option BundleResponse) (nowMs : UInt64) (values values' : List Bytes)
    (client : PolycentricClient) (order : FeedOrder) (windowSize : Option Int32)
    (hCopies : CopiesAgree P (receivedBundles decode values)) (hPerm : values.Perm values') :
    rankedRows P rank decode nowMs values client windowSize =
        rankedRows P rank decode nowMs values' client windowSize ∧
      (doFeedMerge P codec decay decode nowMs values none client true order
        windowSize).eventBundles =
      (doFeedMerge P codec decay decode nowMs values' none client true order
        windowSize).eventBundles := by
  refine ⟨rankedRows_perm hCopies hPerm, ?_⟩
  rw [doFeedMerge_eq_rankedRows, doFeedMerge_eq_rankedRows]
  exact rankedRows_perm hCopies hPerm

end Polycentric.Client

namespace Polycentric.TableInstance

open Client

/-- Two servers that count the upvotes of a post differently. -/
def countedPost (count : Int32) : Proto.EventBundle :=
  { unsignedPost with metadata := some ⟨none, none, some count, none, [⟨"+", true, count⟩]⟩ }

def countingAnswer (page : Bytes) : Option BundleResponse :=
  some ⟨[countedPost (if page = [1] then 3 else 5)], [], none⟩

end Polycentric.TableInstance

namespace Polycentric.Client

open TableInstance

/-- Both orders of the two pages count five upvotes. -/
theorem feed_page_order_counted :
    (doFeedMerge postPrimitives noCursors (fun count _ => count) countingAnswer 0 [[1], [2]] none
      aliceClient true .upvotes none).eventBundles =
    (doFeedMerge postPrimitives noCursors (fun count _ => count) countingAnswer 0 [[2], [1]] none
      aliceClient true .upvotes none).eventBundles := by
  have hParts : ∀ bundle ∈ receivedBundles countingAnswer [[1], [2]],
      bundle.signedEvent = unsignedPost.signedEvent ∧ bundle.serializedContent = none ∧
        bundle.eventProofs = [] := by decide +kernel
  have hCopies : CopiesAgree postPrimitives (receivedBundles countingAnswer [[1], [2]]) := by
    intro a ha b hb _ _ _
    obtain ⟨haSigned, haContent, haProofs⟩ := hParts a ha
    obtain ⟨hbSigned, hbContent, hbProofs⟩ := hParts b hb
    exact ⟨haSigned.trans hbSigned.symm, haContent.trans hbContent.symm,
      haProofs.trans hbProofs.symm⟩
  exact (feed_page_order postPrimitives (fun count _ _ => some count) noCursors
    (fun count _ => count) countingAnswer 0 [[1], [2]] [[2], [1]] aliceClient .upvotes none hCopies
    (List.Perm.swap _ _ _)).2

end Polycentric.Client
