import Polycentric.Client.Authenticity
import Polycentric.Library.Anchoring

/-! What a feed merge does with the posts that were shown before: they stay in front of
everything new, in the order they had, and the window holds none of them back. -/
namespace Polycentric.Client

open Proto KeyedMerge Anchoring

variable (P : Primitives)

/-! ### The order of the feed -/

section Order

instance : Std.TransCmp compareDedupKeys :=
  inferInstanceAs (Std.TransCmp (compareLex (compareOn fun key : EventDedupKey => key.1)
    (compareLex (compareOn fun key => key.2.1) (compareLex (compareOn fun key => key.2.2.1)
      (compareLex (compareOn fun key => key.2.2.2.1) (compareOn fun key => key.2.2.2.2))))))

instance : Std.LawfulEqCmp compareDedupKeys where
  eq_of_compare {a b} h := by
    obtain ⟨_, _, _, _, _⟩ := a
    obtain ⟨_, _, _, _, _⟩ := b
    simpa [compareDedupKeys, Ordering.then_eq_eq, Std.LawfulEqCmp.compare_eq_iff_eq] using h

instance : Std.TransCmp compareOptionalKeys where
  eq_swap {a b} := by
    cases a with
    | none => cases b <;> rfl
    | some a =>
        cases b with
        | none => rfl
        | some b => exact (Std.OrientedCmp.eq_swap : compareDedupKeys a b = (compareDedupKeys b a).swap)
  isLE_trans {a b c} hab hbc := by
    cases a with
    | none => cases c <;> rfl
    | some a =>
        cases b with
        | none => cases hab
        | some b =>
            cases c with
            | none => cases hbc
            | some c =>
                have hFirst : (compareDedupKeys a b).isLE = true := hab
                have hSecond : (compareDedupKeys b c).isLE = true := hbc
                exact (Std.TransCmp.isLE_trans hFirst hSecond : (compareDedupKeys a c).isLE = true)

instance : Std.LawfulEqCmp compareOptionalKeys where
  eq_of_compare {a b} h := by
    cases a with
    | none =>
        cases b with
        | none => rfl
        | some b => cases h
    | some a =>
        cases b with
        | none => cases h
        | some b =>
            have hEq : compareDedupKeys a b = .eq := h
            rw [Std.LawfulEqCmp.eq_of_compare hEq]

instance : Std.TransCmp fun a b : FeedRank => compareOptionalKeys a.key b.key where
  eq_swap {a b} := @Std.OrientedCmp.eq_swap _ compareOptionalKeys _ a.key b.key
  isLE_trans {a b c} := @Std.TransCmp.isLE_trans _ compareOptionalKeys _ a.key b.key c.key

instance : Std.TransCmp FeedRank.cmp :=
  haveI : Std.TransCmp fun a b : FeedRank => compareOn FeedRank.rank b a :=
    Std.TransCmp.opposite
  haveI : Std.TransCmp fun a b : FeedRank => compareOn FeedRank.createdAt b a :=
    Std.TransCmp.opposite
  inferInstanceAs (Std.TransCmp (compareLex (compareOn FeedRank.position)
    (compareLex (fun a b : FeedRank => compareOn FeedRank.rank b a)
      (compareLex (fun a b : FeedRank => compareOn FeedRank.createdAt b a)
        (fun a b : FeedRank => compareOptionalKeys a.key b.key)))))

theorem FeedRank.position_le {a b : FeedRank} (h : (a.cmp b).isLE = true) :
    a.position ≤ b.position :=
  Nat.isLE_compare.mp (Ordering.isLE_left_of_isLE_then h)

end Order

/-! ### Merged rows -/

theorem keepsKey_mergeBundle : KeepsKey (eventDedupKey P) mergeBundle := by
  intro a b k ha _
  cases hSigned : a.signedEvent with
  | none => simp [eventDedupKey, decodeEvent, hSigned] at ha
  | some signed =>
      have hSame : decodeEvent P (mergeBundle a b) = decodeEvent P a := by
        simp [decodeEvent, mergeBundle, hSigned]
      rw [eventDedupKey, hSame]
      exact ha

/-- The rows that survive merging, validation and block filtering. -/
def survivingRows (decode : Bytes → Option BundleResponse) (values : List Bytes)
    (client : PolycentricClient) (validate : Bool) : List EventBundle :=
  let bundles := mergeEventBundles P ((values.filterMap decode).flatMap BundleResponse.eventBundles)
  retainUnblockedBundles P (client.blocked P)
    (if validate then retainValidatedBundles P client bundles else bundles)

/-- The keys of the rows that were shown, in order. -/
def emittedKeys (decode : Bytes → Option BundleResponse) (previous : Option Bytes) :
    List EventDedupKey :=
  (previous.bind decode).elim [] fun response => response.eventBundles.filterMap (eventDedupKey P)

variable {P} {codec : CursorCodec} {decay : UInt64 → UInt64 → UInt64}
  {decode : Bytes → Option BundleResponse} {nowMs : UInt64} {values : List Bytes}
  {previous : Option Bytes} {client : PolycentricClient} {validate : Bool} {order : FeedOrder}
  {windowSize : Option Int32} {anchor : List (EventDedupKey × Nat)} {rows : List EventBundle}

theorem survivingRows_sublist : (survivingRows P decode values client validate).Sublist
    (mergeEventBundles P ((values.filterMap decode).flatMap BundleResponse.eventBundles)) := by
  refine (retainUnblocked_sublist P _ _ _).trans ?_
  cases validate with
  | false => exact List.Sublist.refl _
  | true => exact List.filter_sublist

theorem survivingRows_nodup :
    ((survivingRows P decode values client validate).filterMap (eventDedupKey P)).Nodup :=
  ((keepsKey_mergeBundle P).nodup _).sublist (survivingRows_sublist.filterMap _)

/-! ### The sorted rows -/

theorem sortFeed_perm : (sortFeed P decay anchor order nowMs rows).Perm rows :=
  List.perm_insertionSort _ _

theorem feedRank_position (row : EventBundle) :
    (feedRank P decay anchor order nowMs row).position =
      place anchor unanchored (eventDedupKey P row) := by
  have hBEq : (instBEqProd : BEq EventDedupKey) = instBEqOfDecidableEq :=
    lawful_beq_subsingleton _ _
  unfold feedRank place
  rw [hBEq]
  rfl

theorem pairwise_place_sortFeed : (sortFeed P decay anchor order nowMs rows).Pairwise fun a b =>
    place anchor unanchored (eventDedupKey P a) ≤ place anchor unanchored (eventDedupKey P b) := by
  refine (List.pairwise_insertionSort _ rows).imp ?_
  intro a b hLe
  rw [← feedRank_position, ← feedRank_position]
  exact FeedRank.position_le hLe

theorem length_le_keepCount (hNodup : (anchor.map Prod.fst).Nodup) :
    anchor.length ≤ keepCount windowSize anchor := by
  rw [keepCount, List.dedup_eq_self.mpr hNodup, List.length_map]
  exact Nat.le_max_right _ _

/-- The shown rows come first, with the keys in the order they had, and the window never
reaches into them. -/
theorem take_sortFeed (h : Ordered anchor unanchored)
    (hKeys : (rows.filterMap (eventDedupKey P)).Nodup) :
    ∃ shown new, (sortFeed P decay anchor order nowMs rows).take (keepCount windowSize anchor) =
        shown ++ new ∧
      shown.filterMap (eventDedupKey P) =
        (anchor.map Prod.fst).filter (fun k => k ∈ rows.filterMap (eventDedupKey P)) ∧
      (∀ row ∈ shown, isAnchored (eventDedupKey P) anchor row = true) ∧
      ∀ row ∈ new, isAnchored (eventDedupKey P) anchor row = false := by
  have hPerm : (sortFeed P decay anchor order nowMs rows).Perm rows := sortFeed_perm
  have hSorted := @pairwise_place_sortFeed P decay nowMs order anchor rows
  have hSortedKeys : ((sortFeed P decay anchor order nowMs rows).filterMap (eventDedupKey P)).Perm
      (rows.filterMap (eventDedupKey P)) := hPerm.filterMap _
  generalize sortFeed P decay anchor order nowMs rows = sorted at hPerm hSorted hSortedKeys
  have hShown : (sorted.filter (isAnchored (eventDedupKey P) anchor)).filterMap (eventDedupKey P) =
      (anchor.map Prod.fst).filter fun k => k ∈ rows.filterMap (eventDedupKey P) := by
    rw [h.filterMap_filter hSorted (hSortedKeys.nodup_iff.mpr hKeys)]
    exact List.filter_congr fun k _ => by simp only [hSortedKeys.mem_iff]
  have hShort : (sorted.filter (isAnchored (eventDedupKey P) anchor)).length ≤
      keepCount windowSize anchor := by
    calc (sorted.filter (isAnchored (eventDedupKey P) anchor)).length
        = ((anchor.map Prod.fst).filter fun k => k ∈ rows.filterMap (eventDedupKey P)).length := by
          rw [← hShown, length_filterMap_isAnchored]
      _ ≤ (anchor.map Prod.fst).length := List.length_filter_le _ _
      _ ≤ keepCount windowSize anchor := by
          rw [List.length_map]
          exact length_le_keepCount h.nodup
  refine ⟨sorted.filter (isAnchored (eventDedupKey P) anchor),
    (sorted.filter fun row => !isAnchored (eventDedupKey P) anchor row).take
      (keepCount windowSize anchor - (sorted.filter (isAnchored (eventDedupKey P) anchor)).length),
    ?_, hShown, fun row hRow => (List.mem_filter.mp hRow).2, ?_⟩
  · calc sorted.take (keepCount windowSize anchor)
        = (sorted.filter (isAnchored (eventDedupKey P) anchor) ++
            sorted.filter fun row => !isAnchored (eventDedupKey P) anchor row).take
              (keepCount windowSize anchor) := by rw [h.filter_append hSorted]
      _ = _ := by rw [List.take_append, List.take_of_length_le hShort]
  · intro row hRow
    simpa using (List.mem_filter.mp (List.mem_of_mem_take hRow)).2

/-! ### Emissions -/

/-- What a merge can have emitted, in a vector that the machine can hold. -/
def Emitted (P : Primitives) (codec : CursorCodec) (decay : UInt64 → UInt64 → UInt64)
    (decode : Bytes → Option BundleResponse) (response : BundleResponse) : Prop :=
  response.eventBundles.length ≤ unanchored ∧
    ∃ nowMs values previous client validate order windowSize,
      response = doFeedMerge P codec decay decode nowMs values previous client validate order
        windowSize

theorem doFeedMerge_eventBundles :
    (doFeedMerge P codec decay decode nowMs values previous client validate order
      windowSize).eventBundles =
    (sortFeed P decay (anchoredPositions P decode previous) order nowMs
      (survivingRows P decode values client validate)).take
        (keepCount windowSize (anchoredPositions P decode previous)) := by
  cases validate with
  | false =>
      simp only [doFeedMerge, Bool.false_eq_true, if_false]
      split
      · rfl
      · next hAll => exact (List.take_of_length_le (Nat.not_lt.mp hAll)).symm
  | true =>
      simp only [doFeedMerge, if_true]
      split
      · rfl
      · next hAll => exact (List.take_of_length_le (Nat.not_lt.mp hAll)).symm

/-- A row that is held back is still more to read. -/
theorem doFeedMerge_hasNextPage
    (h : keepCount windowSize (anchoredPositions P decode previous) <
      (survivingRows P decode values client validate).length) :
    ∃ info, (doFeedMerge P codec decay decode nowMs values previous client validate order
      windowSize).pageInfo = some info ∧ info.hasNextPage = true := by
  rw [← (@sortFeed_perm P decay nowMs order (anchoredPositions P decode previous) _).length_eq] at h
  cases validate with
  | false =>
      simp only [doFeedMerge, Bool.false_eq_true, if_false]
      split
      · exact ⟨_, rfl, rfl⟩
      · next hAll => exact absurd h hAll
  | true =>
      simp only [doFeedMerge, if_true]
      split
      · exact ⟨_, rfl, rfl⟩
      · next hAll => exact absurd h hAll

theorem doFeedMerge_nodup :
    ((doFeedMerge P codec decay decode nowMs values previous client validate order
      windowSize).eventBundles.filterMap (eventDedupKey P)).Nodup := by
  rw [doFeedMerge_eventBundles]
  have hSorted := @sortFeed_perm P decay nowMs order (anchoredPositions P decode previous)
    (survivingRows P decode values client validate)
  exact ((hSorted.filterMap _).nodup_iff.mpr survivingRows_nodup).sublist
    ((List.take_sublist _ _).filterMap _)

/-- The positions in an emission. -/
theorem ordered_anchoredPositions
    (h : ∀ response, previous.bind decode = some response →
      Emitted P codec decay decode response) :
    Ordered (anchoredPositions P decode previous) unanchored ∧
      (anchoredPositions P decode previous).map Prod.fst = emittedKeys P decode previous := by
  unfold anchoredPositions emittedKeys
  cases hPrevious : previous.bind decode with
  | none => exact ⟨⟨List.nodup_nil, List.Pairwise.nil, fun _ hMem => nomatch hMem⟩, rfl⟩
  | some response =>
      obtain ⟨hLength, _, _, _, _, _, _, _, hEmitted⟩ := h response hPrevious
      have hKeys : (response.eventBundles.filterMap (eventDedupKey P)).Nodup := by
        rw [hEmitted]
        exact doFeedMerge_nodup
      exact ⟨Ordered.positions hKeys hLength, positions_map_fst _⟩

/-- No key is emitted twice. The rows that were shown and survive come first, in the order
they had, and with rows held back there is a next page. -/
theorem feed_anchored (P : Primitives) (codec : CursorCodec) (decay : UInt64 → UInt64 → UInt64)
    (decode : Bytes → Option BundleResponse) (nowMs : UInt64) (values : List Bytes)
    (previous : Option Bytes) (client : PolycentricClient) (validate : Bool) (order : FeedOrder)
    (windowSize : Option Int32)
    (hPrevious : ∀ response, previous.bind decode = some response →
      Emitted P codec decay decode response) :
    let rows := survivingRows P decode values client validate
    let emission := doFeedMerge P codec decay decode nowMs values previous client validate order
      windowSize
    (emission.eventBundles.filterMap (eventDedupKey P)).Nodup ∧
    (∃ shown new, emission.eventBundles = shown ++ new ∧
      shown.filterMap (eventDedupKey P) = (emittedKeys P decode previous).filter
        (fun key => key ∈ rows.filterMap (eventDedupKey P)) ∧
      (∀ row ∈ shown, ∃ key ∈ emittedKeys P decode previous, eventDedupKey P row = some key) ∧
      ∀ row ∈ new, ∀ key ∈ emittedKeys P decode previous, eventDedupKey P row ≠ some key) ∧
    ∃ heldBack, (emission.eventBundles ++ heldBack).Perm rows ∧
      (heldBack ≠ [] → ∃ info, emission.pageInfo = some info ∧ info.hasNextPage = true) := by
  intro rows emission
  obtain ⟨hOrdered, hEmitted⟩ := ordered_anchoredPositions hPrevious
  refine ⟨doFeedMerge_nodup, ?_, ?_⟩
  · obtain ⟨shown, new, hTake, hKeys, hShown, hNew⟩ :=
      @take_sortFeed P decay nowMs order windowSize _ rows hOrdered survivingRows_nodup
    rw [hEmitted] at hKeys
    refine ⟨shown, new, doFeedMerge_eventBundles.trans hTake, hKeys, ?_, ?_⟩
    · intro row hRow
      rw [← hEmitted]
      exact isAnchored_iff.mp (hShown row hRow)
    · intro row hRow key hMem hKey
      rw [← hEmitted] at hMem
      have hAnchored := isAnchored_iff.mpr ⟨key, hMem, hKey⟩
      rw [hNew row hRow] at hAnchored
      cases hAnchored
  · let sorted := sortFeed P decay (anchoredPositions P decode previous) order nowMs rows
    refine ⟨sorted.drop (keepCount windowSize (anchoredPositions P decode previous)), ?_, ?_⟩
    · rw [doFeedMerge_eventBundles, List.take_append_drop]
      exact sortFeed_perm
    · intro hHeld
      apply doFeedMerge_hasNextPage
      have hLength : sorted.length = rows.length := sortFeed_perm.length_eq
      rw [← hLength]
      by_contra hAll
      exact hHeld (List.drop_eq_nil_of_le (Nat.not_lt.mp hAll))

end Polycentric.Client

namespace Polycentric.TableInstance

open Client

/-- A codec that reads no cursors. -/
def noCursors : CursorCodec := ⟨fun _ => none, fun _ => none⟩

end Polycentric.TableInstance

namespace Polycentric.Client

open TableInstance

/-- A window of no rows still carries the post that was shown. -/
theorem feed_anchored_shown :
    ∃ shown new, (doFeedMerge postPrimitives noCursors (fun count _ => count)
        (answer [unsignedPost]) 0 [[]] (some []) aliceClient true .createdAt
        (some 0)).eventBundles = shown ++ new ∧
      shown.filterMap (eventDedupKey postPrimitives) =
        (eventDedupKey postPrimitives unsignedPost).toList := by
  have hPrevious : ∀ response, (some []).bind (answer [unsignedPost]) = some response →
      Emitted postPrimitives noCursors (fun count _ => count) (answer [unsignedPost]) response := by
    intro response hResponse
    obtain rfl := Option.some.inj hResponse
    exact ⟨by decide +kernel, 0, [[]], none, aliceClient, true, .createdAt, none, by decide +kernel⟩
  obtain ⟨-, ⟨shown, new, hEmission, hKeys, -⟩, -⟩ :=
    feed_anchored postPrimitives noCursors (fun count _ => count) (answer [unsignedPost]) 0 [[]]
      (some []) aliceClient true .createdAt (some 0) hPrevious
  exact ⟨shown, new, hEmission, hKeys.trans (by decide +kernel)⟩

end Polycentric.Client
