import Polycentric.Library.SortedEntries

/-! Sorting items so that those with an earlier position keep their place. An item may have
a key, the earlier positions are a list of keys with positions, and an item without one
comes after all of them. -/
namespace Anchoring

open SortedEntries

variable {κ α : Type} [DecidableEq κ] (key : α → Option κ)

/-- Where the items with a key are. -/
def positions (items : List α) : List (κ × Nat) :=
  items.zipIdx.filterMap fun (x, n) => (key x).map fun k => (k, n)

/-- For a repeated key the last position counts. -/
def place (anchor : List (κ × Nat)) (bound : Nat) (k : Option κ) : Nat :=
  (k.bind fun k => anchor.reverse.lookup k).getD bound

/-- Whether the item has one of the keys. -/
def isAnchored (anchor : List (κ × Nat)) (x : α) : Bool :=
  (key x).any fun k => k ∈ anchor.map Prod.fst

/-- Every key has one position, in ascending order and before `bound`. -/
structure Ordered (anchor : List (κ × Nat)) (bound : Nat) : Prop where
  nodup : (anchor.map Prod.fst).Nodup
  ascending : anchor.Pairwise fun a b => a.2 < b.2
  bounded : ∀ entry ∈ anchor, entry.2 < bound

variable {key} {anchor : List (κ × Nat)} {bound : Nat} {items l : List α} {k : κ}

/-- A list in which no item with the property follows one without it. -/
theorem filter_append_of_pairwise {p : α → Bool}
    (h : l.Pairwise fun a b => p a = true ∨ p b = false) :
    l.filter p ++ l.filter (fun x => !p x) = l := by
  induction l with
  | nil => rfl
  | cons x rest ih =>
      obtain ⟨hFirst, hRest⟩ := List.pairwise_cons.mp h
      cases hx : p x with
      | true => simp [hx, ih hRest]
      | false =>
          have hNone : ∀ y ∈ rest, p y = false := by simpa [hx] using hFirst
          have hKept : rest.filter p = [] :=
            List.filter_eq_nil_iff.mpr fun y hy => by simp [hNone y hy]
          have hDropped : (rest.filter fun y => !p y) = rest :=
            List.filter_eq_self.mpr fun y hy => by simp [hNone y hy]
          simp [hx, hKept, hDropped]

theorem isAnchored_iff {x : α} :
    isAnchored key anchor x = true ↔ ∃ k ∈ anchor.map Prod.fst, key x = some k := by
  cases hKey : key x with
  | none => simp [isAnchored, hKey]
  | some k => simp [isAnchored, hKey]

/-- Every anchored item has a key. -/
theorem length_filterMap_isAnchored (l : List α) :
    ((l.filter (isAnchored key anchor)).filterMap key).length =
      (l.filter (isAnchored key anchor)).length := by
  induction l with
  | nil => rfl
  | cons x rest ih =>
      cases hKey : key x with
      | none =>
          have hNew : isAnchored key anchor x = false := by simp [isAnchored, hKey]
          simp [hNew, ih]
      | some k =>
          cases hAnchored : isAnchored key anchor x with
          | false => simp [hAnchored, ih]
          | true => simp [hAnchored, hKey, ih]

/-! ### Positions in a list -/

omit [DecidableEq κ] in
theorem positions_map_fst (items : List α) :
    (positions key items).map Prod.fst = items.filterMap key := by
  have hFrom : ∀ (items : List α) (start : Nat), ((items.zipIdx start).filterMap
      fun (x, n) => (key x).map fun k => (k, n)).map Prod.fst = items.filterMap key := by
    intro items
    induction items with
    | nil =>
        intro start
        rfl
    | cons x rest ih =>
        intro start
        cases hKey : key x with
        | none => simp [hKey, ih]
        | some k => simp [hKey, ih]
  exact hFrom items 0

omit [DecidableEq κ] in
theorem mem_positions_lt {entry : κ × Nat} (h : entry ∈ positions key items) :
    entry.2 < items.length := by
  obtain ⟨⟨x, n⟩, hMem, hEntry⟩ := List.mem_filterMap.mp h
  obtain ⟨k, -, rfl⟩ := Option.map_eq_some_iff.mp hEntry
  exact (List.mem_zipIdx_iff_getElem?.mp hMem |> List.getElem?_eq_some_iff.mp).1

omit [DecidableEq κ] in
theorem positions_ascending (items : List α) :
    (positions key items).Pairwise fun a b => a.2 < b.2 := by
  have hIndexes : items.zipIdx.Pairwise fun a b => a.2 < b.2 := by
    rw [← List.pairwise_map (f := Prod.snd), List.zipIdx_map_snd]
    exact List.pairwise_lt_range'
  refine List.Pairwise.filterMap _ ?_ hIndexes
  intro a b hLt x hx y hy
  obtain ⟨_, -, rfl⟩ := Option.map_eq_some_iff.mp hx
  obtain ⟨_, -, rfl⟩ := Option.map_eq_some_iff.mp hy
  exact hLt

omit [DecidableEq κ] in
theorem Ordered.positions (hKeys : (items.filterMap key).Nodup) (hLength : items.length ≤ bound) :
    Ordered (positions key items) bound where
  nodup := by rwa [positions_map_fst]
  ascending := positions_ascending items
  bounded entry hEntry := (mem_positions_lt hEntry).trans_le hLength

/-! ### The place of a key -/

namespace Ordered

variable (h : Ordered anchor bound)
include h

theorem place_eq {n : Nat} (hMem : (k, n) ∈ anchor) : place anchor bound (some k) = n := by
  have hNodup : (anchor.reverse.map Prod.fst).Nodup := by
    rw [List.map_reverse]
    exact List.nodup_reverse.mpr h.nodup
  have hLookup : anchor.reverse.lookup k = some n :=
    (lookup_eq_some_iff_mem hNodup).mpr (List.mem_reverse.mpr hMem)
  simp [place, hLookup]

/-- The keys stand in the order of their places. -/
theorem pairwise_place : (anchor.map Prod.fst).Pairwise fun a b =>
    place anchor bound (some a) < place anchor bound (some b) := by
  rw [List.pairwise_map]
  refine h.ascending.imp_of_mem ?_
  intro a b ha hb hLt
  rwa [h.place_eq ha, h.place_eq hb]

theorem place_inj {k' : κ} (hMem : k ∈ anchor.map Prod.fst) (hMem' : k' ∈ anchor.map Prod.fst)
    (hPlace : place anchor bound (some k) = place anchor bound (some k')) : k = k' := by
  obtain ⟨entry, hEntry, rfl⟩ := List.mem_map.mp hMem
  obtain ⟨entry', hEntry', rfl⟩ := List.mem_map.mp hMem'
  rw [h.place_eq hEntry, h.place_eq hEntry'] at hPlace
  have hPositions : (anchor.map Prod.snd).Nodup :=
    List.pairwise_map.mpr (h.ascending.imp fun hLt => hLt.ne)
  rw [List.inj_on_of_nodup_map hPositions hEntry hEntry' hPlace]

theorem place_lt {x : α} (hAnchored : isAnchored key anchor x = true) :
    place anchor bound (key x) < bound := by
  obtain ⟨k, hMem, hKey⟩ := isAnchored_iff.mp hAnchored
  obtain ⟨⟨k, n⟩, hEntry, rfl⟩ := List.mem_map.mp hMem
  rw [hKey, h.place_eq hEntry]
  exact h.bounded _ hEntry

omit h in
theorem place_of_not_anchored {x : α} (hAnchored : isAnchored key anchor x = false) :
    place anchor bound (key x) = bound := by
  cases hKey : key x with
  | none => rfl
  | some k =>
      rw [isAnchored, hKey, Option.any_some, decide_eq_false_iff_not] at hAnchored
      have hLookup : anchor.reverse.lookup k = none := by
        rw [List.lookup_eq_none_iff]
        rintro ⟨k', n⟩ hEntry
        rw [bne_iff_ne]
        rintro rfl
        exact hAnchored (List.mem_map.mpr ⟨_, List.mem_reverse.mp hEntry, rfl⟩)
      simp [place, hLookup]

/-! ### Sorted by place -/

/-- Items in the order of their places start with the anchored ones. -/
theorem filter_append (hSorted : l.Pairwise fun a b =>
      place anchor bound (key a) ≤ place anchor bound (key b)) :
    l.filter (isAnchored key anchor) ++ l.filter (fun x => !isAnchored key anchor x) = l := by
  refine filter_append_of_pairwise (hSorted.imp ?_)
  intro a b hLe
  cases hFirst : isAnchored key anchor a with
  | true => exact Or.inl rfl
  | false =>
      right
      by_contra hSecond
      rw [place_of_not_anchored hFirst] at hLe
      exact absurd (h.place_lt (Bool.eq_true_of_not_eq_false hSecond)) (Nat.not_lt.mpr hLe)

/-- The anchored items have the order of the keys they are anchored by. -/
theorem filterMap_filter (hSorted : l.Pairwise fun a b =>
      place anchor bound (key a) ≤ place anchor bound (key b))
    (hKeys : (l.filterMap key).Nodup) :
    (l.filter (isAnchored key anchor)).filterMap key =
      (anchor.map Prod.fst).filter fun k => k ∈ l.filterMap key := by
  have hSub : ((l.filter (isAnchored key anchor)).filterMap key).Sublist (l.filterMap key) :=
    List.filter_sublist.filterMap key
  have hSame : ((l.filter (isAnchored key anchor)).filterMap key).Perm
      ((anchor.map Prod.fst).filter fun k => k ∈ l.filterMap key) := by
    rw [List.perm_ext_iff_of_nodup (hKeys.sublist hSub) (h.nodup.filter _)]
    intro k
    rw [List.mem_filter, decide_eq_true_iff, List.mem_filterMap, List.mem_filterMap]
    constructor
    · rintro ⟨x, hx, hKey⟩
      obtain ⟨hMem, hAnchored⟩ := List.mem_filter.mp hx
      obtain ⟨k', hAnchor, hKey'⟩ := isAnchored_iff.mp hAnchored
      obtain rfl : k = k' := Option.some.inj (hKey.symm.trans hKey')
      exact ⟨hAnchor, x, hMem, hKey⟩
    · rintro ⟨hAnchored, x, hMem, hKey⟩
      exact ⟨x, List.mem_filter.mpr ⟨hMem, isAnchored_iff.mpr ⟨k, hAnchored, hKey⟩⟩, hKey⟩
  have hPlaces : ((anchor.map Prod.fst).filter fun k => k ∈ l.filterMap key).Pairwise fun a b =>
      place anchor bound (some a) < place anchor bound (some b) :=
    h.pairwise_place.filter _
  refine hSame.eq_of_pairwise ?_ ?_ (hPlaces.imp fun hLt => hLt.le)
  · intro a b ha hb hFirst hSecond
    exact h.place_inj (List.mem_filter.mp (hSame.mem_iff.mp ha)).1 (List.mem_filter.mp hb).1
      (hFirst.antisymm hSecond)
  · refine List.Pairwise.filterMap key ?_ (hSorted.filter _)
    intro a b hLe x hx y hy
    rwa [hx, hy] at hLe

end Ordered

end Anchoring
