import Mathlib

/-! Maps as lists of entries in strictly ascending key order. There is one such
list for every map, so two of them that answer alike are equal. -/
namespace SortedEntries

variable {Key Value : Type} (cmp : Key → Key → Ordering)

/-- The keys ascend strictly. -/
def Sorted (entries : List (Key × Value)) : Prop := entries.Pairwise fun a b => cmp a.1 b.1 = .lt

/-- Insert an entry, in place of one with the same key. -/
def insertEntry (key : Key) (value : Value) : List (Key × Value) → List (Key × Value)
  | [] => [(key, value)]
  | (k, v) :: rest =>
      match cmp key k with
      | .lt => (key, value) :: (k, v) :: rest
      | .eq => (key, value) :: rest
      | .gt => (k, v) :: insertEntry key value rest

variable {cmp} {entries entries₁ entries₂ : List (Key × Value)} {key : Key} {value : Value}

theorem ne_of_cmp_lt [Std.ReflCmp cmp] {a b : Key} (h : cmp a b = .lt) : a ≠ b := by
  rintro rfl
  have hSelf : cmp a a = .eq := Std.ReflCmp.compare_self
  rw [hSelf] at h
  cases h

theorem mem_insertEntry {entry : Key × Value} (h : entry ∈ insertEntry cmp key value entries) :
    entry = (key, value) ∨ entry ∈ entries := by
  induction entries with
  | nil => exact Or.inl (List.mem_singleton.mp h)
  | cons first rest ih =>
      obtain ⟨k, v⟩ := first
      unfold insertEntry at h
      split at h
      · exact List.mem_cons.mp h
      · rcases List.mem_cons.mp h with hNew | hRest
        · exact Or.inl hNew
        · exact Or.inr (List.mem_cons_of_mem _ hRest)
      · rcases List.mem_cons.mp h with hFirst | hRest
        · exact Or.inr (hFirst ▸ List.mem_cons_self)
        · exact (ih hRest).imp_right (List.mem_cons_of_mem _)

theorem Sorted.insertEntry [Std.TransCmp cmp] [Std.LawfulEqCmp cmp] (h : Sorted cmp entries)
    (key : Key) (value : Value) : Sorted cmp (insertEntry cmp key value entries) := by
  induction entries with
  | nil => exact List.pairwise_singleton _ _
  | cons first rest ih =>
      obtain ⟨k, v⟩ := first
      obtain ⟨hFirst, hRest⟩ := List.pairwise_cons.mp h
      unfold SortedEntries.insertEntry
      split
      · next hLt =>
          refine List.pairwise_cons.mpr ⟨fun entry hEntry => ?_, h⟩
          rcases List.mem_cons.mp hEntry with rfl | hEntry
          · exact hLt
          · exact Std.TransCmp.lt_trans hLt (hFirst entry hEntry)
      · next hEq =>
          obtain rfl := Std.LawfulEqCmp.eq_of_compare hEq
          exact List.pairwise_cons.mpr ⟨hFirst, hRest⟩
      · next hGt =>
          refine List.pairwise_cons.mpr ⟨fun entry hEntry => ?_, ih hRest⟩
          rcases mem_insertEntry hEntry with rfl | hOld
          · exact Std.OrientedCmp.lt_of_gt hGt
          · exact hFirst entry hOld

/-- An entry that the filter drops can be inserted or not, if the filter drops the
one it replaces as well. -/
theorem filter_insertEntry_of_dropped [Std.LawfulEqCmp cmp] {p : Key × Value → Bool}
    (hDropped : p (key, value) = false) (hStored : ∀ v, (key, v) ∈ entries → p (key, v) = false) :
    (insertEntry cmp key value entries).filter p = entries.filter p := by
  induction entries with
  | nil => simp [insertEntry, hDropped]
  | cons first rest ih =>
      obtain ⟨k, v⟩ := first
      unfold insertEntry
      split
      · rw [List.filter_cons_of_neg (by simp [hDropped])]
      · next hEq =>
          obtain rfl := Std.LawfulEqCmp.eq_of_compare hEq
          rw [List.filter_cons_of_neg (by simp [hDropped]),
            List.filter_cons_of_neg (by simp [hStored v List.mem_cons_self])]
      · rw [List.filter_cons, List.filter_cons,
          ih fun w hw => hStored w (List.mem_cons_of_mem _ hw)]

theorem filter_insertEntry [Std.LawfulEqCmp cmp] {p : Key × Value → Bool}
    (h : ∀ value, p (key, value) = false) (value : Value) :
    (insertEntry cmp key value entries).filter p = entries.filter p :=
  filter_insertEntry_of_dropped (h value) fun v _ => h v

theorem Sorted.nodup_keys [Std.ReflCmp cmp] (h : Sorted cmp entries) :
    (entries.map Prod.fst).Nodup := by
  refine List.pairwise_map.mpr (h.imp ?_)
  intro a b hLt
  exact ne_of_cmp_lt hLt

/-- Insert the entries of a list one after the other. -/
def insertAll (cmp : Key → Key → Ordering) (list entries : List (Key × Value)) :
    List (Key × Value) :=
  list.foldl (fun entries entry => insertEntry cmp entry.1 entry.2 entries) entries

theorem Sorted.insertAll [Std.TransCmp cmp] [Std.LawfulEqCmp cmp] (h : Sorted cmp entries)
    (list : List (Key × Value)) : Sorted cmp (insertAll cmp list entries) := by
  induction list generalizing entries with
  | nil => exact h
  | cons entry rest ih => exact ih (h.insertEntry entry.1 entry.2)

section Lookup

variable [DecidableEq Key]

theorem lookup_eq_some_iff_mem (hNodup : (entries.map Prod.fst).Nodup) :
    entries.lookup key = some value ↔ (key, value) ∈ entries := by
  induction entries with
  | nil => simp
  | cons first rest ih =>
      obtain ⟨k, v⟩ := first
      obtain ⟨hFirst, hRest⟩ := List.nodup_cons.mp hNodup
      rw [List.lookup_cons, List.mem_cons]
      by_cases hKey : key = k
      · subst hKey
        have hAbsent : (key, value) ∉ rest := fun hMem => hFirst (List.mem_map.mpr ⟨_, hMem, rfl⟩)
        simp [hAbsent, eq_comm]
      · simp [beq_false_of_ne hKey, hKey, ih hRest]

theorem lookup_insertEntry [Std.TransCmp cmp] [Std.LawfulEqCmp cmp] (key : Key) (value : Value)
    (key' : Key) :
    (insertEntry cmp key value entries).lookup key' =
      if key' = key then some value else entries.lookup key' := by
  induction entries with
  | nil =>
      by_cases hKey : key' = key
      · simp [insertEntry, hKey]
      · simp [insertEntry, hKey]
  | cons first rest ih =>
      obtain ⟨k, v⟩ := first
      unfold insertEntry
      split
      · by_cases hKey : key' = key
        · simp [hKey]
        · simp [hKey, beq_false_of_ne hKey, List.lookup_cons]
      · next hEq =>
          obtain rfl := Std.LawfulEqCmp.eq_of_compare hEq
          by_cases hKey : key' = key
          · simp [hKey]
          · simp [hKey, beq_false_of_ne hKey, List.lookup_cons]
      · next hGt =>
          have hOther : k ≠ key := ne_of_cmp_lt (Std.OrientedCmp.lt_of_gt hGt)
          rw [List.lookup_cons, List.lookup_cons, ih]
          by_cases hFirst : key' = k
          · subst hFirst
            simp [hOther]
          · simp [beq_false_of_ne hFirst]

/-- An entry of a list without repeated keys replaces what was there before. -/
theorem lookup_insertAll [Std.TransCmp cmp] [Std.LawfulEqCmp cmp] {list : List (Key × Value)}
    (hNodup : (list.map Prod.fst).Nodup) (key : Key) :
    (insertAll cmp list entries).lookup key = (list.lookup key).or (entries.lookup key) := by
  induction list generalizing entries with
  | nil => rfl
  | cons entry rest ih =>
      obtain ⟨k, v⟩ := entry
      obtain ⟨hFirst, hRest⟩ := List.nodup_cons.mp hNodup
      rw [SortedEntries.insertAll, List.foldl_cons, ← SortedEntries.insertAll, ih hRest,
        lookup_insertEntry, List.lookup_cons]
      by_cases hKey : key = k
      · have hAbsent : rest.lookup k = none := by
          rw [List.lookup_eq_none_iff]
          intro other hOther
          have hOtherKey : k ≠ other.1 := by
            rintro rfl
            exact hFirst (List.mem_map.mpr ⟨other, hOther, rfl⟩)
          simpa using hOtherKey
        simp [hKey, hAbsent]
      · simp [hKey, beq_false_of_ne hKey]

theorem lookup_eq_some_iff [Std.ReflCmp cmp] (h : Sorted cmp entries) :
    entries.lookup key = some value ↔ (key, value) ∈ entries :=
  lookup_eq_some_iff_mem h.nodup_keys

/-- Sorted maps that answer alike are equal. -/
theorem eq_of_lookup_eq [Std.TransCmp cmp] (h₁ : Sorted cmp entries₁) (h₂ : Sorted cmp entries₂)
    (h : ∀ key, entries₁.lookup key = entries₂.lookup key) : entries₁ = entries₂ := by
  have hNodup : ∀ {entries : List (Key × Value)}, Sorted cmp entries → entries.Nodup := by
    intro entries hSorted
    refine hSorted.imp ?_
    rintro a _ hLt rfl
    exact ne_of_cmp_lt hLt rfl
  have hPerm : entries₁.Perm entries₂ := by
    rw [List.perm_ext_iff_of_nodup (hNodup h₁) (hNodup h₂)]
    rintro ⟨key, value⟩
    rw [← lookup_eq_some_iff h₁, ← lookup_eq_some_iff h₂, h key]
  refine hPerm.eq_of_pairwise ?_ h₁ h₂
  intro a b _ _ hLt hGt
  rw [Std.OrientedCmp.gt_of_lt hLt] at hGt
  cases hGt

/-- A new key adds an entry. -/
theorem perm_insertEntry [Std.LawfulEqCmp cmp]
    (hNew : entries.lookup key = none) (value : Value) :
    (insertEntry cmp key value entries).Perm ((key, value) :: entries) := by
  induction entries with
  | nil => exact List.Perm.refl _
  | cons first rest ih =>
      obtain ⟨k, v⟩ := first
      rw [List.lookup_cons] at hNew
      unfold insertEntry
      cases hCmp : cmp key k with
      | lt => exact List.Perm.refl _
      | eq =>
          rw [Std.LawfulEqCmp.eq_of_compare hCmp, beq_self_eq_true] at hNew
          cases hNew
      | gt =>
          have hNe : key ≠ k := by
            rintro rfl
            have hSelf : cmp key key = .eq := Std.ReflCmp.compare_self
            rw [hSelf] at hCmp
            cases hCmp
          rw [beq_false_of_ne hNe] at hNew
          exact ((ih hNew).cons (k, v)).trans (List.Perm.swap _ _ _)

end Lookup

/-! ### Sorting -/

section Sorting

variable {α : Type} {r : α → α → Prop} [DecidableRel r] [IsTrans α r] [Std.Total r]
  {l l' : List α} {a : α}

/-- Sorting forgets the order if no two different items are tied. -/
theorem insertionSort_eq_of_perm (hPerm : l.Perm l')
    (hAntisymm : ∀ a ∈ l, ∀ b ∈ l, r a b → r b a → a = b) :
    l.insertionSort r = l'.insertionSort r := by
  have hSame : (l.insertionSort r).Perm (l'.insertionSort r) :=
    (List.perm_insertionSort r l).trans (hPerm.trans (List.perm_insertionSort r l').symm)
  refine hSame.eq_of_pairwise ?_ (List.pairwise_insertionSort r l)
    (List.pairwise_insertionSort r l')
  intro a b ha hb
  exact hAntisymm a ((List.mem_insertionSort r).mp ha) b
    (hPerm.mem_iff.mpr ((List.mem_insertionSort r).mp hb))

/-- What comes after all others is sorted to the end. -/
theorem insertionSort_concat (hAntisymm : ∀ a b, r a b → r b a → a = b)
    (hPerm : l'.Perm (a :: l)) (hLast : ∀ b ∈ l, r b a) :
    l'.insertionSort r = l.insertionSort r ++ [a] := by
  have hSame : (l'.insertionSort r).Perm (l.insertionSort r ++ [a]) := by
    refine (List.perm_insertionSort r l').trans (hPerm.trans ?_)
    exact ((List.perm_insertionSort r l).symm.cons a).trans (List.perm_append_singleton a _).symm
  apply hSame.eq_of_pairwise
  · intro a b _ _
    exact hAntisymm a b
  · exact List.pairwise_insertionSort r l'
  · rw [List.pairwise_append]
    refine ⟨List.pairwise_insertionSort r l, List.pairwise_singleton r a, ?_⟩
    intro b hB c hC
    rw [List.mem_insertionSort] at hB
    rw [List.mem_singleton.mp hC]
    exact hLast b hB

end Sorting

/-! ### Sorting by a comparison -/

section Comparison

variable {α β : Type} {cmp : β → β → Ordering} [Std.TransCmp cmp] {f : α → β}

instance isTrans_isLE : IsTrans α fun a b => (cmp (f a) (f b)).isLE = true where
  trans _ _ _ := Std.TransCmp.isLE_trans

instance total_isLE : Std.Total fun a b => (cmp (f a) (f b)).isLE = true where
  total a b := by
    cases hCmp : cmp (f a) (f b) with
    | lt => exact Or.inl rfl
    | eq => exact Or.inl rfl
    | gt =>
        right
        rw [Std.OrientedCmp.lt_of_gt hCmp]
        rfl

/-- In the sorted list all places of an item are before those of another exactly if it is
the lesser one. -/
theorem insertionSort_precedes_iff [Std.LawfulEqCmp cmp] {items : List β} {a b : β}
    (ha : a ∈ items) (hb : b ∈ items) :
    (∀ i j : Nat, (items.insertionSort fun a b => (cmp a b).isLE)[i]? = some a →
      (items.insertionSort fun a b => (cmp a b).isLE)[j]? = some b → i < j) ↔ cmp a b = .lt := by
  have hSorted := List.pairwise_insertionSort (fun a b => (cmp a b).isLE = true) items
  have hLE : ∀ {i j : Nat} {x y : β}, i < j →
      (items.insertionSort fun a b => (cmp a b).isLE)[i]? = some x →
      (items.insertionSort fun a b => (cmp a b).isLE)[j]? = some y → (cmp x y).isLE = true := by
    intro i j x y hLt hx hy
    obtain ⟨hi, rfl⟩ := List.getElem?_eq_some_iff.mp hx
    obtain ⟨hj, rfl⟩ := List.getElem?_eq_some_iff.mp hy
    exact List.pairwise_iff_getElem.mp hSorted i j hi hj hLt
  have hMem : ∀ {x : β}, x ∈ items.insertionSort (fun a b => (cmp a b).isLE = true) ↔ x ∈ items :=
    List.mem_insertionSort _
  constructor
  · intro h
    obtain ⟨i, hi⟩ := List.getElem?_of_mem (hMem.mpr ha)
    obtain ⟨j, hj⟩ := List.getElem?_of_mem (hMem.mpr hb)
    have hOrdered := hLE (h i j hi hj) hi hj
    cases hCmp : cmp a b with
    | lt => rfl
    | eq =>
        rw [Std.LawfulEqCmp.eq_of_compare hCmp] at hi
        rw [Std.LawfulEqCmp.eq_of_compare hCmp] at h
        exact absurd (h i i hi hi) (Nat.lt_irrefl i)
    | gt =>
        rw [hCmp] at hOrdered
        cases hOrdered
  · intro hLt i j hi hj
    by_contra hLater
    rcases Nat.lt_or_eq_of_le (Nat.le_of_not_lt hLater) with hBefore | rfl
    · have hBack := hLE hBefore hj hi
      rw [Std.OrientedCmp.gt_of_lt hLt] at hBack
      cases hBack
    · obtain rfl : a = b := Option.some.inj (hi.symm.trans hj)
      exact ne_of_cmp_lt hLt rfl

end Comparison

end SortedEntries
