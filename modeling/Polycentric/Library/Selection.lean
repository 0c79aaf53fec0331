import Mathlib

/-! Selecting a greatest element of a list under a comparison function, as
iterator libraries do it: on ties the last one wins. The result is a function of
the set of elements as soon as the comparison identifies no two of them. -/
namespace Selection

variable {α : Type*} (cmp : α → α → Ordering)

/-- One comparison of the scan. The newer element replaces an equal best one. -/
def better (best x : α) : α := if cmp best x = .gt then best else x

/-- The last of the greatest elements, `none` for an empty list. -/
def maxBy : List α → Option α
  | [] => none
  | a :: l => some (l.foldl (better cmp) a)

variable {cmp}

theorem better_eq (best x : α) : better cmp best x = best ∨ better cmp best x = x := by
  unfold better
  split
  · exact Or.inl rfl
  · exact Or.inr rfl

theorem maxBy_eq_none_iff {l : List α} : maxBy cmp l = none ↔ l = [] := by
  cases l <;> simp [maxBy]

private theorem foldl_better_mem (l : List α) (a : α) :
    l.foldl (better cmp) a ∈ a :: l := by
  induction l generalizing a with
  | nil => simp
  | cons x l ih =>
      rw [List.foldl_cons]
      rcases @better_eq _ cmp a x with h | h
      · rw [h]
        rcases List.mem_cons.mp (ih a) with hm | hm
        · rw [hm]
          exact List.mem_cons_self
        · exact List.mem_cons_of_mem _ (List.mem_cons_of_mem _ hm)
      · rw [h]
        exact List.mem_cons_of_mem _ (ih x)

theorem maxBy_mem {l : List α} {m : α} (h : maxBy cmp l = some m) : m ∈ l := by
  cases l with
  | nil => simp [maxBy] at h
  | cons a l =>
      simp only [maxBy, Option.some.injEq] at h
      rw [← h]
      exact foldl_better_mem l a

section Order

variable [Std.TransCmp cmp]

private theorem better_ge (best x : α) :
    (cmp best (better cmp best x)).isLE ∧ (cmp x (better cmp best x)).isLE := by
  unfold better
  split
  · next h => exact ⟨by simp [Std.ReflCmp.compare_self], by
      rw [@Std.OrientedCmp.eq_swap _ cmp, h]; rfl⟩
  · next h =>
      refine ⟨?_, by simp [Std.ReflCmp.compare_self]⟩
      cases hc : cmp best x with
      | gt => exact absurd hc h
      | lt => rfl
      | eq => rfl

private theorem foldl_better_ge (l : List α) (a : α) :
    ∀ x ∈ a :: l, (cmp x (l.foldl (better cmp) a)).isLE := by
  induction l generalizing a with
  | nil =>
      intro x hx
      rw [List.mem_singleton.mp hx]
      simp [Std.ReflCmp.compare_self]
  | cons y l ih =>
      have hTop := ih (better cmp a y) _ List.mem_cons_self
      obtain ⟨ha, hy⟩ := @better_ge _ cmp _ a y
      intro x hx
      rw [List.foldl_cons]
      rcases List.mem_cons.mp hx with rfl | hx
      · exact Std.TransCmp.isLE_trans ha hTop
      · rcases List.mem_cons.mp hx with rfl | hx
        · exact Std.TransCmp.isLE_trans hy hTop
        · exact ih (better cmp a y) x (List.mem_cons_of_mem _ hx)

/-- No element of the list compares above the selected one. -/
theorem maxBy_ge {l : List α} {m : α} (h : maxBy cmp l = some m) :
    ∀ x ∈ l, (cmp x m).isLE := by
  cases l with
  | nil => simp [maxBy] at h
  | cons a l =>
      simp only [maxBy, Option.some.injEq] at h
      rw [← h]
      exact foldl_better_ge l a

/-- More elements change nothing if none of them compares above the selected one,
and none but itself ties with it. -/
theorem maxBy_append {l more : List α} {m : α} (h : maxBy cmp l = some m)
    (hLE : ∀ x ∈ more, (cmp x m).isLE) (hApart : ∀ x ∈ more, cmp x m = .eq → x = m) :
    maxBy cmp (l ++ more) = some m := by
  have hStays : more.foldl (better cmp) m = m := by
    induction more with
    | nil => rfl
    | cons x more ih =>
        have hKeeps : better cmp m x = m := by
          unfold better
          split
          · rfl
          · next hNotGt =>
              apply hApart x List.mem_cons_self
              have hBack : (cmp m x).isLE := Ordering.isLE_iff_ne_gt.mpr hNotGt
              exact Std.OrientedCmp.isLE_antisymm (hLE x List.mem_cons_self) hBack
        rw [List.foldl_cons, hKeeps]
        exact ih (fun y hy => hLE y (List.mem_cons_of_mem _ hy))
          (fun y hy => hApart y (List.mem_cons_of_mem _ hy))
  cases l with
  | nil => simp [maxBy] at h
  | cons a l =>
      simp only [maxBy, Option.some.injEq] at h
      rw [List.cons_append, maxBy, List.foldl_append, h, hStays]

/-- Order and multiplicity do not matter when the comparison tells the elements
of the list apart. -/
theorem maxBy_congr {l₁ l₂ : List α} (hSame : ∀ x, x ∈ l₁ ↔ x ∈ l₂)
    (hApart : ∀ x ∈ l₁, ∀ y ∈ l₁, cmp x y = .eq → x = y) :
    maxBy cmp l₁ = maxBy cmp l₂ := by
  cases h₁ : maxBy cmp l₁ with
  | none =>
      have hNil : l₁ = [] := maxBy_eq_none_iff.mp h₁
      subst hNil
      have hNil₂ : l₂ = [] := List.eq_nil_iff_forall_not_mem.mpr fun x hx => by
        simpa using (hSame x).mpr hx
      rw [hNil₂]
      rfl
  | some m₁ =>
      have hm₁ := maxBy_mem h₁
      cases h₂ : maxBy cmp l₂ with
      | none =>
          rw [maxBy_eq_none_iff.mp h₂] at hSame
          simpa using (hSame m₁).mp hm₁
      | some m₂ =>
          have hm₂ := (hSame m₂).mpr (maxBy_mem h₂)
          have hLE := maxBy_ge h₂ m₁ ((hSame m₁).mp hm₁)
          have hGE := maxBy_ge h₁ m₂ hm₂
          rw [hApart m₁ hm₁ m₂ hm₂ (Std.OrientedCmp.isLE_antisymm hLE hGE)]

end Order

/-! ### The first of the greatest -/

section First

variable {γ : Type*} [LinearOrder γ] (f : α → γ)

/-- One comparison of a scan in which the older element stays on ties. -/
def keepFirst (a b : α) : α := if f b ≤ f a then a else b

/-- The element is greater than all before it and no less than those after it. -/
def IsFirstGreatest (l : List α) (m : α) : Prop :=
  ∃ before after, l = before ++ m :: after ∧ (∀ x ∈ before, f x < f m) ∧ ∀ x ∈ after, f x ≤ f m

variable {f} {l : List α} {a b m : α}

theorem keepFirst_assoc (a b c : α) :
    keepFirst f (keepFirst f a b) c = keepFirst f a (keepFirst f b c) := by
  unfold keepFirst
  by_cases hab : f b ≤ f a
  · by_cases hbc : f c ≤ f b
    · simp [hab, hbc, hbc.trans hab]
    · simp [hab, hbc]
  · by_cases hbc : f c ≤ f b
    · simp [hab, hbc]
    · have hac : ¬f c ≤ f a := fun h => hbc (h.trans (not_le.mp hab).le)
      simp [hab, hbc, hac]

theorem IsFirstGreatest.mem (h : IsFirstGreatest f l m) : m ∈ l := by
  obtain ⟨before, after, rfl, -, -⟩ := h
  simp

theorem IsFirstGreatest.ge (h : IsFirstGreatest f l m) : ∀ x ∈ l, f x ≤ f m := by
  obtain ⟨before, after, rfl, hBefore, hAfter⟩ := h
  intro x hx
  rcases List.mem_append.mp hx with hx | hx
  · exact (hBefore x hx).le
  · rcases List.mem_cons.mp hx with rfl | hx
    · exact le_rfl
    · exact hAfter x hx

theorem isFirstGreatest_singleton (a : α) : IsFirstGreatest f [a] a :=
  ⟨[], [], rfl, nofun, nofun⟩

theorem IsFirstGreatest.concat (h : IsFirstGreatest f l m) (x : α) :
    IsFirstGreatest f (l ++ [x]) (keepFirst f m x) := by
  unfold keepFirst
  split
  · next hLe =>
      obtain ⟨before, after, rfl, hBefore, hAfter⟩ := h
      refine ⟨before, after ++ [x], by simp, hBefore, fun y hy => ?_⟩
      rcases List.mem_append.mp hy with hy | hy
      · exact hAfter y hy
      · exact (List.mem_singleton.mp hy) ▸ hLe
  · next hLt =>
      exact ⟨l, [], rfl, fun y hy => (h.ge y hy).trans_lt (not_le.mp hLt), nofun⟩

theorem isFirstGreatest_foldl (a : α) (rest : List α) :
    IsFirstGreatest f (a :: rest) (rest.foldl (keepFirst f) a) := by
  induction rest using List.reverseRecOn with
  | nil => exact isFirstGreatest_singleton a
  | append_singleton rest x ih =>
      rw [List.foldl_concat]
      exact ih.concat x

/-- There is only one first greatest element. -/
theorem IsFirstGreatest.unique (h : IsFirstGreatest f l a) (h' : IsFirstGreatest f l b) : a = b := by
  obtain ⟨before, after, hSplit, hBefore, hAfter⟩ := id h
  obtain ⟨before', after', hSplit', hBefore', hAfter'⟩ := id h'
  have hEq : f a = f b := le_antisymm (h'.ge a h.mem) (h.ge b h'.mem)
  rw [hSplit, List.append_eq_append_iff] at hSplit'
  rcases hSplit' with ⟨between, rfl, hRest⟩ | ⟨between, rfl, hRest⟩
  · cases between with
    | nil => exact (List.cons.inj hRest).1
    | cons x between =>
        obtain ⟨rfl, -⟩ := List.cons.inj hRest
        exact absurd hEq (hBefore' a (by simp)).ne
  · cases between with
    | nil => exact (List.cons.inj hRest).1.symm
    | cons x between =>
        obtain ⟨rfl, -⟩ := List.cons.inj hRest
        exact absurd hEq.symm (hBefore b (by simp)).ne

/-- Functions that order the elements alike have the same first greatest one. -/
theorem IsFirstGreatest.congr {δ : Type*} [LinearOrder δ] {g : α → δ} (h : IsFirstGreatest f l m)
    (hSame : ∀ x ∈ l, ∀ y ∈ l, f x < f y → g x < g y) (hTies : ∀ x ∈ l, ∀ y ∈ l, f x = f y → g x = g y) :
    IsFirstGreatest g l m := by
  have hMem := h.mem
  obtain ⟨before, after, hSplit, hBefore, hAfter⟩ := h
  refine ⟨before, after, hSplit, fun x hx => ?_, fun x hx => ?_⟩
  · exact hSame x (by simp [hSplit, hx]) m hMem (hBefore x hx)
  · have hx' : x ∈ l := by simp [hSplit, hx]
    rcases (hAfter x hx).lt_or_eq with hLt | hEq
    · exact (hSame x hx' m hMem hLt).le
    · exact (hTies x hx' m hMem hEq).le

end First

/-! ### The first greatest of each key -/

section Each

variable {κ : Type*} [DecidableEq κ] (key : α → κ)

/-- The first item of every key that was not seen before. -/
def firstOfEach : List α → List κ → List α
  | [], _ => []
  | a :: rest, seen =>
      if key a ∈ seen then firstOfEach rest seen else a :: firstOfEach rest (key a :: seen)

variable {γ : Type*} [LinearOrder γ] (f : α → γ)

/-- Of every key the item that a stable sort from the greatest one down puts first. -/
def latestOfEach (l : List α) : List α :=
  firstOfEach key (l.insertionSort fun a b => f b ≤ f a) []

variable {key} {f} {l : List α} {p : α → Bool} {a m : α}

theorem filter_firstOfEach (k : κ) (l : List α) (seen : List κ) :
    ((firstOfEach key l seen).filter fun x => key x = k) =
      if k ∈ seen then [] else (l.find? fun x => key x = k).toList := by
  induction l generalizing seen with
  | nil => simp [firstOfEach]
  | cons a rest ih =>
      by_cases hSeen : key a ∈ seen
      · rw [firstOfEach, if_pos hSeen, ih]
        by_cases hKey : key a = k
        · rw [if_pos (hKey ▸ hSeen), if_pos (hKey ▸ hSeen)]
        · rw [List.find?_cons_of_neg (by simpa using hKey)]
      · rw [firstOfEach, if_neg hSeen]
        by_cases hKey : key a = k
        · subst hKey
          rw [List.filter_cons_of_pos (by simp), ih, if_pos List.mem_cons_self, if_neg hSeen,
            List.find?_cons_of_pos (by simp)]
          rfl
        · rw [List.filter_cons_of_neg (by simpa using hKey), ih,
            List.find?_cons_of_neg (by simpa using hKey)]
          simp only [List.mem_cons, Ne.symm hKey, false_or]

theorem firstOfEach_sublist (l : List α) (seen : List κ) : (firstOfEach key l seen).Sublist l := by
  induction l generalizing seen with
  | nil => exact List.Sublist.refl _
  | cons a rest ih =>
      rw [firstOfEach]
      split
      · exact (ih seen).cons a
      · exact (ih _).cons_cons a

theorem latestOfEach_subset : latestOfEach key f l ⊆ l := fun _ hx =>
  (List.mem_insertionSort _).mp ((firstOfEach_sublist _ _).subset hx)

theorem IsFirstGreatest.cons (h : IsFirstGreatest f l m) (a : α) :
    IsFirstGreatest f (a :: l) (keepFirst f a m) := by
  unfold keepFirst
  split
  · next hLe => exact ⟨[], l, rfl, nofun, fun x hx => (h.ge x hx).trans hLe⟩
  · next hLt =>
      obtain ⟨before, after, rfl, hBefore, hAfter⟩ := h
      refine ⟨a :: before, after, rfl, fun x hx => ?_, hAfter⟩
      rcases List.mem_cons.mp hx with rfl | hx
      · exact not_le.mp hLt
      · exact hBefore x hx

/-- An item that is put into a sorted list comes first if it is no less than the first one. -/
theorem find?_orderedInsert (hSorted : l.Pairwise fun a b => f b ≤ f a) (a : α) :
    (l.orderedInsert (fun a b => f b ≤ f a) a).find? p =
      Option.merge (keepFirst f) ([a].find? p) (l.find? p) := by
  induction l with
  | nil => cases hp : p a <;> simp [hp]
  | cons b rest ih =>
      obtain ⟨hFirst, hRest⟩ := List.pairwise_cons.mp hSorted
      by_cases hLe : f b ≤ f a
      · rw [List.orderedInsert_cons, if_pos hLe]
        cases hp : p a with
        | false => simp [hp]
        | true =>
            rw [List.find?_cons_of_pos hp, List.find?_cons_of_pos hp]
            cases hFind : (b :: rest).find? p with
            | none => rfl
            | some m =>
                have hMem := List.mem_of_find?_eq_some hFind
                have hBelow : f m ≤ f a := by
                  rcases List.mem_cons.mp hMem with rfl | hMem
                  · exact hLe
                  · exact (hFirst m hMem).trans hLe
                exact congrArg some (if_pos hBelow).symm
      · rw [List.orderedInsert_cons, if_neg hLe]
        cases hb : p b with
        | false =>
            have hSkip : ∀ rest, (b :: rest).find? p = rest.find? p :=
              fun rest => List.find?_cons_of_neg (by simp [hb])
            rw [hSkip, hSkip, ih hRest]
        | true =>
            rw [List.find?_cons_of_pos hb, List.find?_cons_of_pos hb]
            cases hp : p a with
            | false => simp [hp]
            | true =>
                rw [List.find?_cons_of_pos hp]
                exact congrArg some (if_neg hLe).symm

/-- What a stable sort puts first is the first greatest one. -/
theorem isFirstGreatest_of_find?_insertionSort
    (h : (l.insertionSort fun a b => f b ≤ f a).find? p = some m) :
    IsFirstGreatest f (l.filter p) m := by
  have : IsTrans α fun a b => f b ≤ f a := ⟨fun _ _ _ hab hbc => hbc.trans hab⟩
  have : Std.Total fun a b : α => f b ≤ f a := ⟨fun a b => le_total (f b) (f a)⟩
  induction l generalizing m with
  | nil => cases h
  | cons a rest ih =>
      rw [List.insertionSort_cons, find?_orderedInsert (List.pairwise_insertionSort _ rest)] at h
      cases hFind : (rest.insertionSort fun a b => f b ≤ f a).find? p with
      | none =>
          have hRest : rest.filter p = [] := by
            rw [List.filter_eq_nil_iff]
            intro x hx
            exact List.find?_eq_none.mp hFind x ((List.mem_insertionSort _).mpr hx)
          cases hp : p a with
          | false => simp [hFind, hp] at h
          | true =>
              obtain rfl : a = m := by simpa [hFind, hp] using h
              rw [List.filter_cons_of_pos hp, hRest]
              exact isFirstGreatest_singleton a
      | some b =>
          have hRest := ih hFind
          cases hp : p a with
          | false =>
              obtain rfl : b = m := by simpa [hFind, hp] using h
              rwa [List.filter_cons_of_neg (by simp [hp])]
          | true =>
              obtain rfl : keepFirst f a b = m := by simpa [hFind, hp] using h
              rw [List.filter_cons_of_pos hp]
              exact hRest.cons a

/-- The first greatest item is the first one that no item exceeds. -/
theorem IsFirstGreatest.find?_eq (h : IsFirstGreatest f l m) :
    (l.find? fun x => decide (∀ y ∈ l, f y ≤ f x)) = some m := by
  have hGreatest := h.ge
  obtain ⟨before, after, hSplit, hBefore, hAfter⟩ := h
  refine List.find?_eq_some_iff_append.mpr ⟨by simpa using hGreatest, before, after, hSplit, fun x hx => ?_⟩
  have hLt := hBefore x hx
  simp only [Bool.not_eq_true', decide_eq_false_iff_not]
  exact fun hAll => absurd (hAll m (by simp [hSplit])) (not_le.mpr hLt)

/-- Of each key the first one is kept that no item of the key exceeds. -/
theorem filter_latestOfEach (l : List α) (k : κ) :
    ((latestOfEach key f l).filter fun x => key x = k) =
      (l.find? fun x => key x = k ∧ ∀ y ∈ l, key y = k → f y ≤ f x).toList := by
  rw [latestOfEach, filter_firstOfEach, if_neg List.not_mem_nil]
  congr 1
  cases hFind : (l.insertionSort fun a b => f b ≤ f a).find? fun x => key x = k with
  | none =>
      refine (List.find?_eq_none.mpr fun x hx => ?_).symm
      have hNot := List.find?_eq_none.mp hFind x ((List.mem_insertionSort _).mpr hx)
      simp only [decide_eq_true_eq] at hNot ⊢
      exact fun h => hNot h.1
  | some m =>
      have hFirst := (isFirstGreatest_of_find?_insertionSort hFind).find?_eq
      rw [List.find?_filter] at hFirst
      rw [← hFirst]
      congr 1
      funext x
      simp [List.mem_filter]

end Each

end Selection
