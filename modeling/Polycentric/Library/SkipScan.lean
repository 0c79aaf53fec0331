import Mathlib

/-! A loose scan of a sorted list: one item of every group is looked at, and the rest of
the group is skipped. -/
namespace SkipScan

variable {α : Type}

/-- The items that the loop stops at, from a first one on. It goes on to the next item
as long as it is inside, and may run out of fuel. -/
def visited (next : α → Option α) (inside : α → Bool) : Nat → Option α → Option (List α)
  | 0, _ => none
  | _ + 1, none => some []
  | fuel + 1, some a =>
      if inside a then (visited next inside fuel (next a)).map (a :: ·) else some []

section Visited

variable {next : α → Option α} {inside : α → Bool} {beyond : α → α → Bool} {before : α → α → Prop}

/-- A list in which the next item is the first one beyond the group of an item, and all
that is inside comes first. -/
structure Grouped (next : α → Option α) (inside : α → Bool) (beyond : α → α → Bool)
    (before : α → α → Prop) (items : List α) : Prop where
  next : ∀ a rest, (a :: rest) <:+ items → next a = rest.find? (beyond a)
  self : ∀ a ∈ items, beyond a a = false
  inside : items.Pairwise fun a b => inside b = true → inside a = true
  before : items.Pairwise before

theorem Grouped.suffix {items rest : List α} (h : Grouped next inside beyond before items)
    (hRest : rest <:+ items) : Grouped next inside beyond before rest where
  next a tail hTail := h.next a tail (hTail.trans hRest)
  self a hMem := h.self a (hRest.subset hMem)
  inside := h.inside.sublist hRest.sublist
  before := h.before.sublist hRest.sublist

/-- The scan ends, and visits an item of the group of every item that is inside. -/
theorem visited_spec {items : List α} (h : Grouped next inside beyond before items) {fuel : Nat}
    (hFuel : items.length < fuel) :
    ∃ found, visited next inside fuel items.head? = some found ∧
      (∀ a ∈ found, a ∈ items ∧ inside a = true) ∧
      ∀ a ∈ items, inside a = true → ∃ b ∈ found, (b = a ∨ before b a) ∧ beyond b a = false := by
  induction fuel generalizing items with
  | zero => omega
  | succ fuel ih =>
      cases items with
      | nil => exact ⟨[], rfl, by simp, by simp⟩
      | cons a rest =>
          obtain ⟨hInside, -⟩ := List.pairwise_cons.mp h.inside
          obtain ⟨hBefore, -⟩ := List.pairwise_cons.mp h.before
          rw [List.head?_cons, visited]
          by_cases ha : inside a = true
          · let later := rest.dropWhile fun b => !beyond a b
            have hLater : later <:+ rest := List.dropWhile_suffix _
            have hNext : next a = later.head? := by
              rw [h.next a rest List.suffix_rfl, List.find?_eq_head?_dropWhile_not]
            have hLength : later.length < fuel := by
              have hLe := hLater.length_le
              rw [List.length_cons] at hFuel
              omega
            obtain ⟨found, hFound, hSound, hAll⟩ :=
              ih (h.suffix (hLater.trans (List.suffix_cons a rest))) hLength
            refine ⟨a :: found, by rw [if_pos ha, hNext, hFound]; rfl, fun b hMem => ?_, fun b hMem hb => ?_⟩
            · rcases List.mem_cons.mp hMem with rfl | hMem
              · exact ⟨List.mem_cons_self, ha⟩
              · exact ⟨List.mem_cons_of_mem _ (hLater.subset (hSound b hMem).1), (hSound b hMem).2⟩
            · rcases List.mem_cons.mp hMem with rfl | hMem
              · exact ⟨b, List.mem_cons_self, .inl rfl, h.self b List.mem_cons_self⟩
              · have hSplit : b ∈ rest.takeWhile (fun c => !beyond a c) ++ later := by
                  rwa [List.takeWhile_append_dropWhile]
                rcases List.mem_append.mp hSplit with hSkipped | hKept
                · have hGroup := List.mem_takeWhile_imp hSkipped
                  exact ⟨a, List.mem_cons_self, .inr (hBefore b hMem), by simpa using hGroup⟩
                · obtain ⟨c, hc, hOrder, hGroup⟩ := hAll b hKept hb
                  exact ⟨c, List.mem_cons_of_mem _ hc, hOrder, hGroup⟩
          · refine ⟨[], if_neg ha, by simp, fun b hMem hb => ?_⟩
            rcases List.mem_cons.mp hMem with rfl | hMem
            · exact absurd hb ha
            · exact absurd (hInside b hMem hb) ha

/-- More fuel does not change where the scan stops. -/
theorem visited_mono {fuel fuel' : Nat} {cur : Option α} {found : List α}
    (h : visited next inside fuel cur = some found) (hLe : fuel ≤ fuel') :
    visited next inside fuel' cur = some found := by
  induction fuel generalizing fuel' cur found with
  | zero => cases h
  | succ fuel ih =>
      cases fuel' with
      | zero => omega
      | succ fuel' =>
          cases cur with
          | none => exact h
          | some a =>
              rw [visited] at h ⊢
              by_cases ha : inside a = true
              · rw [if_pos ha, Option.map_eq_some_iff] at h
                obtain ⟨rest, hRest, rfl⟩ := h
                rw [if_pos ha, ih hRest (Nat.le_of_succ_le_succ hLe)]
                rfl
              · rw [if_neg ha] at h ⊢
                exact h

end Visited

end SkipScan
