import Polycentric.Library.Keyset

/-! A loop over the rows of a table in batches, in the order of a key. Every batch starts
after the last key of the one before, and the loop ends when no row is left. -/
namespace Batches

open Keyset

/-! ### One batch -/

section Batch

variable {Row Key : Type} [LinearOrder Key] (place : Row → Key)

/-- The first rows after the mark, at most `limit` of them. -/
def batch (mark : Key) (limit : Nat) (rows : List Row) : List Row :=
  (listing place (following place mark rows)).take limit

variable {place} {mark : Key} {limit : Nat} {rows : List Row} {row last : Row}

theorem mem_batch (h : row ∈ batch place mark limit rows) : row ∈ rows ∧ mark < place row := by
  obtain ⟨hMem, hAfter⟩ := List.mem_filter.mp (mem_listing.mp (List.mem_of_mem_take h))
  exact ⟨hMem, of_decide_eq_true hAfter⟩

/-- A batch has the keys between the mark and its last row. -/
theorem place_mem_batch_iff (hLast : (batch place mark limit rows).getLast? = some last)
    (hRow : row ∈ rows) :
    place row ∈ (batch place mark limit rows).map place ↔ mark < place row ∧ place row ≤ place last := by
  constructor
  · intro hMem
    obtain ⟨other, hOther, hPlace⟩ := List.mem_map.mp hMem
    have hSorted : (batch place mark limit rows).Pairwise fun a b => place a ≤ place b :=
      (listing_weakly _).sublist (List.take_sublist _ _)
    rw [← hPlace]
    exact ⟨(mem_batch hOther).2, place_le_getLast hSorted hLast hOther⟩
  · rintro ⟨hAfter, hLe⟩
    refine place_mem_take (listing_weakly _) hLast (mem_listing.mpr ?_) hLe
    exact List.mem_filter.mpr ⟨hRow, decide_eq_true hAfter⟩

theorem le_of_batch_eq_nil (hLimit : 0 < limit) (h : batch place mark limit rows = [])
    (hRow : row ∈ rows) : place row ≤ mark := by
  by_contra hAfter
  have hMem : row ∈ listing place (following place mark rows) :=
    mem_listing.mpr (List.mem_filter.mpr ⟨hRow, decide_eq_true (lt_of_not_ge hAfter)⟩)
  rcases List.take_eq_nil_iff.mp h with hZero | hNil
  · exact absurd hZero (Nat.ne_of_gt hLimit)
  · rw [hNil] at hMem
    cases hMem

end Batch

/-! ### The loop -/

section Loop

variable {State Mark : Type} (process : Nat → Mark → State → Option (State × Mark))

/-- Process one batch a round, until there is none. -/
def sweep : Nat → Mark → State → Option State
  | 0, _, _ => none
  | rounds + 1, mark, s =>
      match process rounds mark s with
      | none => some s
      | some (s', mark') => sweep rounds mark' s'

variable {process} {Invariant : Mark → State → Prop} {size : State → Nat}

/-- A loop whose batches keep an invariant and use something up ends, and the invariant
holds of the last mark. -/
theorem sweep_spec
    (hProcess : ∀ {round mark s s' mark'}, Invariant mark s → process round mark s = some (s', mark') →
      Invariant mark' s' ∧ size s' < size s)
    {rounds : Nat} {mark : Mark} {s : State} (hStart : Invariant mark s) (hRounds : size s < rounds) :
    ∃ s', sweep process rounds mark s = some s' ∧
      ∃ round mark', Invariant mark' s' ∧ process round mark' s' = none := by
  induction rounds generalizing mark s with
  | zero => exact absurd hRounds (Nat.not_lt_zero _)
  | succ rounds ih =>
      unfold sweep
      cases hNext : process rounds mark s with
      | none => exact ⟨s, rfl, rounds, mark, hStart, hNext⟩
      | some result =>
          obtain ⟨s', mark'⟩ := result
          obtain ⟨hKept, hLess⟩ := hProcess hStart hNext
          exact ih hKept (by omega)

end Loop

end Batches
