import Mathlib

/-! Clocks over a log of writers and numbers. A clock has an entry for each writer
of some set; its sum is compared with the total of the log, the sum of the highest
number of every writer. -/
namespace Clocks

variable {κ : Type} [DecidableEq κ]

/-- The highest number that the writer has used, zero if there is none. -/
def highest (log : List (κ × ℕ)) (writer : κ) : ℕ :=
  (log.toFinset.filter fun entry => entry.1 = writer).sup Prod.snd

/-- The sum of the highest numbers of all writers. -/
def total (log : List (κ × ℕ)) : ℕ :=
  ∑ writer ∈ (log.map Prod.fst).toFinset, highest log writer

variable {log log' : List (κ × ℕ)} {writers : Finset κ} {clock : κ → ℕ}

theorem le_highest {writer : κ} {n : ℕ} (h : (writer, n) ∈ log) : n ≤ highest log writer := by
  have hMem : (writer, n) ∈ log.toFinset.filter fun entry => entry.1 = writer := by simpa using h
  exact Finset.le_sup (f := Prod.snd) hMem

theorem highest_le {writer : κ} {bound : ℕ} (h : ∀ n, (writer, n) ∈ log → n ≤ bound) :
    highest log writer ≤ bound := by
  apply Finset.sup_le
  intro entry hEntry
  simp only [Finset.mem_filter, List.mem_toFinset] at hEntry
  obtain ⟨hMem, rfl⟩ := hEntry
  exact h entry.2 hMem

theorem highest_eq_zero {writer : κ} (h : writer ∉ log.map Prod.fst) : highest log writer = 0 := by
  apply Nat.le_zero.mp
  apply highest_le
  intro n hMem
  exact absurd (List.mem_map.mpr ⟨_, hMem, rfl⟩) h

theorem highest_mono (h : ∀ entry ∈ log, entry ∈ log') (writer : κ) :
    highest log writer ≤ highest log' writer :=
  highest_le fun _ hMem => le_highest (h _ hMem)

/-- A clock that is nowhere ahead of the log sums to no more than the log. -/
theorem sum_le_total (h : ∀ writer ∈ writers, clock writer ≤ highest log writer) :
    ∑ writer ∈ writers, clock writer ≤ total log := by
  calc ∑ writer ∈ writers, clock writer
      ≤ ∑ writer ∈ writers, highest log writer := Finset.sum_le_sum h
    _ ≤ ∑ writer ∈ writers ∪ (log.map Prod.fst).toFinset, highest log writer :=
        Finset.sum_le_sum_of_subset Finset.subset_union_left
    _ = total log := by
        symm
        apply Finset.sum_subset Finset.subset_union_right
        intro writer _ hNot
        exact highest_eq_zero fun hMem => hNot (List.mem_toFinset.mpr hMem)

theorem total_mono (h : ∀ entry ∈ log, entry ∈ log') : total log ≤ total log' :=
  sum_le_total fun writer _ => highest_mono h writer

/-- A clock that lists every writer, is nowhere behind the log and ahead of it for
one writer sums to more than the log. -/
theorem total_lt_sum (hWriters : ∀ entry ∈ log, entry.1 ∈ writers)
    (hSeen : ∀ writer ∈ writers, highest log writer ≤ clock writer) {writer : κ}
    (hWriter : writer ∈ writers) (hNew : highest log writer < clock writer) :
    total log < ∑ writer ∈ writers, clock writer := by
  have hSubset : (log.map Prod.fst).toFinset ⊆ writers := by
    intro other hOther
    obtain ⟨entry, hEntry, rfl⟩ := List.mem_map.mp (List.mem_toFinset.mp hOther)
    exact hWriters entry hEntry
  calc total log
      ≤ ∑ writer ∈ writers, highest log writer := Finset.sum_le_sum_of_subset hSubset
    _ < ∑ writer ∈ writers, clock writer := Finset.sum_lt_sum hSeen ⟨writer, hWriter, hNew⟩

end Clocks
