import Mathlib

/-! Logs whose entries are numbered from 1 by writers that read the next number, and
whatever else they need, from some earlier state of the log, and that append only if the
number is still free. Nothing else is locked: a number that is free was read from the
whole log. -/
namespace OptimisticAppend

variable {Row : Type} (number : Row → Nat)

/-- One more than the greatest number, 1 without entries. -/
def next (rows : List Row) : Nat :=
  match (rows.map number).max? with
  | some n => n + 1
  | none => 1

/-- The entries are numbered from 1 in their order. -/
def Numbered (rows : List Row) : Prop := rows.map number = List.range' 1 rows.length

/-- Each entry is linked to all entries before it. -/
def Linked (Link : List Row → Row → Prop) (rows : List Row) : Prop :=
  ∀ before row after, rows = before ++ row :: after → Link before row

variable {number} {rows : List Row} {row : Row}

theorem numbered_nil : Numbered number ([] : List Row) := rfl

theorem Numbered.next_eq (h : Numbered number rows) : next number rows = rows.length + 1 := by
  unfold next
  rw [h]
  cases hLength : rows.length with
  | zero => rfl
  | succ n =>
      have hMax : (List.range' 1 (n + 1)).max? = some (n + 1) := by
        rw [List.max?_eq_some_iff]
        refine ⟨by simp, ?_⟩
        intro m hMem
        have := List.mem_range'_1.mp hMem
        omega
      rw [hMax]

/-- An earlier state of the log. -/
theorem Numbered.of_prefix (h : Numbered number rows) {old : List Row} (hOld : old <+: rows) :
    Numbered number old := by
  obtain ⟨rest, rfl⟩ := hOld
  unfold Numbered at h ⊢
  rw [List.map_append, List.length_append, List.range'_append.symm] at h
  exact (List.append_inj h (by simp)).1

theorem Numbered.append (h : Numbered number rows) (hRow : number row = rows.length + 1) :
    Numbered number (rows ++ [row]) := by
  unfold Numbered at h ⊢
  rw [List.map_append, h, List.length_append, List.length_singleton, List.range'_concat]
  simp [hRow, Nat.add_comm]

/-- A number that is free was read from the whole log. -/
theorem Numbered.current_of_free (h : Numbered number rows) {old : List Row} (hOld : old <+: rows)
    (hFree : next number old ∉ rows.map number) : old = rows := by
  rw [(h.of_prefix hOld).next_eq, h, List.mem_range'_1] at hFree
  exact hOld.eq_of_length_le (by omega)

theorem Numbered.number_eq {before after : List Row} (h : Numbered number (before ++ row :: after)) :
    number row = before.length + 1 := by
  have hBefore := h.of_prefix (List.prefix_append before (row :: after))
  have hRead : before ++ [row] <+: before ++ row :: after := ⟨after, by simp⟩
  have hUpTo := h.of_prefix hRead
  unfold Numbered at hBefore hUpTo
  rw [List.map_append, hBefore, List.length_append, List.length_singleton, List.range'_concat] at hUpTo
  simpa [Nat.add_comm] using List.append_cancel_left hUpTo

/-- If the number of an entry was read from an earlier state of the log, then from all that
is before the entry. -/
theorem Numbered.eq_before {before after old : List Row} (h : Numbered number (before ++ row :: after))
    (hOld : old <+: before ++ row :: after) (hNext : number row = next number old) : old = before := by
  rw [h.number_eq, (h.of_prefix hOld).next_eq] at hNext
  obtain ⟨rest, hRest⟩ := hOld
  exact (List.append_inj hRest (by omega)).1

end OptimisticAppend
