import Mathlib

/-! A counter that does not go below zero. It ends above what its moves add up to by as
much as the moves down ever exceeded the moves up. -/
namespace FlooredCounter

variable {α : Type*} (up down : α → Bool)

def move (n : Nat) (a : α) : Nat := if up a then n + 1 else if down a then n - 1 else n

def level (moves : List α) : Nat := moves.foldl (move up down) 0

/-- By how much the moves down exceed the moves up. -/
def excess (moves : List α) : Int := moves.countP down - moves.countP up

/-- The greatest excess that was reached on the way. -/
def GreatestExcess (moves : List α) (greatest : Int) : Prop :=
  (∃ done, done <+: moves ∧ excess up down done = greatest) ∧
    ∀ done, done <+: moves → excess up down done ≤ greatest

variable {up down} {moves : List α} {greatest greatest' : Int}

theorem GreatestExcess.unique (h : GreatestExcess up down moves greatest)
    (h' : GreatestExcess up down moves greatest') : greatest = greatest' := by
  obtain ⟨⟨done, hDone, rfl⟩, hLe⟩ := h
  obtain ⟨⟨done', hDone', rfl⟩, hLe'⟩ := h'
  exact le_antisymm (hLe' done hDone) (hLe done' hDone')

theorem GreatestExcess.concat (h : GreatestExcess up down moves greatest) (a : α) :
    GreatestExcess up down (moves ++ [a]) (max greatest (excess up down (moves ++ [a]))) := by
  obtain ⟨⟨done, hDone, hEq⟩, hLe⟩ := h
  constructor
  · rcases le_total (excess up down (moves ++ [a])) greatest with hBelow | hAbove
    · rw [max_eq_left hBelow]
      exact ⟨done, hDone.trans (List.prefix_append _ _), hEq⟩
    · rw [max_eq_right hAbove]
      exact ⟨_, List.prefix_refl _, rfl⟩
  · intro done' hDone'
    rcases List.prefix_concat_iff.mp hDone' with rfl | hEarlier
    · exact le_max_right _ _
    · exact (hLe done' hEarlier).trans (le_max_left _ _)

theorem excess_concat (moves : List α) (a : α) :
    excess up down (moves ++ [a]) =
      excess up down moves + (if down a then 1 else 0) - if up a then 1 else 0 := by
  unfold excess
  rw [List.countP_append, List.countP_append, List.countP_singleton, List.countP_singleton]
  split <;> split <;> push_cast <;> omega

/-- The level exceeds the sum of the moves by the greatest excess. -/
theorem greatestExcess_level (hDisjoint : ∀ a, up a = true → down a = false) (moves : List α) :
    GreatestExcess up down moves (level up down moves + excess up down moves) := by
  induction moves using List.reverseRecOn with
  | nil =>
      refine ⟨⟨[], List.prefix_refl _, rfl⟩, fun done hDone => ?_⟩
      rw [List.prefix_nil.mp hDone]
      exact le_rfl
  | append_singleton moves a ih =>
      have hNext := ih.concat a
      have hLevel : level up down (moves ++ [a]) = move up down (level up down moves) a := List.foldl_concat ..
      convert hNext using 1
      rw [hLevel, excess_concat, move]
      cases hUp : up a with
      | true =>
          rw [hDisjoint a hUp]
          simp only [if_true, Bool.false_eq_true, if_false]
          omega
      | false =>
          cases hDown : down a with
          | true =>
              simp only [Bool.false_eq_true, if_false, if_true]
              omega
          | false =>
              simp only [Bool.false_eq_true, if_false]
              omega

/-- The level is right if and only if no more moves down were lost than there are too many. -/
theorem level_eq_iff (hDisjoint : ∀ a, up a = true → down a = false) {n : Int} :
    (level up down moves : Int) = n ↔ GreatestExcess up down moves (n + excess up down moves) := by
  constructor
  · rintro rfl
    exact greatestExcess_level hDisjoint moves
  · intro h
    exact add_right_cancel (h.unique (greatestExcess_level hDisjoint moves)).symm

end FlooredCounter
