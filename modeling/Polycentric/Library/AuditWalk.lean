import Mathlib

/-! The route between a leaf and the root of a binary tree whose left subtree has
the largest power of two of leaves below the size. Descending from the root, the
route is a recursion on the size; ascending from the leaf, it is a loop over the
binary digits of the index and of the last index. Both are the same route. -/
namespace AuditWalk

/-- On which side of the route a sibling stands. -/
inductive Side where
  | left
  | right
  deriving DecidableEq, Repr

/-- The size of the left subtree: the largest power of two below `n`, for `n ≥ 2`. -/
def split (n : Nat) : Nat := 2 ^ Nat.log 2 (n - 1)

theorem split_pos (n : Nat) : 0 < split n := Nat.two_pow_pos _

/-- Both sides of a tree have leaves. -/
theorem split_lt {n : Nat} (h : 2 ≤ n) : split n < n := by
  have := Nat.pow_log_le_self 2 (x := n - 1) (by omega)
  unfold split
  omega

theorem le_two_mul_split (n : Nat) : n ≤ 2 * split n := by
  have := Nat.lt_pow_succ_log_self (b := 2) (by omega) (n - 1)
  rw [Nat.pow_succ] at this
  unfold split
  omega

/-- The siblings of the leaf `i` among `n`, in the order from the leaf to the root. -/
def directions (i n : Nat) : List Side :=
  if n ≤ 1 then []
  else if i < split n then directions i (split n) ++ [.right]
  else directions (i - split n) (n - split n) ++ [.left]
termination_by n
decreasing_by
  · exact split_lt (by omega)
  · have := split_pos n
    omega

@[simp] theorem directions_one (i : Nat) : directions i 1 = [] := by
  rw [directions, if_pos le_rfl]

/-- A leaf on the left has its sibling on the right at the last step. -/
theorem directions_left {i n : Nat} (h : 2 ≤ n) (hi : i < split n) :
    directions i n = directions i (split n) ++ [.right] := by
  rw [directions, if_neg (by omega), if_pos hi]

/-- A leaf on the right has its sibling on the left at the last step. -/
theorem directions_right {i n : Nat} (h : 2 ≤ n) (hi : split n ≤ i) :
    directions i n = directions (i - split n) (n - split n) ++ [.left] := by
  rw [directions, if_neg (by omega), if_neg (by omega)]

/-- Induction along the descent to a position of a list: one element, or a
position in the left or in the right part of the split. -/
theorem descent_induction {α : Type*} {motive : (l : List α) → (i : Nat) → i < l.length → Prop}
    (single : ∀ a, motive [a] 0 (by simp))
    (left : ∀ l i h (h' : i < (l.take (split l.length)).length), 2 ≤ l.length →
      i < split l.length → motive (l.take (split l.length)) i h' → motive l i h)
    (right : ∀ l i h (h' : i - split l.length < (l.drop (split l.length)).length),
      2 ≤ l.length → split l.length ≤ i →
      motive (l.drop (split l.length)) (i - split l.length) h' → motive l i h)
    (l : List α) (i : Nat) (h : i < l.length) : motive l i h := by
  induction hn : l.length using Nat.strong_induction_on generalizing l i with
  | h n ih =>
      by_cases hOne : l.length ≤ 1
      · obtain ⟨a, rfl⟩ := List.length_eq_one_iff.mp (by omega : l.length = 1)
        obtain rfl : i = 0 := by simpa using h
        exact single a
      · have hPos := split_pos l.length
        have hLt := split_lt (by omega : 2 ≤ l.length)
        by_cases hLeft : i < split l.length
        · have h' : i < (l.take (split l.length)).length := by simp; omega
          exact left l i h h' (by omega) hLeft
            (ih (split l.length) (by omega) _ i h' (by simp; omega))
        · have h' : i - split l.length < (l.drop (split l.length)).length := by simp; omega
          exact right l i h h' (by omega) (by omega)
            (ih (l.length - split l.length) (by omega) _ _ h' (by simp))

/-! ### The ascending loop -/

/-- Halve both numbers while the first is even and the second is not 0. -/
def strip (fn sn : Nat) : Nat × Nat :=
  if fn % 2 = 0 ∧ sn ≠ 0 then strip (fn / 2) (sn / 2) else (fn, sn)
termination_by sn

def siblingSide (fn sn : Nat) : Side := if fn % 2 = 1 ∨ fn = sn then .left else .right

/-- The state after one sibling. At the right edge of the tree the levels without
a sibling are skipped. -/
def ascend (fn sn : Nat) : Nat × Nat :=
  let skipped := if fn % 2 = 0 ∧ fn = sn then strip fn sn else (fn, sn)
  (skipped.1 / 2, skipped.2 / 2)

theorem strip_snd_le (fn sn : Nat) : (strip fn sn).2 ≤ sn := by
  induction fn, sn using strip.induct with
  | case1 fn sn h ih =>
      rw [strip, if_pos h]
      omega
  | case2 fn sn h => rw [strip, if_neg h]

/-- Every step brings the walk nearer to the root. -/
theorem ascend_snd_lt {fn sn : Nat} (h : sn ≠ 0) : (ascend fn sn).2 < sn := by
  unfold ascend
  split
  · have := strip_snd_le fn sn
    simp only
    omega
  · simp only
    omega

/-- The sides met by the loop from the state `(fn, sn)` on. -/
def walk (fn sn : Nat) : List Side :=
  if sn = 0 then [] else siblingSide fn sn :: walk (ascend fn sn).1 (ascend fn sn).2
termination_by sn
decreasing_by exact ascend_snd_lt (by assumption)

@[simp] theorem walk_zero (fn : Nat) : walk fn 0 = [] := by simp [walk]

theorem walk_of_ne_zero {fn sn : Nat} (h : sn ≠ 0) :
    walk fn sn = siblingSide fn sn :: walk (ascend fn sn).1 (ascend fn sn).2 := by
  rw [walk, if_neg h]

/-- Away from the right edge a step halves both numbers. -/
theorem ascend_of_not_edge {fn sn : Nat} (h : fn % 2 = 1 ∨ fn ≠ sn) :
    ascend fn sn = (fn / 2, sn / 2) := by
  unfold ascend
  rw [if_neg (by omega)]

/-- At the right edge the levels of trailing zeros are skipped in one step. -/
theorem walk_double (x : Nat) : walk (2 * x) (2 * x) = walk x x := by
  by_cases hx : x = 0
  · simp [hx]
  · have hStrip : strip (2 * x) (2 * x) = strip x x := by
      rw [strip, if_pos (by omega)]
      simp
    have hAscend : ascend (2 * x) (2 * x) = ascend x x := by
      unfold ascend
      rw [if_pos (by omega), hStrip]
      by_cases hOdd : x % 2 = 0
      · rw [if_pos (by omega)]
      · rw [if_neg (by omega), strip, if_neg (by omega)]
    rw [walk_of_ne_zero (by omega), walk_of_ne_zero hx, hAscend]
    simp [siblingSide]

/-- In the left subtree the walk is the walk in that subtree alone, and the last
sibling is the right subtree. -/
theorem walk_left (h : Nat) {i m : Nat} (hi : i < 2 ^ h) (hLow : 2 ^ h ≤ m)
    (hHigh : m < 2 ^ (h + 1)) : walk i m = walk i (2 ^ h - 1) ++ [.right] := by
  induction h generalizing i m with
  | zero =>
      obtain rfl : i = 0 := by omega
      obtain rfl : m = 1 := by omega
      simp [walk_of_ne_zero, siblingSide, ascend]
  | succ h ih =>
      have hPow : 2 ^ (h + 1) = 2 * 2 ^ h := by rw [Nat.pow_succ]; omega
      have hPow' : 2 ^ (h + 1 + 1) = 2 * 2 ^ (h + 1) := by rw [Nat.pow_succ]; omega
      have hPos : 0 < 2 ^ h := Nat.two_pow_pos h
      have hSide : siblingSide i m = siblingSide i (2 ^ (h + 1) - 1) := by
        unfold siblingSide
        by_cases hOdd : i % 2 = 1
        · simp [hOdd]
        · rw [if_neg (by omega), if_neg (by omega)]
      rw [walk_of_ne_zero (by omega : m ≠ 0), walk_of_ne_zero (by omega : 2 ^ (h + 1) - 1 ≠ 0),
        ascend_of_not_edge (by omega), ascend_of_not_edge (by omega), hSide]
      have hHalf : (2 ^ (h + 1) - 1) / 2 = 2 ^ h - 1 := by omega
      rw [hHalf, ih (by omega) (by omega) (by omega), List.cons_append]

/-- In the right subtree the walk is the walk in that subtree alone, and the last
sibling is the left subtree. -/
theorem walk_right (h : Nat) {i m : Nat} (hi : i ≤ m) (hm : m < 2 ^ h) :
    walk (2 ^ h + i) (2 ^ h + m) = walk i m ++ [.left] := by
  induction h generalizing i m with
  | zero =>
      obtain rfl : m = 0 := by omega
      obtain rfl : i = 0 := by omega
      simp [walk_of_ne_zero, siblingSide, ascend]
  | succ h ih =>
      have hPow : 2 ^ (h + 1) = 2 * 2 ^ h := by rw [Nat.pow_succ]; omega
      have hPos : 0 < 2 ^ h := Nat.two_pow_pos h
      by_cases hEdge : i % 2 = 0 ∧ i = m
      · -- Both walks skip the same trailing zero.
        obtain ⟨hEven, rfl⟩ := hEdge
        have hi₂ : i = 2 * (i / 2) := by omega
        have hSum : 2 ^ (h + 1) + i = 2 * (2 ^ h + i / 2) := by omega
        rw [hSum, walk_double, ih le_rfl (by omega), ← walk_double, ← hi₂]
      · have hSide : siblingSide (2 ^ (h + 1) + i) (2 ^ (h + 1) + m) = siblingSide i m := by
          unfold siblingSide
          by_cases hOdd : i % 2 = 1
          · rw [if_pos (by omega), if_pos (by omega)]
          · rw [if_neg (by omega), if_neg (by omega)]
        have hHalfI : (2 ^ (h + 1) + i) / 2 = 2 ^ h + i / 2 := by omega
        have hHalfM : (2 ^ (h + 1) + m) / 2 = 2 ^ h + m / 2 := by omega
        rw [walk_of_ne_zero (by omega : 2 ^ (h + 1) + m ≠ 0), walk_of_ne_zero (by omega : m ≠ 0),
          ascend_of_not_edge (by omega), ascend_of_not_edge (by omega), hSide, hHalfI, hHalfM,
          ih (by omega) (by omega), List.cons_append]

/-- The loop over the digits meets the siblings of the recursive descent. -/
theorem walk_eq_directions {i n : Nat} (h : i < n) : walk i (n - 1) = directions i n := by
  induction n using Nat.strong_induction_on generalizing i with
  | h n ih =>
      by_cases hOne : n ≤ 1
      · obtain rfl : n = 1 := by omega
        simp
      · have hPos := split_pos n
        have hLt := split_lt (by omega : 2 ≤ n)
        have hLe := le_two_mul_split n
        by_cases hLeft : i < split n
        · rw [directions_left (by omega) hLeft, ← ih (split n) hLt hLeft]
          exact walk_left _ hLeft (by rw [← split]; omega) (by rw [Nat.pow_succ, ← split]; omega)
        · rw [directions_right (by omega) (by omega), ← ih (n - split n) (by omega) (by omega)]
          have hRight := walk_right (Nat.log 2 (n - 1)) (i := i - split n) (m := n - split n - 1)
            (by omega) (by rw [← split]; omega)
          rw [← split] at hRight
          rw [← hRight]
          congr 1 <;> omega

/-! ### Folding a path along the route -/

variable {H : Type*} (node : H → H → H)

/-- Combine the value so far with a sibling. -/
def combine (value : H) (step : Side × H) : H :=
  match step.1 with
  | .left => node step.2 value
  | .right => node value step.2

/-- The value at the root of the route. -/
def recompute (value : H) (steps : List (Side × H)) : H := steps.foldl (combine node) value

@[simp] theorem recompute_nil (value : H) : recompute node value [] = value := rfl

@[simp] theorem recompute_cons (value : H) (step : Side × H) (steps : List (Side × H)) :
    recompute node value (step :: steps) = recompute node (combine node value step) steps := rfl

/-- The last step is combined last. -/
@[simp] theorem recompute_concat (value : H) (steps : List (Side × H)) (step : Side × H) :
    recompute node value (steps ++ [step]) = combine node (recompute node value steps) step := by
  simp [recompute]

end AuditWalk
