import Polycentric.Library.Runs

/-! Ranges of an ordered map, and the iterators over them. A range is asked for by two
bounds, and an iterator gives its items from either end. -/
namespace OrderedRange

open Runs

/-- A bound of a range. -/
inductive Bound (Key : Type) where
  | unbounded
  | included (key : Key)
  | excluded (key : Key)

variable {Key α : Type} (cmp : Key → Key → Ordering)

/-- Whether a key is above the bound. -/
def Bound.isBelow (key : Key) : Bound Key → Bool
  | unbounded => true
  | included lower => cmp lower key != .gt
  | excluded lower => cmp lower key == .lt

/-- Whether a key is below the bound. -/
def Bound.isAbove (key : Key) : Bound Key → Bool
  | unbounded => true
  | included upper => cmp key upper != .gt
  | excluded upper => cmp key upper == .lt

/-- A range may not end before it starts, nor leave out the one key that it has. -/
def inOrder : Bound Key → Bound Key → Bool
  | .excluded lower, .excluded upper => cmp lower upper == .lt
  | .included lower, .included upper => cmp lower upper != .gt
  | .included lower, .excluded upper => cmp lower upper != .gt
  | .excluded lower, .included upper => cmp lower upper != .gt
  | _, _ => true

/-- The entries between two bounds, none if the bounds are not in order. -/
def range (entries : List (Key × α)) (lower upper : Bound Key) : Option (List (Key × α)) :=
  if inOrder cmp lower upper then
    some (entries.filter fun entry => lower.isBelow cmp entry.1 && upper.isAbove cmp entry.1)
  else none

variable {cmp} {entries : List (Key × α)}

theorem range_of_inOrder {lower upper : Bound Key} (h : inOrder cmp lower upper = true) :
    range cmp entries lower upper =
      some (entries.filter fun entry => lower.isBelow cmp entry.1 && upper.isAbove cmp entry.1) :=
  if_pos h

theorem range_from (lower : Bound Key) :
    range cmp entries lower .unbounded = some (entries.filter fun entry => lower.isBelow cmp entry.1) := by
  have hOrder : inOrder cmp lower .unbounded = true := by cases lower <;> rfl
  rw [range_of_inOrder hOrder]
  congr 2
  funext entry
  exact Bool.and_true _

/-! ### Iterators -/

inductive Side where
  | front
  | back

/-- What an iterator gave from either end, and what it has left. -/
structure Drawn (α : Type) where
  front : List α
  left : List α
  back : List α

/-- The next item from one end, if any is left. -/
def Drawn.next (drawn : Drawn α) (side : Side) : Drawn α :=
  match side with
  | .front =>
      match drawn.left with
      | [] => drawn
      | a :: rest => ⟨drawn.front ++ [a], rest, drawn.back⟩
  | .back =>
      match drawn.left.getLast? with
      | none => drawn
      | some a => ⟨drawn.front, drawn.left.dropLast, drawn.back ++ [a]⟩

/-- The iterator after calls for items, in any order of the ends. -/
def draw (items : List α) (sides : List Side) : Drawn α := run Drawn.next ⟨[], items, []⟩ sides

/-- The items that are iterated, in order. -/
def Drawn.all (drawn : Drawn α) : List α := drawn.front ++ drawn.left ++ drawn.back.reverse

/-- A call passes an item on from the middle to its end. -/
theorem Drawn.all_next (drawn : Drawn α) (side : Side) : (drawn.next side).all = drawn.all := by
  obtain ⟨front, left, back⟩ := drawn
  cases side with
  | front =>
      cases left with
      | nil => rfl
      | cons a rest => simp [Drawn.next, Drawn.all]
  | back =>
      induction left using List.reverseRecOn with
      | nil => rfl
      | append_singleton rest a _ => simp [Drawn.next, Drawn.all]

theorem Drawn.length_next (drawn : Drawn α) (side : Side) :
    (drawn.next side).left.length = drawn.left.length - 1 := by
  obtain ⟨front, left, back⟩ := drawn
  cases side with
  | front => cases left <;> rfl
  | back =>
      induction left using List.reverseRecOn with
      | nil => rfl
      | append_singleton rest a _ => simp [Drawn.next]

theorem draw_append (items : List α) (sides : List Side) (side : Side) :
    draw items (sides ++ [side]) = (draw items sides).next side :=
  List.foldl_concat ..

/-- No item is lost, and none is given twice. -/
theorem all_draw (items : List α) (sides : List Side) : (draw items sides).all = items := by
  induction sides using List.reverseRecOn with
  | nil => exact List.append_nil items
  | append_singleton sides side ih => rw [draw_append, Drawn.all_next, ih]

/-- From the front alone the items come in order. -/
theorem draw_front (items : List α) (n : Nat) :
    draw items (List.replicate n .front) = ⟨items.take n, items.drop n, []⟩ := by
  induction n with
  | zero => rfl
  | succ n ih =>
      rw [List.replicate_succ', draw_append, ih, List.take_add_one, ← List.head?_drop, ← List.tail_drop]
      cases items.drop n with
      | nil => simp [Drawn.next]
      | cons a rest => rfl

/-- From the back alone they come in the opposite order. -/
theorem draw_back (items : List α) (n : Nat) :
    draw items (List.replicate n .back) =
      ⟨[], (items.reverse.drop n).reverse, items.reverse.take n⟩ := by
  induction n with
  | zero => simp [draw, run]
  | succ n ih =>
      rw [List.replicate_succ', draw_append, ih, List.take_add_one, ← List.head?_drop, ← List.tail_drop]
      cases items.reverse.drop n with
      | nil => simp [Drawn.next]
      | cons a rest => simp [Drawn.next]

/-- As many calls as there are items exhaust the iterator. -/
theorem length_left_draw (items : List α) (sides : List Side) :
    (draw items sides).left.length = items.length - sides.length := by
  induction sides using List.reverseRecOn with
  | nil => rfl
  | append_singleton sides side ih =>
      rw [draw_append, Drawn.length_next, ih, List.length_append, List.length_singleton]
      omega

end OrderedRange
