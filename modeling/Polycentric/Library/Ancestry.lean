import Mathlib

/-! Things with at most one parent each. Nothing keeps the parents from going round in
a circle. Walks down from a thing to its children use a stack of what is still to visit. -/
namespace Ancestry

variable {α : Type} (parent : α → Option α)

/-- The ancestor a number of generations up. -/
def climb : Nat → α → Option α
  | 0, x => some x
  | n + 1, x => (parent x).bind (climb n)

/-- It is its own ancestor. -/
def OnCycle (x : α) : Prop := ∃ n, 1 ≤ n ∧ climb parent n x = some x

variable {parent} {x y z : α} {m n : Nat}

theorem climb_one (x : α) : climb parent 1 x = parent x := by
  show (parent x).bind some = parent x
  exact Option.bind_fun_some _

theorem climb_add (m n : Nat) (x : α) :
    climb parent (m + n) x = (climb parent m x).bind (climb parent n) := by
  induction m generalizing x with
  | zero => simp [climb]
  | succ m ih =>
      rw [Nat.succ_add]
      simp only [climb]
      cases parent x with
      | none => rfl
      | some y => exact ih y

theorem climb_trans (hFirst : climb parent m x = some y) (hSecond : climb parent n y = some z) :
    climb parent (m + n) x = some z := by
  rw [climb_add, hFirst]
  exact hSecond

theorem climb_succ (hParent : parent x = some y) (hClimb : climb parent n y = some z) :
    climb parent (n + 1) x = some z := by
  show (parent x).bind (climb parent n) = some z
  rw [hParent]
  exact hClimb

theorem climb_succ_iff : climb parent (n + 1) x = some z ↔ ∃ y, parent x = some y ∧
    climb parent n y = some z := Option.bind_eq_some_iff

/-- The last generation of a climb. -/
theorem climb_succ_last (hClimb : climb parent n x = some y) :
    climb parent (n + 1) x = parent y := by
  rw [climb_add, hClimb]
  exact climb_one y

/-- What is met twice is on a cycle, whose length is the distance. -/
theorem climb_sub (hFirst : climb parent m x = some y) (hSecond : climb parent n x = some z)
    (hLe : m ≤ n) : climb parent (n - m) y = some z := by
  rw [← Nat.add_sub_cancel' hLe, climb_add, hFirst] at hSecond
  exact hSecond

theorem OnCycle.of_lt (hFirst : climb parent m x = some y) (hSecond : climb parent n x = some y)
    (hLt : m < n) : OnCycle parent y :=
  ⟨n - m, Nat.sub_pos_of_lt hLt, climb_sub hFirst hSecond hLt.le⟩

/-- What is not on a cycle is met once. -/
theorem generation_unique (hNot : ¬OnCycle parent y) (hFirst : climb parent m x = some y)
    (hSecond : climb parent n x = some y) : m = n := by
  rcases Nat.lt_trichotomy m n with hLt | hEq | hGt
  · exact absurd (OnCycle.of_lt hFirst hSecond hLt) hNot
  · exact hEq
  · exact absurd (OnCycle.of_lt hSecond hFirst hGt) hNot

/-- A cycle leads through the parent. -/
theorem OnCycle.parent_of (h : OnCycle parent x) (hParent : parent x = some y) : OnCycle parent y := by
  obtain ⟨n, hPos, hClimb⟩ := h
  refine ⟨n, hPos, ?_⟩
  have hNext := climb_succ_last hClimb
  rw [hParent] at hNext
  obtain ⟨other, hOther, hRest⟩ := climb_succ_iff.mp hNext
  cases hOther.symm.trans hParent
  exact hRest

/-! ### Walks down -/

variable (children : α → List α)

/-- Visit what is on top of the stack, and put its children there in its place. The walk
gives up when it is out of fuel. -/
def walk : Nat → List α → Option (List α)
  | _, [] => some []
  | 0, _ :: _ => none
  | fuel + 1, x :: stack => (walk fuel (children x ++ stack)).map (x :: ·)

variable {children} {stack stack' visited visited' : List α}

theorem walk_succ_eq_some {fuel : Nat} (h : walk children (fuel + 1) (x :: stack) = some visited) :
    ∃ rest, walk children fuel (children x ++ stack) = some rest ∧ visited = x :: rest := by
  obtain ⟨rest, hRest, hEq⟩ := Option.map_eq_some_iff.mp h
  exact ⟨rest, hRest, hEq.symm⟩

theorem walk_append {fuel fuel' : Nat} (hFirst : walk children fuel stack = some visited)
    (hSecond : walk children fuel' stack' = some visited') :
    ∃ more, walk children more (stack ++ stack') = some (visited ++ visited') := by
  induction fuel generalizing stack visited with
  | zero =>
      cases stack with
      | nil =>
          cases hFirst
          exact ⟨fuel', hSecond⟩
      | cons x stack => cases hFirst
  | succ fuel ih =>
      cases stack with
      | nil =>
          cases hFirst
          exact ⟨fuel', hSecond⟩
      | cons x stack =>
          obtain ⟨rest, hRest, rfl⟩ := walk_succ_eq_some hFirst
          obtain ⟨more, hMore⟩ := ih hRest
          refine ⟨more + 1, ?_⟩
          show (walk children more (children x ++ (stack ++ stack'))).map (x :: ·) = _
          rw [← List.append_assoc, hMore]
          rfl

/-- A walk ends if those from each thing on the stack do. -/
theorem walk_ends (h : ∀ x ∈ stack, ∃ fuel visited, walk children fuel [x] = some visited) :
    ∃ fuel visited, walk children fuel stack = some visited := by
  induction stack with
  | nil => exact ⟨0, [], rfl⟩
  | cons x stack ih =>
      obtain ⟨fuel, visited, hFirst⟩ := h x List.mem_cons_self
      obtain ⟨fuel', visited', hRest⟩ := ih fun y hy => h y (List.mem_cons_of_mem _ hy)
      obtain ⟨more, hMore⟩ := walk_append hFirst hRest
      exact ⟨more, _, hMore⟩

theorem walk_step (h : ∃ fuel visited, walk children fuel (children x) = some visited) :
    ∃ fuel visited, walk children fuel [x] = some visited := by
  obtain ⟨fuel, visited, hWalk⟩ := h
  refine ⟨fuel + 1, x :: visited, ?_⟩
  show (walk children fuel (children x ++ [])).map (x :: ·) = _
  rw [List.append_nil, hWalk]
  rfl

/-- What holds of the stack and passes on to the children holds of all that is visited. -/
theorem forall_walk {P : α → Prop} (hChildren : ∀ x, P x → ∀ y ∈ children x, P y) {fuel : Nat}
    (hWalk : walk children fuel stack = some visited) (hStack : ∀ x ∈ stack, P x) :
    ∀ x ∈ visited, P x := by
  induction fuel generalizing stack visited with
  | zero =>
      cases stack with
      | nil =>
          cases hWalk
          exact fun _ hx => absurd hx List.not_mem_nil
      | cons x stack => cases hWalk
  | succ fuel ih =>
      cases stack with
      | nil =>
          cases hWalk
          exact fun _ hx => absurd hx List.not_mem_nil
      | cons x stack =>
          obtain ⟨rest, hRest, rfl⟩ := walk_succ_eq_some hWalk
          have hTop := hStack x List.mem_cons_self
          intro y hy
          rcases List.mem_cons.mp hy with rfl | hIn
          · exact hTop
          · refine ih hRest (fun z hz => ?_) y hIn
            rcases List.mem_append.mp hz with hChild | hOld
            · exact hChildren x hTop z hChild
            · exact hStack z (List.mem_cons_of_mem _ hOld)

/-- If the parents of what is on the stack were met, what is visited comes after its
parent. -/
theorem walk_parent_first (hChildren : ∀ x, ∀ y ∈ children x, parent y = some x) {fuel : Nat}
    {met : List α} (hWalk : walk children fuel stack = some visited)
    (hStack : ∀ x ∈ stack, ∃ y ∈ met, parent x = some y) {before after : List α}
    (hSplit : visited = before ++ x :: after) : ∃ y ∈ met ++ before, parent x = some y := by
  induction fuel generalizing stack visited met before with
  | zero =>
      cases stack with
      | nil =>
          cases hWalk
          exact absurd hSplit (by simp)
      | cons x stack => cases hWalk
  | succ fuel ih =>
      cases stack with
      | nil =>
          cases hWalk
          exact absurd hSplit (by simp)
      | cons top stack =>
          obtain ⟨rest, hRest, rfl⟩ := walk_succ_eq_some hWalk
          cases before with
          | nil =>
              cases hSplit
              rw [List.append_nil]
              exact hStack x List.mem_cons_self
          | cons first before =>
              obtain ⟨hTop, hTail⟩ := List.cons_eq_cons.mp hSplit
              rw [← hTop]
              have hMet : ∀ z ∈ children top ++ stack, ∃ y ∈ met ++ [top], parent z = some y := by
                intro z hz
                rcases List.mem_append.mp hz with hChild | hOld
                · exact ⟨top, List.mem_append_right _ (List.mem_singleton_self _),
                    hChildren top z hChild⟩
                · obtain ⟨y, hy, hParent⟩ := hStack z (List.mem_cons_of_mem _ hOld)
                  exact ⟨y, List.mem_append_left _ hy, hParent⟩
              have hFirst := ih hRest hMet hTail
              rwa [List.append_assoc, List.singleton_append] at hFirst

/-! ### Recursive queries -/

section Rounds

variable {Row : Type} (next : Row → List Row)

/-- The rows of a recursive query: those that it starts with, and in a number of rounds
what follows from the rows of the round before. Nothing is left out as a duplicate. -/
def rounds : Nat → List Row → List Row
  | 0, rows => rows
  | n + 1, rows => rows ++ rounds n (rows.flatMap next)

variable {next} {rows : List Row} {row : Row} {Reached : Nat → Row → Prop} {k : Nat}

theorem reached_of_mem_rounds (hRows : ∀ row ∈ rows, Reached k row)
    (hNext : ∀ k last, Reached k last → ∀ row ∈ next last, Reached (k + 1) row)
    (hMem : row ∈ rounds next n rows) : ∃ j ≤ n, Reached (k + j) row := by
  induction n generalizing rows k with
  | zero => exact ⟨0, Nat.le_refl 0, hRows row hMem⟩
  | succ n ih =>
      rcases List.mem_append.mp hMem with hFirst | hLater
      · exact ⟨0, Nat.zero_le _, hRows row hFirst⟩
      · have hRound : ∀ row ∈ rows.flatMap next, Reached (k + 1) row := by
          intro row hRow
          obtain ⟨last, hLast, hFollows⟩ := List.mem_flatMap.mp hRow
          exact hNext k last (hRows last hLast) row hFollows
        obtain ⟨j, hj, hReached⟩ := ih hRound hLater
        exact ⟨j + 1, Nat.succ_le_succ hj, by rwa [Nat.add_right_comm] at hReached⟩

theorem mem_rounds_of_reached (hRows : ∀ row, Reached k row → row ∈ rows)
    (hNext : ∀ k row, Reached (k + 1) row → ∃ last, Reached k last ∧ row ∈ next last) {j : Nat}
    (hj : j ≤ n) (hReached : Reached (k + j) row) : row ∈ rounds next n rows := by
  induction n generalizing rows k j with
  | zero =>
      rw [Nat.le_zero.mp hj] at hReached
      exact hRows row hReached
  | succ n ih =>
      cases j with
      | zero => exact List.mem_append_left _ (hRows row hReached)
      | succ j =>
          refine List.mem_append_right _ (ih (k := k + 1) ?_ (Nat.le_of_succ_le_succ hj) ?_)
          · intro row hRow
            obtain ⟨last, hLast, hFollows⟩ := hNext k row hRow
            exact List.mem_flatMap.mpr ⟨last, hRows last hLast, hFollows⟩
          · rwa [Nat.add_right_comm]

end Rounds

end Ancestry
