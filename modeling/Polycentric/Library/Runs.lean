import Mathlib

/-! Runs of a step function over a list of actions, and the rules that carry a
property, or a relation between two runs, from one step to all of them. Two kinds of state
are common: a list of parties that take steps in turn, and a history to which every step
adds. -/
namespace Runs

variable {State Action : Type} (step : State → Action → State)

/-- The state after the actions, in order. -/
def run (s : State) (actions : List Action) : State := actions.foldl step s

/-- Every action of the run meets the condition in the state before it. -/
def Along (Condition : State → Action → Prop) : State → List Action → Prop
  | _, [] => True
  | s, action :: rest => Condition s action ∧ Along Condition (step s action) rest

/-- The actions of the run, each with the state before it. -/
def trace : State → List Action → List (State × Action)
  | _, [] => []
  | s, action :: rest => (s, action) :: trace (step s action) rest

variable {step} {Condition Condition' : State → Action → Prop} {s t : State}
  {actions : List Action}

instance decidableAlong [∀ s action, Decidable (Condition s action)] :
    ∀ (s : State) (actions : List Action), Decidable (Along step Condition s actions)
  | _, [] => inferInstanceAs (Decidable True)
  | s, action :: rest =>
      have := decidableAlong (step s action) rest
      inferInstanceAs (Decidable (Condition s action ∧ Along step Condition (step s action) rest))

theorem Along.take (h : Along step Condition s actions) (n : Nat) :
    Along step Condition s (actions.take n) := by
  induction actions generalizing s n with
  | nil => simpa using h
  | cons action rest ih =>
      cases n with
      | zero => trivial
      | succ n => exact ⟨h.1, ih h.2 n⟩

theorem along_true (s : State) (actions : List Action) :
    Along step (fun _ _ => True) s actions := by
  induction actions generalizing s with
  | nil => trivial
  | cons action rest ih => exact ⟨trivial, ih (step s action)⟩

theorem along_concat {action : Action} :
    Along step Condition s (actions ++ [action]) ↔
      Along step Condition s actions ∧ Condition (run step s actions) action := by
  induction actions generalizing s with
  | nil => exact and_comm
  | cons first rest ih =>
      rw [List.cons_append, Along, ih, ← and_assoc]
      rfl

theorem Along.imp (h : Along step Condition s actions) (hImp : ∀ s action, Condition s action → Condition' s action) :
    Along step Condition' s actions := by
  induction actions generalizing s with
  | nil => trivial
  | cons action rest ih => exact ⟨hImp s action h.1, ih h.2⟩

theorem Along.and (h : Along step Condition s actions) (h' : Along step Condition' s actions) :
    Along step (fun s action => Condition s action ∧ Condition' s action) s actions := by
  induction actions generalizing s with
  | nil => trivial
  | cons action rest ih => exact ⟨⟨h.1, h'.1⟩, ih h.2 h'.2⟩

theorem Along.and_forall {Also : Action → Prop} (h : Along step Condition s actions)
    (hAll : ∀ action ∈ actions, Also action) :
    Along step (fun s action => Condition s action ∧ Also action) s actions := by
  induction actions generalizing s with
  | nil => trivial
  | cons action rest ih =>
      exact ⟨⟨h.1, hAll action List.mem_cons_self⟩,
        ih h.2 fun other hOther => hAll other (List.mem_cons_of_mem _ hOther)⟩

/-- Two runs of the same actions stay related if every step keeps the relation.
The conditions are read in the second run. -/
theorem run_related {Related : State → State → Prop}
    (hStep : ∀ {s t action}, Related s t → Condition t action → Related (step s action) (step t action))
    (hStart : Related s t) (hAlong : Along step Condition t actions) :
    Related (run step s actions) (run step t actions) := by
  induction actions generalizing s t with
  | nil => exact hStart
  | cons action rest ih => exact ih (hStep hStart hAlong.1) hAlong.2

/-- What holds at first and is kept by every step holds after the run. -/
theorem run_invariant {Invariant : State → Prop}
    (hStep : ∀ {s action}, Invariant s → Condition s action → Invariant (step s action))
    (hStart : Invariant s) (hAlong : Along step Condition s actions) :
    Invariant (run step s actions) := by
  induction actions generalizing s with
  | nil => exact hStart
  | cons action rest ih => exact ih (hStep hStart hAlong.1) hAlong.2

/-- What an invariant gives at every step holds along a run that keeps it. -/
theorem along_of_invariant {Invariant : State → Prop} {Property : State → Action → Prop}
    (hStep : ∀ {s action}, Invariant s → Condition s action → Invariant (step s action))
    (hProperty : ∀ {s action}, Invariant s → Condition s action → Property s action)
    (hStart : Invariant s) (hAlong : Along step Condition s actions) :
    Along step Property s actions := by
  induction actions generalizing s with
  | nil => trivial
  | cons action rest ih =>
      exact ⟨hProperty hStart hAlong.1, ih (hStep hStart hAlong.1) hAlong.2⟩

/-- Two conditions that agree wherever an invariant holds agree along a run that
keeps it. -/
theorem along_congr {Invariant : State → Prop} {Property Property' : State → Action → Prop}
    (hStep : ∀ {s action}, Invariant s → Condition s action → Invariant (step s action))
    (hIff : ∀ {s action}, Invariant s → Condition s action → (Property s action ↔ Property' s action))
    (hStart : Invariant s) (hAlong : Along step Condition s actions) :
    Along step Property s actions ↔ Along step Property' s actions := by
  induction actions generalizing s with
  | nil => exact Iff.rfl
  | cons action rest ih =>
      exact and_congr (hIff hStart hAlong.1) (ih (hStep hStart hAlong.1) hAlong.2)

/-- A run that is simulated step by step is simulated as a whole. -/
theorem run_simulates {Abstract AbstractAction : Type}
    {abstractStep : Abstract → AbstractAction → Abstract} {view : State → Abstract}
    {viewAction : Action → AbstractAction} {Invariant : State → Prop}
    (hStep : ∀ {s action}, Invariant s → Condition s action → Invariant (step s action))
    (hView : ∀ {s action}, Invariant s → Condition s action →
      view (step s action) = abstractStep (view s) (viewAction action))
    (hStart : Invariant s) (hAlong : Along step Condition s actions) :
    view (run step s actions) = run abstractStep (view s) (actions.map viewAction) := by
  induction actions generalizing s with
  | nil => rfl
  | cons action rest ih =>
      have hRest := ih (hStep hStart hAlong.1) hAlong.2
      rw [hView hStart hAlong.1] at hRest
      exact hRest

/-- A property of the states that a step keeps exactly under a condition holds in
every state of a run exactly if every step meets the condition. -/
theorem along_kept_iff {Invariant Kept : State → Prop} {Property : State → Action → Prop}
    (hStep : ∀ {s action}, Invariant s → Condition s action → Invariant (step s action))
    (hIff : ∀ {s action}, Invariant s → Kept s → Condition s action →
      (Kept (step s action) ↔ Property s action))
    (hStart : Invariant s) (hKept : Kept s) (hAlong : Along step Condition s actions) :
    Along step (fun s action => Kept (step s action)) s actions ↔ Along step Property s actions := by
  induction actions generalizing s with
  | nil => exact Iff.rfl
  | cons action rest ih =>
      have hFirst := hIff hStart hKept hAlong.1
      constructor
      · intro h
        exact ⟨hFirst.mp h.1, (ih (hStep hStart hAlong.1) h.1 hAlong.2).mp h.2⟩
      · intro h
        have hNext := hFirst.mpr h.1
        exact ⟨hNext, (ih (hStep hStart hAlong.1) hNext hAlong.2).mpr h.2⟩

/-- A violation that no step repairs, as long as the run is to end as it should: a run
that ends so ends without one exactly if it began without one and every step met the
condition. -/
theorem kept_run_iff {Invariant Kept Ends : State → Prop} {Property : State → Action → Prop}
    (hStep : ∀ {s action}, Invariant s → Invariant (step s action))
    (hEnds : ∀ {s action}, Ends (step s action) → Ends s)
    (hIff : ∀ {s action}, Invariant s → Ends (step s action) →
      (Kept (step s action) ↔ Kept s ∧ Property s action))
    (hStart : Invariant s) (hEnd : Ends (run step s actions)) :
    Ends s ∧ (Kept (run step s actions) ↔ Kept s ∧ Along step Property s actions) := by
  induction actions generalizing s with
  | nil => exact ⟨hEnd, (and_iff_left trivial).symm⟩
  | cons action rest ih =>
      obtain ⟨hNext, hRest⟩ := ih (hStep hStart) hEnd
      refine ⟨hEnds hNext, hRest.trans ?_⟩
      rw [hIff hStart hNext, and_assoc]
      rfl

theorem last_mem_trace (s : State) (actions : List Action) (action : Action) :
    (run step s actions, action) ∈ trace step s (actions ++ [action]) := by
  induction actions generalizing s with
  | nil => exact List.mem_singleton_self _
  | cons first rest ih => exact List.mem_cons_of_mem _ (ih (step s first))

theorem mem_of_mem_trace {action : Action} (h : (t, action) ∈ trace step s actions) : action ∈ actions := by
  induction actions generalizing s with
  | nil => exact absurd h List.not_mem_nil
  | cons first rest ih =>
      rcases List.mem_cons.mp h with hFirst | hRest
      · exact (Prod.mk.inj hFirst).2 ▸ List.mem_cons_self
      · exact List.mem_cons_of_mem _ (ih hRest)

/-- Every step of a run is in its trace. -/
theorem along_trace (s : State) (actions : List Action) :
    Along step (fun t action => (t, action) ∈ trace step s actions) s actions := by
  induction actions generalizing s with
  | nil => trivial
  | cons action rest ih =>
      exact ⟨List.mem_cons_self, (ih (step s action)).imp fun _ _ hMem => List.mem_cons_of_mem _ hMem⟩

/-- What holds at first and is kept by every step holds after the run, also of the
history that led there. -/
theorem trace_invariant {Invariant : List (State × Action) → State → Prop}
    (hStep : ∀ {history s action}, Invariant history s → Condition s action →
      Invariant (history ++ [(s, action)]) (step s action))
    (hStart : Invariant [] s) (hAlong : Along step Condition s actions) :
    Invariant (trace step s actions) (run step s actions) := by
  have hExtend : ∀ (actions : List Action) (history : List (State × Action)) (s : State),
      Invariant history s → Along step Condition s actions →
        Invariant (history ++ trace step s actions) (run step s actions) := by
    intro actions
    induction actions with
    | nil =>
        intro history s hInvariant _
        simpa [trace, run] using hInvariant
    | cons action rest ih =>
        intro history s hInvariant hAlong
        have hRest := ih _ _ (hStep hInvariant hAlong.1) hAlong.2
        rwa [List.append_assoc] at hRest
  exact hExtend actions [] s hStart hAlong

end Runs

/-! ### Parties

A list of parties that take steps in turn: a step replaces the entry of one party,
and a party that arrives is put at the end. -/
namespace Slots

variable {α : Type} {l : List α} {i j : Nat} {a b old : α}

theorem mem_set_self (h : l[i]? = some a) : b ∈ l.set i b :=
  List.mem_set (List.getElem?_eq_some_iff.mp h).1 b

/-- What was in a list is still there unless it was what was replaced. -/
theorem mem_set_or_eq (h : l[i]? = some a) (hOld : old ∈ l) : old = a ∨ old ∈ l.set i b := by
  obtain ⟨j, hj, hGet⟩ := List.mem_iff_getElem.mp hOld
  by_cases hij : i = j
  · subst hij
    rw [List.getElem?_eq_getElem hj, Option.some.injEq] at h
    exact Or.inl (hGet.symm.trans h)
  · refine Or.inr (List.mem_iff_getElem.mpr ⟨j, by simpa using hj, ?_⟩)
    rw [List.getElem_set_ne hij, hGet]

theorem getElem?_set_cases (h : (l.set i a)[j]? = some b) :
    (j = i ∧ b = a) ∨ (j ≠ i ∧ l[j]? = some b) := by
  by_cases hEq : j = i
  · subst hEq
    have hLt : j < (l.set j a).length := (List.getElem?_eq_some_iff.mp h).1
    rw [List.getElem?_set_self (by simpa using hLt)] at h
    exact Or.inl ⟨rfl, (Option.some.inj h).symm⟩
  · rw [List.getElem?_set_ne (Ne.symm hEq)] at h
    exact Or.inr ⟨hEq, h⟩

theorem getElem?_append_cases (h : (l ++ [a])[j]? = some b) : b = a ∨ l[j]? = some b := by
  rcases Nat.lt_or_ge j l.length with hLt | hGe
  · rw [List.getElem?_append_left hLt] at h
    exact Or.inr h
  · rw [List.getElem?_append_right hGe, List.getElem?_singleton] at h
    split at h
    · exact Or.inl (Option.some.inj h).symm
    · cases h

/-- What every party has, in its own place. -/
def Each (P : Nat → α → Prop) (l : List α) : Prop := ∀ i a, l[i]? = some a → P i a

variable {P P' : Nat → α → Prop}

theorem Each.nil : Each P [] := nofun

/-- The party that moves has to be checked, and that it leaves the others alone. -/
theorem Each.set (h : Each P l) (hNew : P' i b) (hOther : ∀ j a, j ≠ i → P j a → P' j a) :
    Each P' (l.set i b) := by
  intro j a hGet
  rcases getElem?_set_cases hGet with ⟨rfl, rfl⟩ | ⟨hNe, hOld⟩
  · exact hNew
  · exact hOther j a hNe (h j a hOld)

theorem Each.append (h : Each P l) (hNew : ∀ i, P i b) : Each P (l ++ [b]) := by
  intro j a hGet
  rcases getElem?_append_cases hGet with rfl | hOld
  · exact hNew j
  · exact h j a hOld

theorem Each.mono (h : Each P l) (hImp : ∀ i a, P i a → P' i a) : Each P' l :=
  fun i a hGet => hImp i a (h i a hGet)

end Slots

/-! ### Histories

What stands at the end of a history: something said that nothing later overrules. -/
namespace LastWord

variable {Entry : Type} {Says Overrules : Entry → Prop} {history : List Entry} {entry : Entry}

def Stands (Says Overrules : Entry → Prop) (history : List Entry) : Prop :=
  ∃ before entry after, history = before ++ entry :: after ∧ Says entry ∧
    ∀ later ∈ after, ¬Overrules later

theorem not_stands_nil : ¬Stands Says Overrules [] := by
  intro ⟨before, entry, after, hSplit, _⟩
  exact absurd hSplit.symm (List.append_ne_nil_of_right_ne_nil before (List.cons_ne_nil entry after))

theorem Stands.said (h : Stands Says Overrules history) : ∃ entry ∈ history, Says entry := by
  obtain ⟨before, entry, after, rfl, hSays, -⟩ := h
  exact ⟨entry, List.mem_append_right _ List.mem_cons_self, hSays⟩

/-- The last entry says it, or it stood before and the last entry leaves it alone. -/
theorem stands_append_singleton :
    Stands Says Overrules (history ++ [entry]) ↔
      Says entry ∨ Stands Says Overrules history ∧ ¬Overrules entry := by
  constructor
  · intro ⟨before, said, after, hSplit, hSays, hLater⟩
    rcases List.eq_nil_or_concat after with rfl | ⟨rest, last, rfl⟩
    · obtain ⟨-, hLast⟩ := List.append_inj' hSplit rfl
      rw [List.singleton_inj.mp hLast]
      exact Or.inl hSays
    · rw [List.concat_eq_append, ← List.cons_append, ← List.append_assoc] at hSplit
      obtain ⟨hBefore, hLast⟩ := List.append_inj' hSplit rfl
      have hKept : ∀ later ∈ rest ++ [last], ¬Overrules later := by simpa using hLater
      refine Or.inr ⟨⟨before, said, rest, hBefore, hSays, ?_⟩, ?_⟩
      · exact fun later hMem => hKept later (List.mem_append_left _ hMem)
      · rw [List.singleton_inj.mp hLast]
        exact hKept last (List.mem_append_right _ List.mem_cons_self)
  · rintro (hSays | ⟨⟨before, said, after, rfl, hSays, hLater⟩, hLast⟩)
    · exact ⟨history, entry, [], rfl, hSays, fun _ hMem => absurd hMem List.not_mem_nil⟩
    · refine ⟨before, said, after ++ [entry], by simp, hSays, ?_⟩
      intro later hMem
      rcases List.mem_append.mp hMem with hOld | hNew
      · exact hLater later hOld
      · rw [List.mem_singleton.mp hNew]
        exact hLast

end LastWord
