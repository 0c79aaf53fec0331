import Mathlib

/-! Fallible computations that run check after check and stop at the first
failure. Each rule says what a success means; a proof peels a computation apart
with them and never unfolds the monad. -/
namespace Result

variable {ε δ α β : Type}

/-- The value, or the given error when there is none. -/
def okOr (value : Option α) (error : ε) : Except ε α :=
  match value with
  | some a => .ok a
  | none => .error error

/-- Fail with the given error unless the condition holds. -/
def ensure (condition : Bool) (error : ε) : Except ε Unit :=
  if condition then .ok () else .error error

@[simp] theorem okOr_eq_ok_iff {value : Option α} {error : ε} {a : α} :
    okOr value error = .ok a ↔ value = some a := by
  cases value <;> simp [okOr]

@[simp] theorem ensure_eq_ok_iff {condition : Bool} {error : ε} {u : Unit} :
    ensure condition error = .ok u ↔ condition = true := by
  cases condition <;> simp [ensure]

theorem isOk_iff {x : Except ε α} : x.isOk = true ↔ ∃ a, x = .ok a := by
  cases x <;> simp [Except.isOk, Except.toBool]

theorem bind_eq_ok_iff {x : Except ε α} {f : α → Except ε β} {b : β} :
    (x >>= f) = .ok b ↔ ∃ a, x = .ok a ∧ f a = .ok b := by
  cases x <;> simp [bind, Except.bind]

@[simp] theorem mapError_eq_ok_iff {x : Except ε α} {f : ε → δ} {a : α} :
    x.mapError f = .ok a ↔ x = .ok a := by
  cases x <;> simp [Except.mapError]

@[simp] theorem toOption_eq_some_iff {x : Except ε α} {a : α} :
    x.toOption = some a ↔ x = .ok a := by
  cases x <;> simp [Except.toOption]

/-- Computations with equal images, run over a list, end in equal images. -/
theorem map_mapM_congr {γ : Type} {f g : α → Except ε β} {view : β → γ} (l : List α)
    (h : ∀ x, (f x).map view = (g x).map view) :
    (l.mapM f).map (List.map view) = (l.mapM g).map (List.map view) := by
  induction l with
  | nil => rfl
  | cons x rest ih =>
      rw [List.mapM_cons, List.mapM_cons]
      specialize h x
      cases hf : f x with
      | error e =>
          cases hg : g x with
          | error e' =>
              rw [hf, hg] at h
              cases h
              rfl
          | ok b => simp [hf, hg, Except.map] at h
      | ok a =>
          cases hg : g x with
          | error e => simp [hf, hg, Except.map] at h
          | ok b =>
              have hView : view a = view b := by simpa [hf, hg, Except.map] using h
              cases hfs : rest.mapM f with
              | error e =>
                  cases hgs : rest.mapM g with
                  | error e' =>
                      rw [hfs, hgs] at ih
                      cases ih
                      rfl
                  | ok bs => simp [hfs, hgs, Except.map] at ih
              | ok as =>
                  cases hgs : rest.mapM g with
                  | error e => simp [hfs, hgs, Except.map] at ih
                  | ok bs =>
                      have hViews : as.map view = bs.map view := by
                        simpa [hfs, hgs, Except.map] using ih
                      simp [Except.map, bind, Except.bind, pure, Except.pure, hView, hViews]

/-- A traversal in which every step succeeds is a map. -/
theorem mapM_eq_map {f : α → Except ε β} {g : α → β} {l : List α}
    (h : ∀ a ∈ l, f a = .ok (g a)) : l.mapM f = .ok (l.map g) := by
  induction l with
  | nil => rfl
  | cons a rest ih =>
      rw [List.mapM_cons, h a List.mem_cons_self, ih fun b hMem => h b (List.mem_cons_of_mem _ hMem)]
      rfl

end Result

/-! ### Loops

Loops that may fail, pass a state along, and gather what their rounds yield. The
state is one that does not decide: a cache, whose answers are those of what it
caches as long as it is good. -/
namespace Gathering

variable {State α β ε : Type}

/-- Run the rounds over a list. The first failure ends the loop. -/
def gather (round : State → α → Except ε (Option β) × State) :
    State → List α → Except ε (List β) × State
  | s, [] => (.ok [], s)
  | s, a :: rest =>
      match round s a with
      | (.error e, s) => (.error e, s)
      | (.ok b, s) =>
          match gather round s rest with
          | (.error e, s) => (.error e, s)
          | (.ok bs, s) => (.ok (b.toList ++ bs), s)

/-- A round succeeds from every good state with the same answer, and leaves a good
state behind. -/
def Answers (Good : State → Prop) (round : State → α → Except ε (Option β) × State) (a : α)
    (answer : Option β) : Prop :=
  ∀ s, Good s → ∃ s', round s a = (.ok answer, s') ∧ Good s'

/-- A loop of rounds that answer gathers their answers. -/
theorem gather_eq {round : State → α → Except ε (Option β) × State} {Good : State → Prop}
    {answer : α → Option β} {l : List α} (hRound : ∀ a ∈ l, Answers Good round a (answer a))
    {s : State} (hGood : Good s) :
    ∃ s', gather round s l = (.ok (l.filterMap answer), s') ∧ Good s' := by
  induction l generalizing s with
  | nil => exact ⟨s, rfl, hGood⟩
  | cons a rest ih =>
      obtain ⟨s₁, hFirst, hGood₁⟩ := hRound a List.mem_cons_self s hGood
      obtain ⟨s₂, hRest, hGood₂⟩ := ih (fun b hb => hRound b (List.mem_cons_of_mem _ hb)) hGood₁
      refine ⟨s₂, ?_, hGood₂⟩
      cases hAnswer : answer a with
      | none => simp [gather, hFirst, hRest, hAnswer]
      | some b => simp [gather, hFirst, hRest, hAnswer]

end Gathering
