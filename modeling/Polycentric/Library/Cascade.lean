import Mathlib

/-! Taking items out of a list together with all that hang on them. An item may
have a key, and it may hang on the key of another. What goes is a least set; it is
found by passes over the list until one takes nothing out, or by a single pass if
every item comes after the one that it hangs on. -/
namespace Cascade

variable {α κ : Type}

/-! ### What goes -/

section Removed

variable (key parent : α → Option κ) (hit : α → Bool)

/-- The least set of items that contains those that are hit, and with an item all
that hang on its key. -/
inductive Removed (items : List α) : α → Prop where
  | hit {a : α} (hItem : a ∈ items) (hHit : hit a = true) : Removed items a
  | hangs {a b : α} {k : κ} (hItem : a ∈ items) (hParent : parent a = some k)
      (hAbove : Removed items b) (hKey : key b = some k) : Removed items a

/-- No item comes before the one that it hangs on, or hangs on itself. -/
def ParentsFirst : List α → Prop
  | [] => True
  | a :: rest => (∀ k, parent a = some k → ∀ b ∈ a :: rest, key b ≠ some k) ∧ ParentsFirst rest

variable {key parent hit} {items pre rest : List α} {a b : α}

theorem Removed.mem (h : Removed key parent hit items a) : a ∈ items := by
  cases h with
  | hit hItem hHit => exact hItem
  | hangs hItem hParent hAbove hKey => exact hItem

/-- Only which items there are matters. -/
theorem Removed.mono {items' : List α} (hItems : ∀ a ∈ items, a ∈ items')
    (h : Removed key parent hit items a) : Removed key parent hit items' a := by
  induction h with
  | hit hItem hHit => exact .hit (hItems _ hItem) hHit
  | hangs hItem hParent hAbove hKey ih => exact .hangs (hItems _ hItem) hParent ih hKey

theorem ParentsFirst.above (h : ParentsFirst key parent (pre ++ a :: rest)) {k : κ}
    (hParent : parent a = some k) (hKey : key b = some k) (hMem : b ∈ pre ++ a :: rest) : b ∈ pre := by
  induction pre with
  | nil => exact absurd hKey (h.1 k hParent b hMem)
  | cons first pre ih =>
      rcases List.mem_cons.mp hMem with rfl | hMem
      · exact List.mem_cons_self
      · exact List.mem_cons_of_mem _ (ih h.2 hMem)

end Removed

/-! ### Passes -/

section Passes

variable (round : List α → List κ → List α × List κ)

/-- Passes until one takes nothing out, for at most so many rounds. -/
def passes : Nat → List α → List κ → List α
  | 0, items, _ => items
  | rounds + 1, items, dropped =>
      let (kept, dropped) := round items dropped
      if kept.length = items.length then kept else passes rounds kept dropped

/-- The unbounded loop over passes ends with the list. -/
inductive Ends : List α → List κ → List α → Prop where
  | unchanged {items : List α} {dropped : List κ}
      (hSame : (round items dropped).1.length = items.length) :
      Ends items dropped (round items dropped).1
  | again {items : List α} {dropped : List κ} {result : List α}
      (hFewer : (round items dropped).1.length ≠ items.length)
      (hRest : Ends (round items dropped).1 (round items dropped).2 result) :
      Ends items dropped result

variable {round}

theorem Ends.unique {items result result' : List α} {dropped : List κ}
    (h : Ends round items dropped result) (h' : Ends round items dropped result') :
    result = result' := by
  induction h with
  | unchanged hSame =>
      cases h' with
      | unchanged hSame' => rfl
      | again hFewer hRest => exact absurd hSame hFewer
  | again hFewer hRest ih =>
      cases h' with
      | unchanged hSame => exact absurd hSame hFewer
      | again hFewer' hRest' => exact ih hRest'

end Passes

variable [DecidableEq κ] (key parent : α → Option κ) (hit : α → Bool)

/-- One pass. What it takes out is remembered by key, also for the rest of the pass. -/
def sweep : List α → List κ → List α × List κ
  | [], dropped => ([], dropped)
  | a :: rest, dropped =>
      if hit a || (parent a).any (fun k => decide (k ∈ dropped)) then
        sweep rest ((key a).toList ++ dropped)
      else
        let (kept, dropped) := sweep rest dropped
        (a :: kept, dropped)

variable {key parent hit} {items rest : List α} {dropped : List κ} {a b : α}

/-! ### One pass -/

/-- The keys that a pass starts with belong to removed items. -/
def KeysRemoved (key parent : α → Option κ) (hit : α → Bool) (items : List α) (dropped : List κ) :
    Prop :=
  ∀ k ∈ dropped, ∃ b, Removed key parent hit items b ∧ key b = some k

theorem removed_of_dropped (hDropped : KeysRemoved key parent hit items dropped) (hItem : a ∈ items)
    (h : (hit a || (parent a).any fun k => decide (k ∈ dropped)) = true) :
    Removed key parent hit items a := by
  rw [Bool.or_eq_true, Option.any_eq_true] at h
  rcases h with hHit | ⟨k, hParent, hMem⟩
  · exact .hit hItem hHit
  · obtain ⟨b, hAbove, hKey⟩ := hDropped k (of_decide_eq_true hMem)
    exact .hangs hItem hParent hAbove hKey

omit [DecidableEq κ] in
theorem KeysRemoved.cons (hDropped : KeysRemoved key parent hit items dropped)
    (h : Removed key parent hit items a) :
    KeysRemoved key parent hit items ((key a).toList ++ dropped) := by
  intro k hMem
  rcases List.mem_append.mp hMem with hKey | hMem
  · exact ⟨a, h, Option.mem_toList.mp hKey⟩
  · exact hDropped k hMem

theorem sweep_sublist (items : List α) (dropped : List κ) :
    (sweep key parent hit items dropped).1.Sublist items := by
  induction items generalizing dropped with
  | nil => exact List.Sublist.refl _
  | cons a rest ih =>
      simp only [sweep]
      split
      · exact (ih _).cons _
      · exact (ih _).cons_cons _

theorem dropped_subset_sweep (items : List α) (dropped : List κ) :
    ∀ k ∈ dropped, k ∈ (sweep key parent hit items dropped).2 := by
  induction items generalizing dropped with
  | nil => exact fun k hMem => hMem
  | cons a rest ih =>
      intro k hMem
      simp only [sweep]
      split
      · exact ih _ k (List.mem_append_right _ hMem)
      · exact ih _ k hMem

/-- A pass takes out removed items only, and remembers keys of removed items only. -/
theorem sweep_sound [DecidablePred (Removed key parent hit items)]
    (hRest : ∀ a ∈ rest, a ∈ items) (hDropped : KeysRemoved key parent hit items dropped) :
    ((sweep key parent hit rest dropped).1.filter fun a => ¬Removed key parent hit items a) =
        (rest.filter fun a => ¬Removed key parent hit items a) ∧
      KeysRemoved key parent hit items (sweep key parent hit rest dropped).2 := by
  induction rest generalizing dropped with
  | nil => exact ⟨rfl, hDropped⟩
  | cons a rest ih =>
      have hLater : ∀ b ∈ rest, b ∈ items := fun b hMem => hRest b (List.mem_cons_of_mem _ hMem)
      simp only [sweep]
      split
      · next hOut =>
          have hRemoved := removed_of_dropped hDropped (hRest a List.mem_cons_self) hOut
          rw [List.filter_cons_of_neg (by simpa using hRemoved)]
          exact ih hLater (hDropped.cons hRemoved)
      · have hSound := ih hLater hDropped
        refine ⟨?_, hSound.2⟩
        rw [List.filter_cons, List.filter_cons, hSound.1]

/-- What a pass takes out is remembered. -/
theorem mem_sweep_or_dropped (items : List α) (dropped : List κ) :
    ∀ a ∈ items, a ∈ (sweep key parent hit items dropped).1 ∨
      ∀ k, key a = some k → k ∈ (sweep key parent hit items dropped).2 := by
  induction items generalizing dropped with
  | nil => simp
  | cons first rest ih =>
      intro a hMem
      simp only [sweep]
      split
      · rcases List.mem_cons.mp hMem with rfl | hMem
        · right
          intro k hKey
          exact dropped_subset_sweep _ _ k
            (List.mem_append_left _ (Option.mem_toList.mpr hKey))
        · exact ih _ a hMem
      · rcases List.mem_cons.mp hMem with rfl | hMem
        · exact .inl List.mem_cons_self
        · exact (ih _ a hMem).imp_left (List.mem_cons_of_mem _)

/-- A pass that takes nothing out found nothing that is hit or hangs on what went. -/
theorem sweep_unchanged (h : (sweep key parent hit items dropped).1.length = items.length) :
    (sweep key parent hit items dropped).1 = items ∧
      ∀ a ∈ items, hit a = false ∧ ∀ k, parent a = some k → k ∉ dropped := by
  induction items generalizing dropped with
  | nil => exact ⟨rfl, by simp⟩
  | cons first rest ih =>
      simp only [sweep] at h ⊢
      split at h
      · next hOut =>
          have hLength : (sweep key parent hit rest ((key first).toList ++ dropped)).1.length ≤
              rest.length := (sweep_sublist _ _).length_le
          rw [List.length_cons] at h
          omega
      · next hKept =>
          rw [if_neg hKept]
          obtain ⟨hRest, hNone⟩ := ih (by simpa using h)
          refine ⟨by rw [hRest], fun a hMem => ?_⟩
          rcases List.mem_cons.mp hMem with rfl | hMem
          · rw [Bool.not_eq_true, Bool.or_eq_false_iff, Option.any_eq_false] at hKept
            exact ⟨hKept.1, fun k hParent => of_decide_eq_false (hKept.2 k hParent)⟩
          · exact hNone a hMem

/-! ### Passes until nothing goes -/

/-- What the loop has taken out so far: removed items only, and their keys are
remembered. -/
structure Progress (key parent : α → Option κ) (hit : α → Bool) (all items : List α)
    (dropped : List κ) : Prop where
  keys : KeysRemoved key parent hit all dropped
  taken : ∀ a ∈ all, a ∈ items ∨ ∀ k, key a = some k → k ∈ dropped
  members : ∀ a ∈ items, a ∈ all

variable {all : List α}

omit [DecidableEq κ] in
theorem Progress.start (items : List α) : Progress key parent hit items items [] where
  keys := by simp [KeysRemoved]
  taken a hMem := .inl hMem
  members a hMem := hMem

open Classical in
theorem Progress.swept (h : Progress key parent hit all items dropped) :
    Progress key parent hit all (sweep key parent hit items dropped).1
        (sweep key parent hit items dropped).2 ∧
      ((sweep key parent hit items dropped).1.filter fun a => ¬Removed key parent hit all a) =
        items.filter fun a => ¬Removed key parent hit all a := by
  obtain ⟨hSame, hKeys⟩ := sweep_sound h.members h.keys
  refine ⟨⟨hKeys, fun a hMem => ?_, fun a hMem => h.members a ((sweep_sublist _ _).subset hMem)⟩,
    hSame⟩
  rcases h.taken a hMem with hItem | hDropped
  · exact mem_sweep_or_dropped items dropped a hItem
  · exact .inr fun k hKey => dropped_subset_sweep _ _ k (hDropped k hKey)

/-- When a pass takes nothing out, nothing that is left is to be removed. -/
theorem Progress.unchanged (h : Progress key parent hit all items dropped)
    (hSame : (sweep key parent hit items dropped).1.length = items.length) :
    ∀ a, Removed key parent hit all a → a ∉ items := by
  obtain ⟨-, hNone⟩ := sweep_unchanged hSame
  intro a hRemoved
  induction hRemoved with
  | @hit a hItem hHit =>
      intro hMem
      exact Bool.false_ne_true ((hNone a hMem).1.symm.trans hHit)
  | @hangs a b k hItem hParent hAbove hKey ih =>
      intro hMem
      have hDropped : k ∈ dropped := ((h.taken b hAbove.mem).resolve_left ih) k hKey
      exact (hNone a hMem).2 k hParent hDropped

open Classical in
/-- The loop ends, and what is left is what is not to be removed. -/
theorem Progress.ends (h : Progress key parent hit all items dropped) {rounds : Nat}
    (hRounds : items.length < rounds) :
    Ends (sweep key parent hit) items dropped
        (passes (sweep key parent hit) rounds items dropped) ∧
      passes (sweep key parent hit) rounds items dropped =
        items.filter fun a => ¬Removed key parent hit all a := by
  induction rounds generalizing items dropped with
  | zero => omega
  | succ rounds ih =>
      simp only [passes]
      split
      · next hSame =>
          refine ⟨.unchanged hSame, ?_⟩
          rw [(sweep_unchanged hSame).1, eq_comm, List.filter_eq_self]
          intro a hMem
          simpa using fun hRemoved => h.unchanged hSame a hRemoved hMem
      · next hFewer =>
          obtain ⟨hNext, hFilter⟩ := h.swept
          have hLength : (sweep key parent hit items dropped).1.length ≤ items.length :=
            (sweep_sublist _ _).length_le
          obtain ⟨hEnds, hResult⟩ := ih hNext (by omega)
          exact ⟨.again hFewer hEnds, hResult.trans hFilter⟩

open Classical in
/-- Passes until one takes nothing out remove exactly the least set. -/
theorem passes_eq_filter (items : List α) {rounds : Nat} (hRounds : items.length < rounds) :
    Ends (sweep key parent hit) items [] (passes (sweep key parent hit) rounds items []) ∧
      passes (sweep key parent hit) rounds items [] =
        items.filter fun a => ¬Removed key parent hit items a :=
  (Progress.start items).ends hRounds

/-! ### A single pass, parents first -/

/-- If parents come first, one pass decides every item as the least set does. -/
theorem sweep_eq_filter_of_parentsFirst [DecidablePred (Removed key parent hit items)]
    (h : ParentsFirst key parent items) :
    (sweep key parent hit items []).1 = items.filter fun a => ¬Removed key parent hit items a := by
  have hLoop : ∀ (rest pre : List α) (dropped : List κ), items = pre ++ rest →
      KeysRemoved key parent hit items dropped →
      (∀ b ∈ pre, Removed key parent hit items b → ∀ k, key b = some k → k ∈ dropped) →
      (sweep key parent hit rest dropped).1 =
        rest.filter fun a => ¬Removed key parent hit items a := by
    intro rest
    induction rest with
    | nil => exact fun pre dropped _ _ _ => rfl
    | cons a rest ih =>
        intro pre dropped hItems hKeys hPre
        have hItem : a ∈ items := by simp [hItems]
        have hSplit : items = (pre ++ [a]) ++ rest := by simp [hItems]
        simp only [sweep]
        split
        · next hOut =>
            have hRemoved := removed_of_dropped hKeys hItem hOut
            rw [List.filter_cons_of_neg (by simpa using hRemoved)]
            refine ih (pre ++ [a]) _ hSplit (hKeys.cons hRemoved) fun b hMem hAbove k hKey => ?_
            rcases List.mem_append.mp hMem with hMem | hMem
            · exact List.mem_append_right _ (hPre b hMem hAbove k hKey)
            · obtain rfl := List.mem_singleton.mp hMem
              exact List.mem_append_left _ (Option.mem_toList.mpr hKey)
        · next hKept =>
            rw [Bool.not_eq_true, Bool.or_eq_false_iff, Option.any_eq_false] at hKept
            have hStays : ¬Removed key parent hit items a := by
              intro hRemoved
              cases hRemoved with
              | hit hMem hHit => exact Bool.false_ne_true (hKept.1.symm.trans hHit)
              | @hangs _ b k hMem hParent hAbove hKey =>
                  have hPreMem : b ∈ pre := by
                    rw [hItems] at h
                    exact h.above hParent hKey (hItems ▸ hAbove.mem)
                  exact of_decide_eq_false (hKept.2 k hParent) (hPre b hPreMem hAbove k hKey)
            rw [List.filter_cons_of_pos (by simpa using hStays)]
            refine congrArg (a :: ·) (ih (pre ++ [a]) _ hSplit hKeys fun b hMem hAbove k hKey => ?_)
            rcases List.mem_append.mp hMem with hMem | hMem
            · exact hPre b hMem hAbove k hKey
            · obtain rfl := List.mem_singleton.mp hMem
              exact absurd hAbove hStays
  exact hLoop items [] [] rfl (by simp [KeysRemoved]) (by simp)

end Cascade
