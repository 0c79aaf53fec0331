import Polycentric.Common.Identity

/-! The shape of a resolved chain. One round of the loop is `Extends`, stated
over all candidates rather than over the buckets still present; a resolved chain
is a genesis event followed by such rounds. Later results use these rules and
do not unfold the loop. -/
namespace Polycentric

open Proto

variable (P : Primitives)

theorem takeBucket_eq_none_iff {seq : UInt64} {bySeq : List IdentityEvent} :
    takeBucket seq bySeq = none ↔ ∀ e ∈ bySeq, e.sequence ≠ seq := by
  unfold takeBucket
  split
  · next h => simpa [List.filter_eq_nil_iff] using h
  · next h =>
      simp only [reduceCtorEq, false_iff]
      intro hNone
      exact h (List.filter_eq_nil_iff.mpr (by simpa using hNone))

theorem takeBucket_eq_some {seq : UInt64} {bySeq bucket rest : List IdentityEvent}
    (h : takeBucket seq bySeq = some (bucket, rest)) :
    bucket ≠ [] ∧ bucket = bySeq.filter (fun e => e.sequence == seq) ∧
      rest = bySeq.filter (fun e => e.sequence != seq) := by
  unfold takeBucket at h
  split at h
  · simp at h
  · next hFilter =>
      simp only [Option.some.injEq, Prod.mk.injEq] at h
      obtain ⟨rfl, rfl⟩ := h
      exact ⟨hFilter, rfl, rfl⟩

theorem takeBucket_length_lt {seq : UInt64} {bySeq bucket rest : List IdentityEvent}
    (h : takeBucket seq bySeq = some (bucket, rest)) : rest.length < bySeq.length := by
  obtain ⟨hNonempty, rfl, rfl⟩ := takeBucket_eq_some h
  obtain ⟨e, he⟩ := List.exists_mem_of_ne_nil _ hNonempty
  rw [List.mem_filter] at he
  exact List.length_filter_lt_length_iff_exists.mpr ⟨e, he.1, by simpa using he.2⟩

/-- The number of rounds granted is irrelevant from the number of candidates on:
the loop always ends by itself. -/
theorem growChain_eq (identity : String) {first second : Nat} {bySeq : List IdentityEvent}
    (head : IdentityEvent) (hFirst : bySeq.length ≤ first) (hSecond : bySeq.length ≤ second) :
    growChain P identity first bySeq head = growChain P identity second bySeq head := by
  induction first generalizing second bySeq head with
  | zero =>
      have hNil : bySeq = [] := List.length_eq_zero_iff.mp (by omega)
      subst hNil
      cases second <;> simp [growChain, takeBucket]
  | succ first ih =>
      cases second with
      | zero =>
          have hNil : bySeq = [] := List.length_eq_zero_iff.mp (by omega)
          subst hNil
          simp [growChain, takeBucket]
      | succ second =>
          simp only [growChain]
          split
          · rfl
          · next bucket rest hTake =>
              have hLt := takeBucket_length_lt hTake
              split
              · rfl
              · next next reason hNext =>
                  exact congrArg (next :: ·) (ih next (by omega) (by omega))

/-- One round of the loop: `next` is selected among all candidates that follow
`head` in sequence. -/
def Extends (identity : String) (events : List IdentityEvent) (head next : IdentityEvent) : Prop :=
  ∃ reason, selectNext P identity head
    (events.filter fun e => e.sequence == head.sequence + 1) = some (next, reason)

/-- Every appended event extends the one before it. The buckets already removed
are those of the sequences in `gone`; a removed bucket is never found again, so
a bucket that is found is complete. -/
theorem growChain_isChain (identity : String) (events : List IdentityEvent) (rounds : Nat)
    (gone : List UInt64) (head : IdentityEvent) :
    List.IsChain (Extends P identity events)
      (head :: growChain P identity rounds (events.filter fun e => e.sequence ∉ gone) head) := by
  induction rounds generalizing gone head with
  | zero => simp [growChain]
  | succ rounds ih =>
      simp only [growChain]
      split
      · simp
      · next bucket rest hTake =>
          obtain ⟨hNonempty, hBucket, hRest⟩ := takeBucket_eq_some hTake
          split
          · simp
          · next next reason hNext =>
              rw [List.isChain_cons_cons]
              have hFresh : head.sequence + 1 ∉ gone := by
                obtain ⟨e, he⟩ := List.exists_mem_of_ne_nil _ hNonempty
                rw [hBucket, List.mem_filter, List.mem_filter] at he
                have hSeq : e.sequence = head.sequence + 1 := by simpa using he.2
                rw [← hSeq]
                simpa using he.1.2
              refine ⟨⟨reason, ?_⟩, ?_⟩
              · rw [← hNext, hBucket, List.filter_filter]
                congr 1
                apply List.filter_congr
                intro e _
                by_cases hSeq : e.sequence = head.sequence + 1
                · simp [hSeq, hFresh]
                · simp [hSeq]
              · have hRest' : rest =
                    events.filter fun e => e.sequence ∉ (head.sequence + 1) :: gone := by
                  rw [hRest, List.filter_filter]
                  apply List.filter_congr
                  intro e _
                  by_cases hSeq : e.sequence = head.sequence + 1 <;> simp [hSeq]
                rw [hRest']
                exact ih _ next

theorem growChain_length_le (identity : String) (rounds : Nat) (bySeq : List IdentityEvent)
    (head : IdentityEvent) : (growChain P identity rounds bySeq head).length ≤ rounds := by
  induction rounds generalizing bySeq head with
  | zero => simp [growChain]
  | succ rounds ih =>
      simp only [growChain]
      split
      · simp
      · next bucket rest _ =>
          split
          · simp
          · next next _ _ => simpa using ih rest next

/-- The events a list of candidates contributes. -/
def decodedEvents (identity : String) (candidates : List IdentityCandidate) : List IdentityEvent :=
  candidates.filterMap (preprocessCandidate P identity)

/-- A resolved chain, in one statement. -/
theorem resolveChain_eq_some {identity : String} {candidates : List IdentityCandidate}
    {chain : IdentityChain} (h : resolveChain P identity candidates = some chain) :
    ∃ genesis tail, chain.identityEvents = genesis :: tail ∧
      selectGenesis P identity ((decodedEvents P identity candidates).filter
        fun e => e.sequence == 1) = some genesis ∧
      List.IsChain (Extends P identity (decodedEvents P identity candidates)) (genesis :: tail) ∧
      tail.length < candidates.length := by
  simp only [resolveChain, Option.bind_eq_bind, Option.bind_eq_some_iff, Option.pure_def,
    Option.some.injEq, Prod.exists] at h
  obtain ⟨bucket, rest, hTake, genesis, hGenesis, rfl⟩ := h
  obtain ⟨-, hBucket, hRest⟩ := takeBucket_eq_some hTake
  refine ⟨genesis, _, rfl, ?_, ?_, ?_⟩
  · rw [← hGenesis, hBucket]
    rfl
  · have hRest' : rest = (decodedEvents P identity candidates).filter
        fun e => e.sequence ∉ [(1 : UInt64)] := by
      rw [hRest]
      apply List.filter_congr
      intro e _
      by_cases hSeq : e.sequence = 1 <;> simp [hSeq]
    rw [hRest']
    exact growChain_isChain P identity _ _ [1] genesis
  · have hLength := growChain_length_le P identity rest.length rest genesis
    have hLt := takeBucket_length_lt hTake
    have hDecoded := List.length_filterMap_le (preprocessCandidate P identity) candidates
    omega

end Polycentric
