import Polycentric.Common.ChainSafety

/-! What further candidates change about a resolved chain. The loop with more
candidates is compared with the loop without them, round by round. -/
namespace Polycentric

open Proto

variable (P : Primitives)

/-! ### The loop with more candidates -/

/-- The successor is found again, up to the relation, when further events of its
sequence compete with it. -/
def Persists (R : IdentityEvent → IdentityEvent → Prop) (identity : String)
    (extra : List IdentityEvent) (head next : IdentityEvent) : Prop :=
  ∀ head', R head head' → ∀ bucket more reason,
    (∀ e ∈ bucket, e.sequence = head.sequence + 1) →
    (∀ t ∈ more, t ∈ extra ∧ t.sequence = head.sequence + 1) →
    selectNext P identity head bucket = some (next, reason) →
    ∃ next' reason', selectNext P identity head' (bucket ++ more) = some (next', reason') ∧
      R next next'

/-- No further event succeeds where none did. -/
def Ends (R : IdentityEvent → IdentityEvent → Prop) (identity : String)
    (extra : List IdentityEvent) (last : IdentityEvent) : Prop :=
  ∀ last', R last last' → ∀ bucket more,
    (∀ t ∈ more, t ∈ extra ∧ t.sequence = last.sequence + 1) →
    selectNext P identity last bucket = none → selectNext P identity last' (bucket ++ more) = none

section Loop

variable {P} {R : IdentityEvent → IdentityEvent → Prop} {identity : String}
  {extra extra' : List IdentityEvent}

theorem Persists.subset {head next : IdentityEvent} (h : Persists P R identity extra head next)
    (hSubset : extra' ⊆ extra) : Persists P R identity extra' head next :=
  fun head' hHead bucket more reason hBucket hMore =>
    h head' hHead bucket more reason hBucket fun t ht => ⟨hSubset (hMore t ht).1, (hMore t ht).2⟩

theorem Ends.subset {last : IdentityEvent} (h : Ends P R identity extra last)
    (hSubset : extra' ⊆ extra) : Ends P R identity extra' last :=
  fun last' hLast bucket more hMore =>
    h last' hLast bucket more fun t ht => ⟨hSubset (hMore t ht).1, (hMore t ht).2⟩

theorem takeBucket_append {seq : UInt64} {bySeq bucket rest : List IdentityEvent}
    (h : takeBucket seq bySeq = some (bucket, rest)) (extra : List IdentityEvent) :
    takeBucket seq (bySeq ++ extra) = some (bucket ++ extra.filter (fun e => e.sequence == seq),
      rest ++ extra.filter fun e => e.sequence != seq) := by
  obtain ⟨hNonempty, rfl, rfl⟩ := takeBucket_eq_some h
  unfold takeBucket
  rw [List.filter_append, List.filter_append]
  split
  · next hNil => exact absurd (List.append_eq_nil_iff.mp hNil).1 hNonempty
  · rfl

theorem takeBucket_append_of_none {seq : UInt64} {bySeq : List IdentityEvent}
    (h : takeBucket seq bySeq = none) (extra : List IdentityEvent) :
    takeBucket seq (bySeq ++ extra) = none ∨ ∃ rest,
      takeBucket seq (bySeq ++ extra) = some (extra.filter (fun e => e.sequence == seq), rest) := by
  have hNone : bySeq.filter (fun e => e.sequence == seq) = [] := by
    rw [List.filter_eq_nil_iff]
    intro e he hSeq
    exact takeBucket_eq_none_iff.mp h e he (by simpa using hSeq)
  cases hTake : takeBucket seq (bySeq ++ extra) with
  | none => exact Or.inl rfl
  | some pair =>
      obtain ⟨bucket, rest⟩ := pair
      obtain ⟨-, hBucket, -⟩ := takeBucket_eq_some hTake
      rw [List.filter_append, hNone, List.nil_append] at hBucket
      exact Or.inr ⟨rest, by rw [hBucket]⟩

/-- A loop that ends goes on nowhere when the further events do not succeed. -/
theorem growChain_eq_nil {head head' : IdentityEvent} (hEnds : Ends P R identity extra head)
    (hSequence : head.sequence = head'.sequence) (hHead : R head head') {bySeq : List IdentityEvent}
    (hStuck : ∀ bucket rest, takeBucket (head.sequence + 1) bySeq = some (bucket, rest) →
      selectNext P identity head bucket = none) (rounds : Nat) :
    growChain P identity rounds (bySeq ++ extra) head' = [] := by
  cases rounds with
  | zero => rfl
  | succ rounds =>
      have hMore : ∀ t ∈ extra.filter (fun e => e.sequence == head.sequence + 1),
          t ∈ extra ∧ t.sequence = head.sequence + 1 := by
        intro t ht
        simpa using ht
      have hNext : ∀ bucket rest,
          takeBucket (head.sequence + 1) (bySeq ++ extra) = some (bucket, rest) →
            selectNext P identity head' bucket = none := by
        intro bucket rest hTake
        cases hOld : takeBucket (head.sequence + 1) bySeq with
        | none =>
            rcases takeBucket_append_of_none hOld extra with hNone | ⟨rest', hSome⟩
            · rw [hNone] at hTake
              cases hTake
            · obtain ⟨rfl, rfl⟩ := Prod.mk.inj (Option.some.inj (hTake.symm.trans hSome))
              exact hEnds head' hHead [] _ hMore rfl
        | some pair =>
            obtain ⟨bucket', rest'⟩ := pair
            rw [takeBucket_append hOld] at hTake
            obtain ⟨rfl, rfl⟩ := Prod.mk.inj (Option.some.inj hTake)
            exact hEnds head' hHead bucket' _ hMore (hStuck bucket' rest' hOld)
      simp only [growChain, ← hSequence]
      split
      · rfl
      · next bucket rest hTake => rw [hNext bucket rest hTake]

/-- The rounds of the loop are followed one by one: the loop with more candidates
takes related events for as long as the other one goes on, and ends with it if
nothing more succeeds. By induction on the rounds. -/
theorem growChain_append (hSequence : ∀ a b, R a b → a.sequence = b.sequence)
    (rounds rounds' : Nat) {bySeq extra : List IdentityEvent} {head head' : IdentityEvent}
    (hHead : R head head') (hRounds : bySeq.length ≤ rounds)
    (hRounds' : (bySeq ++ extra).length ≤ rounds')
    (hSteps : List.IsChain (Persists P R identity extra)
      (head :: growChain P identity rounds bySeq head)) :
    ∃ kept more, growChain P identity rounds' (bySeq ++ extra) head' = kept ++ more ∧
      List.Forall₂ R (growChain P identity rounds bySeq head) kept ∧
      ∀ last, (head :: growChain P identity rounds bySeq head).getLast? = some last →
        Ends P R identity extra last → more = [] := by
  induction rounds generalizing rounds' bySeq extra head head' with
  | zero =>
      obtain rfl : bySeq = [] := List.length_eq_zero_iff.mp (by omega)
      refine ⟨[], _, rfl, .nil, ?_⟩
      intro last hLast hEnds
      obtain rfl : head = last := Option.some.inj hLast
      exact growChain_eq_nil hEnds (hSequence _ _ hHead) hHead (fun _ _ h => by simp [takeBucket] at h) _
  | succ rounds ih =>
      have hStuck : growChain P identity (rounds + 1) bySeq head = [] →
          (∀ bucket rest, takeBucket (head.sequence + 1) bySeq = some (bucket, rest) →
            selectNext P identity head bucket = none) →
          ∃ kept more, growChain P identity rounds' (bySeq ++ extra) head' = kept ++ more ∧
            List.Forall₂ R (growChain P identity (rounds + 1) bySeq head) kept ∧
            ∀ last, (head :: growChain P identity (rounds + 1) bySeq head).getLast? = some last →
              Ends P R identity extra last → more = [] := by
        intro hNil hNone
        rw [hNil]
        refine ⟨[], _, rfl, .nil, ?_⟩
        intro last hLast hEnds
        obtain rfl : head = last := Option.some.inj hLast
        exact growChain_eq_nil hEnds (hSequence _ _ hHead) hHead hNone _
      cases hTake : takeBucket (head.sequence + 1) bySeq with
      | none =>
          apply hStuck
          · simp only [growChain, hTake]
          · intro bucket rest h
            rw [hTake] at h
            cases h
      | some pair =>
          obtain ⟨bucket, rest⟩ := pair
          cases hNext : selectNext P identity head bucket with
          | none =>
              apply hStuck
              · simp only [growChain, hTake, hNext]
              · intro bucket' rest' h
                obtain ⟨rfl, rfl⟩ := Prod.mk.inj (Option.some.inj (hTake.symm.trans h))
                exact hNext
          | some pair =>
              obtain ⟨next, reason⟩ := pair
              have hGrow : growChain P identity (rounds + 1) bySeq head =
                  next :: growChain P identity rounds rest next := by
                simp only [growChain, hTake, hNext]
              rw [hGrow, List.isChain_cons_cons] at hSteps
              obtain ⟨hFirst, hRest⟩ := hSteps
              have hLess := takeBucket_length_lt hTake
              have hMore : ∀ t ∈ extra.filter (fun e => e.sequence == head.sequence + 1),
                  t ∈ extra ∧ t.sequence = head.sequence + 1 := by
                intro t ht
                simpa using ht
              have hBucket : ∀ e ∈ bucket, e.sequence = head.sequence + 1 := by
                obtain ⟨-, rfl, -⟩ := takeBucket_eq_some hTake
                intro e he
                simpa using (List.mem_filter.mp he).2
              obtain ⟨next', reason', hNext', hRelated⟩ :=
                hFirst head' hHead bucket _ reason hBucket hMore hNext
              have hSub : extra.filter (fun e => e.sequence != head.sequence + 1) ⊆ extra :=
                fun e he => (List.mem_filter.mp he).1
              have hTake' := takeBucket_append hTake extra
              have hLess' := takeBucket_length_lt hTake'
              obtain ⟨rounds', rfl⟩ : ∃ n, rounds' = n + 1 := ⟨rounds' - 1, by omega⟩
              obtain ⟨kept, more, hEq, hKept, hEnd⟩ := ih rounds' hRelated (by omega) (by omega)
                (hRest.imp fun _ _ h => h.subset hSub)
              refine ⟨next' :: kept, more, ?_, ?_, ?_⟩
              · simp only [growChain, ← hSequence _ _ hHead, hTake', hNext', hEq, List.cons_append]
              · rw [hGrow]
                exact .cons hRelated hKept
              · intro last hLast hEnds
                rw [hGrow, List.getLast?_cons_cons] at hLast
                exact hEnd last hLast (hEnds.subset hSub)

/-- What is selected is justified, and nothing justified compares above it. -/
theorem selectNext_eq_some {head next : IdentityEvent} {reason : SuccessionReason}
    {bucket : List IdentityEvent} (h : selectNext P identity head bucket = some (next, reason)) :
    next ∈ bucket ∧ justifySuccession P identity head next = some reason ∧
      ∀ e ∈ bucket, ∀ other, justifySuccession P identity head e = some other →
        (compareSuccessors P (e, other) (next, reason)).isLE := by
  have hMem := Selection.maxBy_mem h
  simp only [List.mem_filterMap, Option.map_eq_some_iff, Prod.mk.injEq] at hMem
  obtain ⟨_, hBucket, _, hReason, rfl, rfl⟩ := hMem
  refine ⟨hBucket, hReason, ?_⟩
  intro e he other hOther
  apply Selection.maxBy_ge h
  simp only [List.mem_filterMap, Option.map_eq_some_iff, Prod.mk.injEq]
  exact ⟨e, he, other, hOther, rfl, rfl⟩

theorem selectNext_eq_none_iff {head : IdentityEvent} {bucket : List IdentityEvent} :
    selectNext P identity head bucket = none ↔
      ∀ e ∈ bucket, justifySuccession P identity head e = none := by
  simp [selectNext, Selection.maxBy_eq_none_iff, List.filterMap_eq_nil_iff]

/-- More events change nothing if none of them compares above the selected one, and
none but itself ties with it. -/
theorem selectNext_append {head next : IdentityEvent} {reason : SuccessionReason}
    {bucket more : List IdentityEvent} (h : selectNext P identity head bucket = some (next, reason))
    (hMore : ∀ t ∈ more, ∀ other, justifySuccession P identity head t = some other →
      (compareSuccessors P (t, other) (next, reason)).isLE ∧
        (compareSuccessors P (t, other) (next, reason) = .eq → (t, other) = (next, reason))) :
    selectNext P identity head (bucket ++ more) = some (next, reason) := by
  have hPairs : ∀ pair ∈ more.filterMap (fun c =>
      (justifySuccession P identity head c).map fun reason => (c, reason)),
      (compareSuccessors P pair (next, reason)).isLE ∧
        (compareSuccessors P pair (next, reason) = .eq → pair = (next, reason)) := by
    intro pair hPair
    simp only [List.mem_filterMap, Option.map_eq_some_iff] at hPair
    obtain ⟨t, ht, other, hOther, rfl⟩ := hPair
    exact hMore t ht other hOther
  unfold selectNext
  rw [List.filterMap_append]
  exact Selection.maxBy_append h (fun pair hPair => (hPairs pair hPair).1)
    (fun pair hPair => (hPairs pair hPair).2)

/-- The genesis event stays if no further valid one compares above it, and none but
itself ties with it. -/
theorem selectGenesis_append {genesis : IdentityEvent} {bucket more : List IdentityEvent}
    (h : selectGenesis P identity bucket = some genesis)
    (hMore : ∀ t ∈ more, t.document.deriveHexKey P = identity →
      t.signer ∈ t.document.rotationKeys → (compareSigners t.signer genesis.signer).isLE ∧
        (compareSigners t.signer genesis.signer = .eq → t = genesis)) :
    selectGenesis P identity (bucket ++ more) = some genesis := by
  have hOrder := compareSigners_on IdentityEvent.signer
  have hValid : ∀ t ∈ (more.filter fun c => c.document.deriveHexKey P == identity).filter
      fun c => c.document.authorizesRotation c.signer,
      (compareSigners t.signer genesis.signer).isLE ∧
        (compareSigners t.signer genesis.signer = .eq → t = genesis) := by
    intro t ht
    simp only [List.mem_filter, beq_iff_eq, Identity.authorizesRotation_iff] at ht
    exact hMore t ht.1.1 ht.1.2 ht.2
  unfold selectGenesis
  rw [List.filter_append, List.filter_append]
  exact Selection.maxBy_append h (fun t ht => (hValid t ht).1) (fun t ht => (hValid t ht).2)

/-- Resolution with more candidates, followed from the genesis on. -/
theorem resolveChain_append (hSequence : ∀ a b, R a b → a.sequence = b.sequence)
    {candidates further : List IdentityCandidate} {chain : IdentityChain}
    (h : resolveChain P identity candidates = some chain)
    (hGenesis : ∀ genesis ∈ chain.identityEvents.head?, ∀ bucket more,
      selectGenesis P identity bucket = some genesis →
      (∀ t ∈ more, t ∈ decodedEvents P identity further ∧ t.sequence = 1) →
      ∃ genesis', selectGenesis P identity (bucket ++ more) = some genesis' ∧ R genesis genesis')
    (hSteps : List.IsChain (Persists P R identity (decodedEvents P identity further))
      chain.identityEvents) :
    ∃ kept more, resolveChain P identity (candidates ++ further) = some ⟨kept ++ more⟩ ∧
      List.Forall₂ R chain.identityEvents kept ∧
      ∀ last, chain.latestEvent = some last →
        Ends P R identity (decodedEvents P identity further) last → more = [] := by
  let extra := decodedEvents P identity further
  simp only [resolveChain, Option.bind_eq_bind, Option.bind_eq_some_iff, Option.pure_def,
    Option.some.injEq, Prod.exists] at h
  obtain ⟨bucket, rest, hTake, genesis, hSelected, rfl⟩ := h
  have hMore : ∀ t ∈ extra.filter (fun e => e.sequence == 1), t ∈ extra ∧ t.sequence = 1 := by
    intro t ht
    simpa using ht
  have hSub : extra.filter (fun e => e.sequence != 1) ⊆ extra :=
    fun e he => (List.mem_filter.mp he).1
  obtain ⟨genesis', hSelected', hRelated⟩ := hGenesis genesis rfl bucket _ hSelected hMore
  obtain ⟨kept, more, hGrow, hKept, hEnd⟩ := growChain_append hSequence rest.length
    (rest ++ extra.filter fun e => e.sequence != 1).length hRelated le_rfl le_rfl
    (hSteps.imp fun _ _ h => h.subset hSub)
  refine ⟨genesis' :: kept, more, ?_, .cons hRelated hKept, ?_⟩
  · have hDecoded : (candidates ++ further).filterMap (preprocessCandidate P identity) =
        candidates.filterMap (preprocessCandidate P identity) ++ extra := List.filterMap_append
    simp only [resolveChain, hDecoded, takeBucket_append hTake, Option.bind_eq_bind,
      Option.bind_some, hSelected', hGrow, Option.pure_def, List.cons_append]
  · intro last hLast hEnds
    exact hEnd last hLast (hEnds.subset hSub)

end Loop

/-! ### Signing keys -/

/-- An event that has no say in the chain: its signer is a rotation key of no
document, and no recovery key signed for it. -/
structure Powerless (identity : String) (chain : List IdentityEvent) (t : IdentityEvent) : Prop where
  rotation : ∀ e ∈ chain, t.signer ∉ e.document.rotationKeys
  recovery : ∀ e ∈ chain, ∀ recoveryKey, e.document.recoveryKey = some recoveryKey →
    ∀ signature, t.document.recoverySignature = some signature →
      recoveryKey.sigMatches P signature (assembleRecoveryPayload identity t.signer) = false

/-- The same sequence, and documents that differ in the recovery signature at most. -/
def SameContent (a b : IdentityEvent) : Prop :=
  a.sequence = b.sequence ∧ a.document.content = b.document.content

section Signing

variable {P} {identity : String} {head head' t : IdentityEvent}

/-- Only the content of the head decides what may follow it. -/
theorem justifySuccession_congr (h : head.document.content = head'.document.content)
    (candidate : IdentityEvent) :
    justifySuccession P identity head candidate = justifySuccession P identity head' candidate := by
  have hContent := h
  simp only [Identity.content, IdentityContent.mk.injEq] at h
  obtain ⟨hRotation, hSigning, -, -, hRecovery⟩ := h
  have hRepublish : isRepublish head candidate = isRepublish head' candidate := by
    simp only [isRepublish, Identity.authorizesSigner, hRotation, hSigning, hContent]
  have hRotates : head.document.authorizesRotation candidate.signer =
      head'.document.authorizesRotation candidate.signer := by
    simp only [Identity.authorizesRotation, hRotation]
  unfold justifySuccession
  rw [hRotates, hRepublish, hRecovery]

/-- All that is open to a powerless event is to republish. -/
theorem Powerless.republishes {chain : List IdentityEvent} (h : Powerless P identity chain t)
    (hHead : head ∈ chain) {reason : SuccessionReason}
    (hJustified : justifySuccession P identity head t = some reason) : reason = .republish := by
  cases reason with
  | republish => rfl
  | rotation =>
      exact absurd (justifySuccession_eq_rotation_iff.mp hJustified) (h.rotation head hHead)
  | recovery =>
      obtain ⟨-, -, -, recoveryKey, signature, hKey, hSignature, hMatches⟩ :=
        justifySuccession_eq_recovery_iff.mp hJustified
      rw [h.recovery head hHead recoveryKey hKey signature hSignature] at hMatches
      cases hMatches

theorem content_of_republish (h : justifySuccession P identity head t = some .republish) :
    head.document.content = t.document.content :=
  (isRepublish_iff.mp (justifySuccession_isRepublish h)).2

theorem compareSuccessors_eq_lt {a b : IdentityEvent × SuccessionReason}
    (hSequence : a.1.sequence = b.1.sequence) (hRank : a.2.rank < b.2.rank) :
    compareSuccessors P a b = .lt := by
  have hTie : compare a.1.sequence b.1.sequence = .eq := by
    rw [hSequence]
    exact Std.ReflCmp.compare_self
  have hLt : compare a.2.rank b.2.rank = .lt := Nat.compare_eq_lt.mpr hRank
  simp only [compareSuccessors, hTie, hLt, Ordering.eq_then, Ordering.lt_then]

theorem rank_republish_lt {reason : SuccessionReason} (h : reason ≠ .republish) :
    SuccessionReason.republish.rank < reason.rank := by
  cases reason with
  | republish => exact absurd rfl h
  | recovery => decide
  | rotation => decide

/-- Against a rotation or a recovery a powerless event loses. Against a republish it
may win, and changes nothing. -/
theorem persists_sameContent {chain extra : List IdentityEvent} {next : IdentityEvent}
    (hExtra : ∀ t ∈ extra, Powerless P identity chain t) (hHead : head ∈ chain) :
    Persists P SameContent identity extra head next := by
  intro head' hAlike bucket more reason hBucket hMore hNext
  obtain ⟨hMem, hReason, hGreatest⟩ := selectNext_eq_some hNext
  have hJustify : ∀ e, justifySuccession P identity head e =
      justifySuccession P identity head' e := justifySuccession_congr hAlike.2
  have hSame : selectNext P identity head' bucket = selectNext P identity head bucket := by
    simp only [selectNext, hJustify]
  by_cases hRepublish : reason = .republish
  · subst hRepublish
    cases hNext' : selectNext P identity head' (bucket ++ more) with
    | none =>
        have hNone := selectNext_eq_none_iff.mp hNext' next (List.mem_append_left _ hMem)
        rw [← hJustify, hReason] at hNone
        cases hNone
    | some pair =>
        obtain ⟨next', reason'⟩ := pair
        obtain ⟨hMem', hReason', -⟩ := selectNext_eq_some hNext'
        rw [← hJustify] at hReason'
        have hFollows : next'.sequence = head.sequence + 1 ∧ reason' = .republish := by
          rcases List.mem_append.mp hMem' with hOld | hExtraMem
          · refine ⟨hBucket next' hOld, ?_⟩
            by_contra hStronger
            have hRank := rank_le_of_isLE ((hBucket next' hOld).trans (hBucket next hMem).symm)
              (hGreatest next' hOld reason' hReason')
            exact absurd (rank_republish_lt hStronger) (not_lt_of_ge hRank)
          · obtain ⟨ht, hSequence⟩ := hMore next' hExtraMem
            exact ⟨hSequence, (hExtra next' ht).republishes hHead hReason'⟩
        obtain ⟨hSequence, rfl⟩ := hFollows
        refine ⟨next', .republish, rfl, (hBucket next hMem).trans hSequence.symm, ?_⟩
        exact (content_of_republish hReason).symm.trans (content_of_republish hReason')
  · refine ⟨next, reason, selectNext_append (hSame.trans hNext) ?_, rfl, rfl⟩
    intro t ht other hOther
    obtain ⟨hTExtra, hSequence⟩ := hMore t ht
    obtain rfl := (hExtra t hTExtra).republishes hHead ((hJustify t).trans hOther)
    have hLt : compareSuccessors P (t, .republish) (next, reason) = .lt :=
      compareSuccessors_eq_lt (hSequence.trans (hBucket next hMem).symm) (rank_republish_lt hRepublish)
    rw [hLt]
    exact ⟨rfl, fun h => nomatch h⟩

end Signing

/-- Whatever signing keys add to the candidates, the chain keeps its steps, and
every step keeps the content of its document. -/
theorem signing_keys_cannot_rewrite (identity : String)
    (candidates further : List IdentityCandidate) (chain : IdentityChain)
    (hChain : resolveChain P identity candidates = some chain)
    (hPowerless : ∀ t ∈ decodedEvents P identity further,
      Powerless P identity chain.identityEvents t)
    (hEncode : Set.InjOn P.encodeIdentity
      {d | ∃ e ∈ decodedEvents P identity (candidates ++ further), e.document = d})
    (hHash : Set.InjOn P.sha256 (P.encodeIdentity ''
      {d | ∃ e ∈ decodedEvents P identity (candidates ++ further), e.document = d})) :
    ∃ chain', resolveChain P identity (candidates ++ further) = some chain' ∧
      (chain'.identityEvents.take chain.identityEvents.length).map
          (fun e => e.document.content) =
        chain.identityEvents.map fun e => e.document.content := by
  have hDigests := DigestsApart.of_injOn hEncode hHash
  have hAll : decodedEvents P identity (candidates ++ further) =
      decodedEvents P identity candidates ++ decodedEvents P identity further :=
    List.filterMap_append
  obtain ⟨first, tail, hEvents, hFirst, -, -⟩ := resolveChain_eq_some P hChain
  obtain ⟨kept, more, hResolved, hKept, -⟩ := resolveChain_append (R := SameContent)
    (fun a b h => h.1) hChain (by
      rintro genesis hHead bucket more hSelected hMore
      obtain rfl : first = genesis := by
        rw [hEvents] at hHead
        exact Option.some.inj hHead
      refine ⟨first, selectGenesis_append hSelected ?_, rfl, rfl⟩
      -- A genesis document is the one of the chain, and its rotation keys do not sign here.
      intro t ht hKey hRotates
      obtain ⟨hStored, -, hFirstKey, -⟩ := selectGenesis_spec hFirst
      have hSame := hDigests t (by rw [hAll]; exact List.mem_append_right _ (hMore t ht).1)
        first (by rw [hAll]; exact List.mem_append_left _ hStored) (hKey.trans hFirstKey.symm)
      rw [hSame] at hRotates
      exact absurd hRotates ((hPowerless t (hMore t ht).1).rotation first
        (by rw [hEvents]; exact List.mem_cons_self)))
    (by
      rw [List.isChain_iff_getElem]
      intro k hk
      exact persists_sameContent hPowerless (List.getElem_mem _))
  refine ⟨_, hResolved, ?_⟩
  rw [hKept.length_eq, List.take_left]
  symm
  rw [← List.forall₂_eq_eq_eq, List.forall₂_map_left_iff, List.forall₂_map_right_iff]
  exact hKept.imp fun a b h => h.2

/-! ### Revoked keys -/

/-- The event displaces no event of the chain: as a genesis it does not rank above
the one of the chain, and where its predecessor justifies it, it does not compare
above the event that follows there. -/
structure LosesTo (identity : String) (chain : List IdentityEvent) (t : IdentityEvent) : Prop where
  genesis : ∀ genesis, chain[0]? = some genesis → t.sequence = 1 →
    t.document.deriveHexKey P = identity → t.signer ∈ t.document.rotationKeys →
      compareSigners t.signer genesis.signer ≠ .gt
  step : ∀ k previous next, chain[k]? = some previous → chain[k + 1]? = some next →
    t.sequence = next.sequence → ∀ reason other,
      justifySuccession P identity previous next = some reason →
      justifySuccession P identity previous t = some other →
        compareSuccessors P (t, other) (next, reason) ≠ .gt

section Revoked

variable {P} {identity : String} {candidates : List IdentityCandidate} {chain : IdentityChain}

/-- The chain of a list of candidates has a place for none of them. -/
theorem losesTo_of_resolved (h : resolveChain P identity candidates = some chain)
    {t : IdentityEvent} (ht : t ∈ decodedEvents P identity candidates) :
    LosesTo P identity chain.identityEvents t := by
  obtain ⟨first, tail, hEvents, hFirst, hTail, -⟩ := resolveChain_eq_some P h
  rw [← hEvents] at hTail
  constructor
  · intro genesis hGenesis hSequence hKey hRotates
    obtain rfl : first = genesis := by
      rw [hEvents] at hGenesis
      exact Option.some.inj hGenesis
    have hOrder := compareSigners_on IdentityEvent.signer
    have hLE := Selection.maxBy_ge hFirst t (by
      simp only [List.mem_filter, beq_iff_eq, Identity.authorizesRotation_iff]
      exact ⟨⟨⟨ht, hSequence⟩, hKey⟩, hRotates⟩)
    exact Ordering.isLE_iff_ne_gt.mp hLE
  · intro k previous next hPrevious hNext hSequence reason other hReason hOther
    obtain ⟨reason', hSelect⟩ := isChain_adjacent hTail hPrevious hNext
    obtain ⟨hBucket, hReason', hGreatest⟩ := selectNext_eq_some hSelect
    obtain rfl := Option.some.inj (hReason.symm.trans hReason')
    have hFollows : next.sequence = previous.sequence + 1 := by
      simpa using (List.mem_filter.mp hBucket).2
    have hLE := hGreatest t
      (List.mem_filter.mpr ⟨ht, by simpa using hSequence.trans hFollows⟩) other hOther
    exact Ordering.isLE_iff_ne_gt.mp hLE

/-- Nothing that the head does not authorise and no recovery key vouches for can
follow the head. -/
theorem justifySuccession_eq_none {head t : IdentityEvent}
    (hRevoked : head.document.authorizesSigner t.signer = false)
    (hVouched : ∀ recoveryKey, head.document.recoveryKey = some recoveryKey →
      ∀ signature, t.document.recoverySignature = some signature →
        recoveryKey.sigMatches P signature (assembleRecoveryPayload identity t.signer) = false) :
    justifySuccession P identity head t = none := by
  have hNot : ¬(t.signer ∈ head.document.rotationKeys ∨ t.signer ∈ head.document.signingKeys) := by
    rw [← Identity.authorizesSigner_iff, hRevoked]
    exact Bool.false_ne_true
  cases hReason : justifySuccession P identity head t with
  | none => rfl
  | some reason =>
      rcases justifySuccession_succeeds hReason with hRotation | ⟨hSigner, -⟩ |
        ⟨-, recoveryKey, signature, hKey, hSignature, hMatches⟩
      · exact absurd (Or.inl hRotation) hNot
      · exact absurd hSigner hNot
      · rw [hVouched recoveryKey hKey signature hSignature] at hMatches
        cases hMatches

end Revoked

/-- Events of a key that the head no longer authorises leave the chain as it is
exactly if none of them displaces an event of the chain. -/
theorem revoked_key_inert_iff (identity : String) (candidates further : List IdentityCandidate)
    (chain : IdentityChain) (head : IdentityEvent) (revoked : PublicKey)
    (hChain : resolveChain P identity candidates = some chain)
    (hHead : chain.latestEvent = some head)
    (hRevoked : head.document.authorizesSigner revoked = false)
    (hSigned : ∀ t ∈ decodedEvents P identity further, t.signer = revoked)
    (hVouched : ∀ t ∈ decodedEvents P identity further,
      ∀ recoveryKey, head.document.recoveryKey = some recoveryKey →
      ∀ signature, t.document.recoverySignature = some signature →
        recoveryKey.sigMatches P signature (assembleRecoveryPayload identity revoked) = false)
    (hEncode : Set.InjOn P.encodeIdentity
      {d | ∃ e ∈ decodedEvents P identity (candidates ++ further), e.document = d})
    (hHash : Set.InjOn P.sha256 (P.encodeIdentity ''
      {d | ∃ e ∈ decodedEvents P identity (candidates ++ further), e.document = d})) :
    resolveChain P identity (candidates ++ further) = resolveChain P identity candidates ↔
      ∀ t ∈ decodedEvents P identity further, LosesTo P identity chain.identityEvents t := by
  have hAll : decodedEvents P identity (candidates ++ further) =
      decodedEvents P identity candidates ++ decodedEvents P identity further :=
    List.filterMap_append
  rw [hChain]
  constructor
  · intro hSame t ht
    exact losesTo_of_resolved hSame (by rw [hAll]; exact List.mem_append_right _ ht)
  · intro hLoses
    have hDigests := DigestsApart.of_injOn hEncode hHash
    rw [hAll] at hDigests
    obtain ⟨first, tail, hEvents, hFirst, hTail, -⟩ := resolveChain_eq_some P hChain
    rw [← hEvents] at hTail
    obtain ⟨hFirstMem, hFirstSequence, hFirstKey, -⟩ := selectGenesis_spec hFirst
    have hGenesisTie : ∀ t ∈ decodedEvents P identity further, t.sequence = 1 →
        t.document.deriveHexKey P = identity → compareSigners t.signer first.signer = .eq →
          t = first := by
      intro t ht hSequence hKey hTie
      have hSigner := compareSigners_eq hTie
      have hDocument := hDigests t (List.mem_append_right _ ht) first
        (List.mem_append_left _ hFirstMem) (hKey.trans hFirstKey.symm)
      cases t
      cases first
      simp_all
    have hStepTie : ∀ t ∈ decodedEvents P identity further, ∀ next ∈ decodedEvents P identity candidates,
        ∀ reason other, compareSuccessors P (t, other) (next, reason) = .eq →
          (t, other) = (next, reason) := by
      intro t ht next hNext reason other hTie
      obtain ⟨hSequence, hReason, hSigner, hDigest⟩ := compareSuccessors_eq P hTie
      have hDocument := hDigests t (List.mem_append_right _ ht) next
        (List.mem_append_left _ hNext) hDigest
      cases t
      cases next
      simp_all
    obtain ⟨kept, more, hResolved, hKept, hEnd⟩ := resolveChain_append (R := Eq)
      (fun a b h => by rw [h]) hChain (by
        rintro genesis hGenesis bucket more hSelected hMore
        obtain rfl : first = genesis := by
          rw [hEvents] at hGenesis
          exact Option.some.inj hGenesis
        refine ⟨first, selectGenesis_append hSelected ?_, rfl⟩
        intro t ht hKey hRotates
        obtain ⟨hFurther, hSequence⟩ := hMore t ht
        refine ⟨Ordering.isLE_iff_ne_gt.mpr ?_, hGenesisTie t hFurther hSequence hKey⟩
        exact (hLoses t hFurther).genesis first (by rw [hEvents]; rfl) hSequence hKey hRotates)
      (by
        rw [List.isChain_iff_getElem]
        rintro k hk _ rfl bucket more reason hBucket hMore hNext
        obtain ⟨hMem, hReason, -⟩ := selectNext_eq_some hNext
        refine ⟨_, reason, selectNext_append hNext ?_, rfl⟩
        intro t ht other hOther
        obtain ⟨hFurther, hSequence⟩ := hMore t ht
        have hAt := List.getElem?_eq_getElem (Nat.lt_of_succ_lt hk)
        have hAtNext := List.getElem?_eq_getElem hk
        obtain ⟨hStored, -, -⟩ := (isChain_adjacent hTail hAt hAtNext).spec
        refine ⟨Ordering.isLE_iff_ne_gt.mpr ?_, hStepTie t hFurther _ hStored reason other⟩
        exact (hLoses t hFurther).step k _ _ hAt hAtNext
          (hSequence.trans (hBucket _ hMem).symm) reason other hReason hOther)
    have hNil : more = [] := by
      refine hEnd head hHead ?_
      rintro _ rfl bucket more hMore hNone
      rw [selectNext_eq_none_iff] at hNone ⊢
      intro e he
      rcases List.mem_append.mp he with hOld | hNew
      · exact hNone e hOld
      · obtain ⟨hFurther, -⟩ := hMore e hNew
        have hSigner := hSigned e hFurther
        apply justifySuccession_eq_none
        · rwa [hSigner]
        · rw [hSigner]
          exact hVouched e hFurther
    rw [List.forall₂_eq_eq_eq] at hKept
    rw [hResolved, hNil, List.append_nil, ← hKept]

end Polycentric

namespace Polycentric.TableInstance

open Proto

/-! Two rotation keys and a signing key. `key 1` drops `key 2`. -/

def coGenesis : Identity := document [key 1, key 2] [key 3]

def coIdentity : String := identityOf coGenesis

/-- Event `[2]` drops `key 2`. Events `[3]` and `[5]` are of `key 2`, at the same
sequence and after it, and `[4]` republishes the genesis under the signing key. -/
def coPrimitives : Primitives := primitives
  [([1], event Collections.identity coIdentity (key 1) 1 [] [11]),
    ([2], event Collections.identity coIdentity (key 1) 2 [] [12]),
    ([3], event Collections.identity coIdentity (key 2) 2 [] [13]),
    ([4], event Collections.identity coIdentity (key 3) 2 [] [11]),
    ([5], event Collections.identity coIdentity (key 2) 3 [] [13])]
  [([11], ⟨some (.identity coGenesis)⟩), ([12], ⟨some (.identity (document [key 1] [key 3]))⟩),
    ([13], ⟨some (.identity (document [key 2] []))⟩)]

def coCandidates : List IdentityCandidate := [candidate [1] [11] (key 1), candidate [2] [12] (key 1)]

def coChain : IdentityChain :=
  ⟨[⟨1, key 1, coGenesis⟩, ⟨2, key 1, document [key 1] [key 3]⟩]⟩

theorem coCandidates_resolved :
    resolveChain coPrimitives coIdentity coCandidates = some coChain := by
  decide +kernel

/-- Documents of finitely many events that encode and hash apart. -/
theorem injOn_documents {Image : Type} {f : Identity → Image} {events : List IdentityEvent}
    (h : ∀ a ∈ events, ∀ b ∈ events, f a.document = f b.document → a.document = b.document) :
    Set.InjOn f {d | ∃ e ∈ events, e.document = d} := by
  rintro _ ⟨a, ha, rfl⟩ _ ⟨b, hb, rfl⟩ hEq
  exact h a ha b hb hEq

theorem injOn_encodings {events : List IdentityEvent} {P : Primitives}
    (h : ∀ a ∈ events, ∀ b ∈ events, P.sha256 (P.encodeIdentity a.document) =
      P.sha256 (P.encodeIdentity b.document) →
        P.encodeIdentity a.document = P.encodeIdentity b.document) :
    Set.InjOn P.sha256 (P.encodeIdentity '' {d | ∃ e ∈ events, e.document = d}) := by
  rintro _ ⟨_, ⟨a, ha, rfl⟩, rfl⟩ _ ⟨_, ⟨b, hb, rfl⟩, rfl⟩ hEq
  exact h a ha b hb hEq

end Polycentric.TableInstance

namespace Polycentric

open TableInstance Proto

/-- The signing key republishes the genesis at the sequence of the update. -/
theorem signing_keys_cannot_rewrite_republish :
    ∃ chain', resolveChain coPrimitives coIdentity (coCandidates ++ [candidate [4] [11] (key 3)]) =
        some chain' ∧
      (chain'.identityEvents.take 2).map (fun e => e.document.content) =
        coChain.identityEvents.map fun e => e.document.content := by
  have hFurther : decodedEvents coPrimitives coIdentity [candidate [4] [11] (key 3)] =
      [⟨2, key 3, coGenesis⟩] := by
    decide +kernel
  refine signing_keys_cannot_rewrite coPrimitives coIdentity coCandidates
    [candidate [4] [11] (key 3)] coChain coCandidates_resolved ?_
    (injOn_documents (by decide +kernel)) (injOn_encodings (by decide +kernel))
  rw [hFurther]
  intro t ht
  obtain rfl := List.mem_singleton.mp ht
  refine ⟨by decide +kernel, ?_⟩
  intro e _ recoveryKey _ signature hSignature
  cases hSignature

/-- What `key 2` publishes after its removal does not follow on the chain. -/
theorem revoked_key_inert_late :
    resolveChain coPrimitives coIdentity (coCandidates ++ [candidate [5] [13] (key 2)]) =
      resolveChain coPrimitives coIdentity coCandidates := by
  have hFurther : decodedEvents coPrimitives coIdentity [candidate [5] [13] (key 2)] =
      [⟨3, key 2, document [key 2] []⟩] := by
    decide +kernel
  refine (revoked_key_inert_iff coPrimitives coIdentity coCandidates [candidate [5] [13] (key 2)]
    coChain ⟨2, key 1, document [key 1] [key 3]⟩ (key 2) coCandidates_resolved rfl (by decide +kernel)
    ?_ ?_ (injOn_documents (by decide +kernel)) (injOn_encodings (by decide +kernel))).mpr ?_
  · rw [hFurther]
    intro t ht
    rw [List.mem_singleton.mp ht]
  · intro t _ recoveryKey hKey
    cases hKey
  · rw [hFurther]
    intro t ht
    obtain rfl := List.mem_singleton.mp ht
    constructor
    · intro genesis _ hSequence
      exact absurd hSequence (by decide)
    · intro k previous next hPrevious hNext hSequence
      have hLate : ∀ e ∈ coChain.identityEvents, (3 : UInt64) ≠ e.sequence := by decide +kernel
      exact absurd hSequence (hLate next (List.mem_of_getElem? hNext))

/-- The head does not authorise `key 2`, and no document has a recovery signature.
Yet an update of `key 2` at the sequence of its removal ranks above the removal, and
takes the identity over. -/
theorem revoked_key_takes_over :
    resolveChain coPrimitives coIdentity coCandidates = some coChain ∧
      (∀ head, coChain.latestEvent = some head →
        head.document.authorizesSigner (key 2) = false) ∧
      (∀ e ∈ decodedEvents coPrimitives coIdentity (coCandidates ++ [candidate [3] [13] (key 2)]),
        e.document.recoverySignature = none) ∧
      resolveChain coPrimitives coIdentity (coCandidates ++ [candidate [3] [13] (key 2)]) =
        some ⟨[⟨1, key 1, coGenesis⟩, ⟨2, key 2, document [key 2] []⟩]⟩ ∧
      resolveChain coPrimitives coIdentity (coCandidates ++ [candidate [3] [13] (key 2)]) ≠
        resolveChain coPrimitives coIdentity coCandidates := by
  refine ⟨coCandidates_resolved, ?_, by decide +kernel, by decide +kernel, by decide +kernel⟩
  rintro head ⟨⟩
  decide +kernel

end Polycentric
