import Polycentric.Common.ChainAgreement
import Polycentric.Library.Result

/-! Safety of a resolved chain against an adversary who chooses every candidate.
The properties are stated over the steps of the chain and the candidates they
come from; nothing is assumed about hashing or signatures. -/
namespace Polycentric

open Proto

variable (P : Primitives)

/-- What a candidate shows when it counts as `step`: the event names the identity
and the signer, the signature over the event verifies under that signer, and the
content is a document whose digest the event carries. -/
def Attests (identity : String) (candidate : IdentityCandidate) (step : IdentityEvent) : Prop :=
  ∃ event contentDigest, P.decodeEvent candidate.eventBytes = .ok event ∧
    event.key = some ⟨Collections.identity, identity, some step.signer, step.sequence⟩ ∧
    event.contentDigest = some contentDigest ∧
    P.decodeContent candidate.contentBytes = .ok ⟨some (.identity step.document)⟩ ∧
    step.signer.sigMatches P candidate.signature candidate.eventBytes = true ∧
    contentDigest.verifyAgainst P candidate.contentBytes = .ok ()

/-- Who may put `next` after `previous`: a rotation key, any authorised signer
who changes nothing, or a key vouched for by the recovery key. -/
def Succeeds (identity : String) (previous next : IdentityEvent) : Prop :=
  next.signer ∈ previous.document.rotationKeys ∨
  ((next.signer ∈ previous.document.rotationKeys ∨ next.signer ∈ previous.document.signingKeys) ∧
    next.document.content = previous.document.content) ∨
  (next.signer ∈ next.document.rotationKeys ∧
    ∃ recoveryKey signature, previous.document.recoveryKey = some recoveryKey ∧
      next.document.recoverySignature = some signature ∧
      recoveryKey.sigMatches P signature (assembleRecoveryPayload identity next.signer) = true)

/-- The guarantees of a resolved chain. Positions count from 0, sequences from
1; the successor of a position is taken in `u64`. -/
structure ChainSafe (identity : String) (candidates : List IdentityCandidate)
    (chain : List IdentityEvent) : Prop where
  genesis : ∃ first, chain[0]? = some first ∧ first.sequence = 1 ∧
    first.document.deriveHexKey P = identity ∧ first.signer ∈ first.document.rotationKeys
  sequence : ∀ k step, chain[k]? = some step → step.sequence = UInt64.ofNat (k + 1)
  attested : ∀ step ∈ chain, ∃ candidate ∈ candidates, Attests P identity candidate step
  succession : ∀ k previous next, chain[k]? = some previous → chain[k + 1]? = some next →
    Succeeds P identity previous next
  republish : ∀ k previous next, chain[k]? = some previous → chain[k + 1]? = some next →
    justifySuccession P identity previous next = some .republish →
    ∀ candidate ∈ candidates, ∀ rival, Attests P identity candidate rival →
      rival.sequence = next.sequence →
      justifySuccession P identity previous rival ≠ some .rotation ∧
        justifySuccession P identity previous rival ≠ some .recovery

variable {P}

/-- A candidate is kept exactly when it attests the event it is decoded to. -/
theorem preprocessCandidate_eq_some_iff {identity : String} {candidate : IdentityCandidate}
    {step : IdentityEvent} :
    preprocessCandidate P identity candidate = some step ↔ Attests P identity candidate step := by
  unfold preprocessCandidate Attests
  constructor
  · intro h
    simp only [Option.bind_eq_bind, Option.bind_eq_some_iff, Result.toOption_eq_some_iff] at h
    obtain ⟨event, hEvent, eventKey, hKey, signer, hSigner, contentDigest, hDigest, h⟩ := h
    split at h
    · simp at h
    · next hNames =>
        simp only [not_or, not_not] at hNames
        obtain ⟨hIdentity, hCollection⟩ := hNames
        simp only [Option.bind_eq_some_iff, Result.toOption_eq_some_iff] at h
        obtain ⟨content, hContent, body, hBody, h⟩ := h
        split at h
        · next document =>
            rw [Option.bind_some] at h
            split at h
            · simp at h
            · next hSignature =>
                simp only [Option.bind_eq_some_iff, Result.toOption_eq_some_iff, Option.pure_def,
                  Option.some.injEq] at h
                obtain ⟨_, hVerify, rfl⟩ := h
                obtain ⟨collection, name, signedBy, sequence⟩ := eventKey
                cases content
                simp_all
        · simp at h
  · rintro ⟨event, contentDigest, hEvent, hKey, hDigest, hContent, hSignature, hVerify⟩
    simp [hEvent, hKey, hDigest, hContent, hSignature, hVerify, Except.toOption]

/-! ### The reasons of a succession -/

theorem justifySuccession_eq_rotation_iff {identity : String} {head next : IdentityEvent} :
    justifySuccession P identity head next = some .rotation ↔
      next.signer ∈ head.document.rotationKeys := by
  unfold justifySuccession
  split
  · next h => simpa using h
  · next h =>
      have hNot : next.signer ∉ head.document.rotationKeys := by simpa using h
      simp only [hNot, iff_false]
      split
      · simp
      · split
        · simp
        · simp only [Option.bind_eq_bind, Option.bind_eq_some_iff, not_exists, not_and]
          intro key _ signature _
          split <;> simp

/-- A succession by recovery: no weaker reason applies, and the recovery key of
the head signed for the candidate's signer. -/
theorem justifySuccession_eq_recovery_iff {identity : String} {head next : IdentityEvent} :
    justifySuccession P identity head next = some .recovery ↔
      next.signer ∉ head.document.rotationKeys ∧ isRepublish head next = false ∧
      next.signer ∈ next.document.rotationKeys ∧
      ∃ recoveryKey signature, head.document.recoveryKey = some recoveryKey ∧
        next.document.recoverySignature = some signature ∧
        recoveryKey.sigMatches P signature
          (assembleRecoveryPayload identity next.signer) = true := by
  unfold justifySuccession
  split
  · next h =>
      have hMem : next.signer ∈ head.document.rotationKeys := by simpa using h
      simp [hMem]
  · next h =>
      have hNot : next.signer ∉ head.document.rotationKeys := by simpa using h
      split
      · next hRepublish => simp [hRepublish]
      · next hRepublish =>
          split
          · next hSelf =>
              have hNotSelf : next.signer ∉ next.document.rotationKeys := by simpa using hSelf
              simp [hNotSelf]
          · next hSelf =>
              have hMemSelf : next.signer ∈ next.document.rotationKeys := by simpa using hSelf
              simp [hNot, hRepublish, hMemSelf, Option.bind_eq_some_iff]

theorem justifySuccession_isRepublish {identity : String} {head next : IdentityEvent}
    (h : justifySuccession P identity head next = some .republish) :
    isRepublish head next = true := by
  unfold justifySuccession at h
  split at h
  · simp at h
  · split at h
    · assumption
    · split at h
      · simp at h
      · simp only [Option.bind_eq_bind, Option.bind_eq_some_iff] at h
        obtain ⟨key, -, signature, -, h⟩ := h
        split at h <;> simp at h

/-- A justified successor meets the rule of its reason. -/
theorem justifySuccession_succeeds {identity : String} {head next : IdentityEvent}
    {reason : SuccessionReason} (h : justifySuccession P identity head next = some reason) :
    Succeeds P identity head next := by
  cases reason with
  | rotation => exact Or.inl (justifySuccession_eq_rotation_iff.mp h)
  | republish =>
      obtain ⟨hSigner, hContent⟩ := isRepublish_iff.mp (justifySuccession_isRepublish h)
      exact Or.inr (Or.inl ⟨hSigner, hContent.symm⟩)
  | recovery =>
      obtain ⟨-, -, hSelf, hRecovery⟩ := justifySuccession_eq_recovery_iff.mp h
      exact Or.inr (Or.inr ⟨hSelf, hRecovery⟩)

/-! ### One round of the loop -/

/-- Among events of one sequence the reasons are compared first. -/
theorem rank_le_of_isLE {a b : IdentityEvent × SuccessionReason}
    (hSequence : a.1.sequence = b.1.sequence) (h : (compareSuccessors P a b).isLE) :
    a.2.rank ≤ b.2.rank := by
  have hTie : compare a.1.sequence b.1.sequence = .eq := by
    rw [hSequence]
    exact Std.ReflCmp.compare_self
  simp only [compareSuccessors, hTie, Ordering.eq_then] at h
  by_contra hLt
  have hGt : compare a.2.rank b.2.rank = .gt := Nat.compare_eq_gt.mpr (Nat.lt_of_not_le hLt)
  simp [hGt] at h

/-- The selected successor follows its head, is justified, and no candidate of
its sequence has a stronger reason. -/
theorem Extends.spec {identity : String} {events : List IdentityEvent} {head next : IdentityEvent}
    (h : Extends P identity events head next) :
    next ∈ events ∧ next.sequence = head.sequence + 1 ∧
      ∃ reason, justifySuccession P identity head next = some reason ∧
        ∀ rival ∈ events, rival.sequence = head.sequence + 1 →
          ∀ other, justifySuccession P identity head rival = some other →
            other.rank ≤ reason.rank := by
  obtain ⟨reason, hSelect⟩ := h
  have hMem := Selection.maxBy_mem hSelect
  simp only [List.mem_filterMap, List.mem_filter, beq_iff_eq, Option.map_eq_some_iff,
    Prod.mk.injEq] at hMem
  obtain ⟨e, ⟨hEvents, hSequence⟩, _, hReason, rfl, rfl⟩ := hMem
  refine ⟨hEvents, hSequence, _, hReason, ?_⟩
  intro rival hRival hRivalSequence other hOther
  have hLE := Selection.maxBy_ge hSelect (rival, other) (by
    simp only [List.mem_filterMap, List.mem_filter, beq_iff_eq, Option.map_eq_some_iff,
      Prod.mk.injEq]
    exact ⟨rival, ⟨hRival, hRivalSequence⟩, other, hOther, rfl, rfl⟩)
  exact rank_le_of_isLE (hRivalSequence.trans hSequence.symm) hLE

/-- A genesis event of sequence 1, selected among the candidates. -/
theorem selectGenesis_spec {identity : String} {events : List IdentityEvent}
    {genesis : IdentityEvent}
    (h : selectGenesis P identity (events.filter fun e => e.sequence == 1) = some genesis) :
    genesis ∈ events ∧ genesis.sequence = 1 ∧ genesis.document.deriveHexKey P = identity ∧
      genesis.signer ∈ genesis.document.rotationKeys := by
  have hMem := Selection.maxBy_mem h
  simp only [List.mem_filter, beq_iff_eq, Identity.authorizesRotation_iff] at hMem
  exact ⟨hMem.1.1.1, hMem.1.1.2, hMem.1.2, hMem.2⟩

/-- Adjacent positions of a chain are related. -/
theorem isChain_adjacent {α : Type*} {R : α → α → Prop} {l : List α} (h : List.IsChain R l)
    {k : Nat} {a b : α} (ha : l[k]? = some a) (hb : l[k + 1]? = some b) : R a b := by
  obtain ⟨_, rfl⟩ := List.getElem?_eq_some_iff.mp ha
  obtain ⟨hk, rfl⟩ := List.getElem?_eq_some_iff.mp hb
  exact List.isChain_iff_getElem.mp h k hk

theorem mem_decodedEvents {identity : String} {candidates : List IdentityCandidate}
    {step : IdentityEvent} : step ∈ decodedEvents P identity candidates ↔
      ∃ candidate ∈ candidates, Attests P identity candidate step := by
  simp only [decodedEvents, List.mem_filterMap, preprocessCandidate_eq_some_iff]

variable (P)

/-- Every chain that resolution returns is safe, whoever chose the candidates. -/
theorem resolveChain_chainSafe (identity : String) (candidates : List IdentityCandidate)
    (chain : IdentityChain) (h : resolveChain P identity candidates = some chain) :
    ChainSafe P identity candidates chain.identityEvents := by
  obtain ⟨genesis, tail, hEvents, hGenesis, hChain, -⟩ := resolveChain_eq_some P h
  obtain ⟨hMem, hFirst, hKey, hSelf⟩ := selectGenesis_spec hGenesis
  rw [hEvents]
  have hStep : ∀ {k previous next}, (genesis :: tail)[k]? = some previous →
      (genesis :: tail)[k + 1]? = some next →
      Extends P identity (decodedEvents P identity candidates) previous next :=
    fun hp hn => isChain_adjacent hChain hp hn
  refine ⟨⟨genesis, rfl, hFirst, hKey, hSelf⟩, ?_, ?_, ?_, ?_⟩
  · intro k
    induction k with
    | zero =>
        rintro step hAt
        obtain rfl : genesis = step := by simpa using hAt
        exact hFirst
    | succ k ih =>
        intro step hAt
        have hLt : k < (genesis :: tail).length := by
          have := (List.getElem?_eq_some_iff.mp hAt).1
          omega
        have hPrevious := List.getElem?_eq_getElem hLt
        obtain ⟨-, hSequence, -⟩ := (hStep hPrevious hAt).spec
        rw [hSequence, ih _ hPrevious]
        exact (UInt64.ofNat_add (k + 1) 1).symm
  · intro step hStepMem
    obtain ⟨k, hk, hAt⟩ := List.getElem_of_mem hStepMem
    refine mem_decodedEvents.mp ?_
    cases k with
    | zero =>
        obtain rfl : genesis = step := hAt
        exact hMem
    | succ k =>
        have hPrevious := List.getElem?_eq_getElem (Nat.lt_of_succ_lt hk)
        exact (hStep hPrevious (List.getElem?_eq_some_iff.mpr ⟨hk, hAt⟩)).spec.1
  · intro k previous next hp hn
    obtain ⟨-, -, reason, hReason, -⟩ := (hStep hp hn).spec
    exact justifySuccession_succeeds hReason
  · intro k previous next hp hn hRepublish candidate hCandidate rival hAttests hRival
    obtain ⟨-, hSequence, reason, hReason, hBest⟩ := (hStep hp hn).spec
    obtain rfl : reason = .republish := Option.some.inj (hReason.symm.trans hRepublish)
    have hRank := hBest rival (mem_decodedEvents.mpr ⟨candidate, hCandidate, hAttests⟩)
      (hRival.trans hSequence)
    constructor
    · intro hRotation
      exact absurd (hRank _ hRotation) (by decide)
    · intro hRecovery
      exact absurd (hRank _ hRecovery) (by decide)

open TableInstance

theorem resolveChain_chainSafe_alice :
    resolveChain alicePrimitives aliceIdentity [successorCandidate, genesisCandidate] =
      some ⟨[⟨1, key 1, genesis⟩, ⟨2, key 1, successor⟩]⟩ ∧
    ChainSafe alicePrimitives aliceIdentity [successorCandidate, genesisCandidate]
      [⟨1, key 1, genesis⟩, ⟨2, key 1, successor⟩] := by
  have hResolve : resolveChain alicePrimitives aliceIdentity
      [successorCandidate, genesisCandidate] =
      some ⟨[⟨1, key 1, genesis⟩, ⟨2, key 1, successor⟩]⟩ := by decide +kernel
  exact ⟨hResolve, resolveChain_chainSafe _ _ _ _ hResolve⟩

end Polycentric
