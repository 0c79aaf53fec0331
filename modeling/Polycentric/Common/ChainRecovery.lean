import Polycentric.Common.ChainSafety

/-! Replaying a recovery signature. The signature covers the identity and the key
that takes over, nothing of the chain, so it stays good for as long as the head
of the chain names the recovery key that made it. -/
namespace Polycentric

open Proto

variable (P : Primitives)

/-- The signature is bound to one key and one message among those given. Strict
Ed25519 verification binds every signature in this way. -/
def SignatureBound (signature : Bytes) (keys messages : Set Bytes) : Prop :=
  ∀ k ∈ keys, ∀ k' ∈ keys, ∀ m ∈ messages, ∀ m' ∈ messages,
    P.verifyStrict k m signature = true → P.verifyStrict k' m' signature = true → k = k' ∧ m = m'

/-- The step at position `k + 1` entered by recovery. -/
structure RecoveredAt (identity : String) (chain : IdentityChain) (k : Nat)
    (previous step : IdentityEvent) : Prop where
  atPrevious : chain.identityEvents[k]? = some previous
  atStep : chain.identityEvents[k + 1]? = some step
  recovery : justifySuccession P identity previous step = some .recovery

/-- The absence of replay, for a whole chain: after a recovered key was dropped,
a signature seen earlier in the chain does not recover it again. -/
def NoRecoveryReplay (identity : String) (chain : IdentityChain) : Prop :=
  ∀ k previous step, RecoveredAt P identity chain k previous step →
    (∃ j later, k + 1 < j ∧ chain.identityEvents[j]? = some later ∧
      step.signer ∉ later.document.rotationKeys) →
    ∀ head, chain.latestEvent = some head →
    ∀ candidate earlier, candidate.signer = step.signer →
      earlier ∈ chain.identityEvents → earlier.document.recoverySignature.isSome = true →
      candidate.document.recoverySignature = earlier.document.recoverySignature →
      justifySuccession P identity head candidate ≠ some .recovery

theorem toBeBytes_injective : Function.Injective toBeBytes := by
  intro a b h
  simp only [toBeBytes, List.cons.injEq, and_true, ← UInt8.toNat_inj, UInt32.toNat_toUInt8,
    UInt32.toNat_shiftRight, UInt32.reduceToNat, Nat.reduceMod, Nat.shiftRight_eq_div_pow,
    Nat.reducePow] at h
  have ha := a.toUInt32.toNat_lt
  have hb := b.toUInt32.toNat_lt
  have hNat : a.toUInt32.toNat = b.toUInt32.toNat := by omega
  exact congrArg Int32.ofUInt32 (UInt32.toNat_inj.mp hNat)

/-- For one identity, the payload determines the key it vouches for. -/
theorem assembleRecoveryPayload_injective (identity : String) :
    Function.Injective (assembleRecoveryPayload identity) := by
  intro a b h
  simp only [assembleRecoveryPayload, List.append_assoc, List.append_cancel_left_eq] at h
  obtain ⟨hType, hKey⟩ := List.append_inj h rfl
  cases a
  cases b
  rw [PublicKey.mk.injEq]
  exact ⟨toBeBytes_injective hType, hKey⟩

variable {P}

/-- A verified signature passed the strict check, under an Ed25519 key. -/
theorem Proto.PublicKey.sigMatches_spec {publicKey : PublicKey} {sig msg : Bytes}
    (h : publicKey.sigMatches P sig msg = true) :
    publicKey.keyType = keyTypeEd25519 ∧ P.verifyStrict publicKey.key msg sig = true := by
  unfold PublicKey.sigMatches at h
  split at h
  · next hType =>
      refine ⟨hType, ?_⟩
      unfold verifyEd25519Signature at h
      split_ifs at h
      all_goals simp_all [Except.isOk, Except.toBool]
  · cases h

variable (P)

/-- A signature that brought a key into the chain is accepted again exactly from
the same key, while the head names the recovery key of that time. -/
theorem recovery_replay_iff (identity : String) (chain : IdentityChain) (k : Nat)
    (previous step head candidate : IdentityEvent)
    (hRecovered : RecoveredAt P identity chain k previous step)
    (hHead : chain.latestEvent = some head)
    (hReplay : candidate.document.recoverySignature = step.document.recoverySignature)
    (hBound : ∀ signature ∈ step.document.recoverySignature, SignatureBound P signature
      {bytes | ∃ e ∈ chain.identityEvents, ∃ recoveryKey ∈ e.document.recoveryKey,
        recoveryKey.key = bytes}
      {assembleRecoveryPayload identity step.signer,
        assembleRecoveryPayload identity candidate.signer}) :
    justifySuccession P identity head candidate = some .recovery ↔
      candidate.signer = step.signer ∧
      head.document.recoveryKey = previous.document.recoveryKey ∧
      candidate.signer ∈ candidate.document.rotationKeys ∧
      candidate.signer ∉ head.document.rotationKeys ∧ isRepublish head candidate = false := by
  obtain ⟨-, -, -, recoveryKey, signature, hKey, hSignature, hMatches⟩ :=
    justifySuccession_eq_recovery_iff.mp hRecovered.recovery
  rw [justifySuccession_eq_recovery_iff]
  constructor
  · rintro ⟨hDropped, hFresh, hSelf, recoveryKey', signature', hKey', hSignature', hMatches'⟩
    obtain rfl : signature' = signature := by
      rw [hReplay, hSignature] at hSignature'
      exact (Option.some.inj hSignature').symm
    obtain ⟨hType, hStrict⟩ := PublicKey.sigMatches_spec hMatches
    obtain ⟨hType', hStrict'⟩ := PublicKey.sigMatches_spec hMatches'
    have hPrevious := List.mem_of_getElem? hRecovered.atPrevious
    have hHeadMem : head ∈ chain.identityEvents := List.mem_of_getLast? hHead
    obtain ⟨hBytes, hPayload⟩ := hBound signature' (by rw [hSignature]; rfl)
      _ ⟨previous, hPrevious, recoveryKey, hKey, rfl⟩
      _ ⟨head, hHeadMem, recoveryKey', hKey', rfl⟩ _ (by simp) _ (by simp) hStrict hStrict'
    have hSameKey : recoveryKey' = recoveryKey := by
      cases recoveryKey
      cases recoveryKey'
      simp_all
    refine ⟨assembleRecoveryPayload_injective identity hPayload.symm, ?_, hSelf, hDropped, hFresh⟩
    rw [hKey', hKey, hSameKey]
  · rintro ⟨hSigner, hSameKey, hSelf, hDropped, hFresh⟩
    refine ⟨hDropped, hFresh, hSelf, recoveryKey, signature, hSameKey.trans hKey,
      hReplay.trans hSignature, ?_⟩
    rw [hSigner]
    exact hMatches

namespace TableInstance

/-! A phone is lost, a new key `key 2` recovers the identity, hands it back to
`key 1` and is dropped; the recovery key stays the same throughout. -/

def recoverable (rotation : PublicKey) (signature : Option Bytes) : Identity where
  rotationKeys := [rotation]
  signingKeys := []
  revocationBounds := []
  servers := none
  recoveryKey := some (key 9)
  recoverySignature := signature

def bobIdentity : String := identityOf (recoverable (key 1) none)

/-- The recovery key vouches for `key 2`. -/
def vouched : Bytes := sign (key 9).key (assembleRecoveryPayload bobIdentity (key 2))

def bobPrimitives : Primitives := primitives
  [([1], event Collections.identity bobIdentity (key 1) 1 [] [11]),
    ([2], event Collections.identity bobIdentity (key 2) 2 [] [12]),
    ([3], event Collections.identity bobIdentity (key 2) 3 [] [13])]
  [([11], ⟨some (.identity (recoverable (key 1) none))⟩),
    ([12], ⟨some (.identity (recoverable (key 2) (some vouched)))⟩),
    ([13], ⟨some (.identity (recoverable (key 1) none))⟩)]

def bobCandidates : List IdentityCandidate :=
  [candidate [1] [11] (key 1), candidate [2] [12] (key 2), candidate [3] [13] (key 2)]

def bobChain : IdentityChain where
  identityEvents := [⟨1, key 1, recoverable (key 1) none⟩,
    ⟨2, key 2, recoverable (key 2) (some vouched)⟩, ⟨3, key 2, recoverable (key 1) none⟩]

/-- `key 2` presents its old signature once more. -/
def bobReplay : IdentityEvent := ⟨4, key 2, recoverable (key 2) (some vouched)⟩

end TableInstance

open TableInstance

/-- The chain resolves, and the dropped key is justified again with the signature
of its first recovery. -/
theorem recovery_replay_bob :
    resolveChain bobPrimitives bobIdentity bobCandidates = some bobChain ∧
      ¬NoRecoveryReplay bobPrimitives bobIdentity bobChain := by
  refine ⟨by decide +kernel, ?_⟩
  intro hNoReplay
  exact hNoReplay 0 _ _ ⟨rfl, rfl, by decide +kernel⟩
    ⟨2, ⟨3, key 2, recoverable (key 1) none⟩, by decide, rfl, by decide⟩ _ rfl bobReplay
    ⟨2, key 2, recoverable (key 2) (some vouched)⟩ rfl (by simp [bobChain]) rfl rfl
    (by decide +kernel)

theorem recovery_replay_iff_bob :
    justifySuccession bobPrimitives bobIdentity ⟨3, key 2, recoverable (key 1) none⟩ bobReplay =
      some .recovery := by
  refine (recovery_replay_iff bobPrimitives bobIdentity bobChain 0 _ _ _ bobReplay
    ⟨rfl, rfl, by decide +kernel⟩ rfl rfl ?_).mpr
    ⟨rfl, rfl, by decide, by decide, by decide⟩
  intro signature hSignature k hk k' hk' m hm m' hm' _ _
  have hKeys : ∀ bytes, (∃ e ∈ bobChain.identityEvents, ∃ recoveryKey ∈ e.document.recoveryKey,
      recoveryKey.key = bytes) → bytes = (key 9).key := by
    simp [bobChain, recoverable]
  have hMessages : ∀ bytes ∈ ({assembleRecoveryPayload bobIdentity (key 2),
      assembleRecoveryPayload bobIdentity bobReplay.signer} : Set Bytes),
      bytes = assembleRecoveryPayload bobIdentity (key 2) := by
    simp [bobReplay]
  exact ⟨(hKeys k hk).trans (hKeys k' hk').symm, (hMessages m hm).trans (hMessages m' hm').symm⟩

end Polycentric
