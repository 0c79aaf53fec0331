import Polycentric.Common.Primitives
import Polycentric.Library.Selection

/-! Identity documents and the resolution of an identity chain from untrusted
candidates, `models/identity.rs`. Every party that needs to know who controls an
identity goes through `resolveChain`. -/
namespace Polycentric

open Proto

variable (P : Primitives)

/-- The identity key of a genesis document: its digest as a hexadecimal text. -/
def Proto.Identity.deriveHexKey (document : Identity) : String :=
  hexEncode (P.sha256 (P.encodeIdentity document)).val

/-- Rotation keys and then signing keys, first occurrence wins. Vector clock
positions follow this order. -/
def Proto.Identity.deduplicatedKeys (document : Identity) : List PublicKey :=
  (document.rotationKeys ++ document.signingKeys).foldl
    (fun seen publicKey => if publicKey ∈ seen then seen else seen ++ [publicKey]) []

def Proto.Identity.authorizesSigner (document : Identity) (publicKey : PublicKey) : Bool :=
  (document.rotationKeys ++ document.signingKeys).any fun k =>
    k.keyType == publicKey.keyType && k.key == publicKey.key

def Proto.Identity.authorizesRotation (document : Identity) (publicKey : PublicKey) : Bool :=
  document.rotationKeys.any fun k =>
    k.keyType == publicKey.keyType && k.key == publicKey.key

/-- The first bound naming the signer decides, even when it has no target for
the collection and a later bound of the same key does. -/
def Proto.Identity.revocationTargetFor (document : Identity) (signer : PublicKey)
    (collection : Int32) : Option EventProofTarget :=
  (document.revocationBounds.find? fun bound =>
    match bound.revokedKey with
    | some k => k.keyType == signer.keyType && k.key == signer.key
    | none => false).bind fun bound =>
      bound.targets.find? fun target => target.collection == collection

/-- Candidate identity event and content from any source. Untrusted. -/
structure IdentityCandidate where
  eventBytes : Bytes
  contentBytes : Bytes
  signature : Bytes
  deriving DecidableEq, Repr

/-- Information extracted from an identity candidate. -/
structure IdentityEvent where
  sequence : UInt64
  signer : PublicKey
  document : Identity
  deriving DecidableEq, Repr

/-- The genesis event first, each successor following. -/
structure IdentityChain where
  identityEvents : List IdentityEvent
  deriving DecidableEq, Repr

/-- Reasons for an identity event to succeed another one. -/
inductive SuccessionReason where
  | republish
  | recovery
  | rotation
  deriving DecidableEq, Repr

/-- The derived order of the enumeration, lowest precedence first. -/
def SuccessionReason.rank : SuccessionReason → Nat
  | .republish => 0
  | .recovery => 1
  | .rotation => 2

/-- Extract what the chain needs from a candidate, if its event key, signature
and content digest are consistent. -/
def preprocessCandidate (identity : String) (candidate : IdentityCandidate) :
    Option IdentityEvent := do
  let event ← (P.decodeEvent candidate.eventBytes).toOption
  let eventKey ← event.key
  let signer ← eventKey.signedBy
  let contentDigest ← event.contentDigest
  if eventKey.identity ≠ identity ∨ eventKey.collection ≠ Collections.identity then none
  let content ← (P.decodeContent candidate.contentBytes).toOption
  let body ← content.contentBody
  let document ← match body with
    | .identity d => some d
    | _ => none
  if ¬signer.sigMatches P candidate.signature candidate.eventBytes then none
  let _ ← (contentDigest.verifyAgainst P candidate.contentBytes).toOption
  return { sequence := eventKey.sequence, signer, document }

/-- The fields a non-rotation signing key may not modify. -/
structure IdentityContent where
  rotationKeys : List PublicKey
  signingKeys : List PublicKey
  revocationBounds : List RevocationBound
  servers : Option ServerList
  recoveryKey : Option PublicKey
  deriving DecidableEq, Repr

/-- `IdentityContent::from`: everything but the recovery signature. -/
def Proto.Identity.content (document : Identity) : IdentityContent where
  rotationKeys := document.rotationKeys
  signingKeys := document.signingKeys
  revocationBounds := document.revocationBounds
  servers := document.servers
  recoveryKey := document.recoveryKey

/-- Whether `target` is a valid republish of `source`. Sequencing is ignored. -/
def isRepublish (source target : IdentityEvent) : Bool :=
  source.document.authorizesSigner target.signer &&
    source.document.content == target.document.content

/-- `i32::to_be_bytes`. -/
def toBeBytes (n : Int32) : Bytes :=
  [(n.toUInt32 >>> 24).toUInt8, (n.toUInt32 >>> 16).toUInt8,
    (n.toUInt32 >>> 8).toUInt8, n.toUInt32.toUInt8]

/-- The bytes a recovery signature covers. Neither the sequence nor the document
is part of them. -/
def assembleRecoveryPayload (identity : String) (rotationKey : PublicKey) : Bytes :=
  identity.toUTF8.data.toList ++ toBeBytes rotationKey.keyType ++ rotationKey.key

/-- A reason to allow `candidate` to succeed `head`, or `none`. -/
def justifySuccession (identity : String) (head candidate : IdentityEvent) :
    Option SuccessionReason :=
  if head.document.authorizesRotation candidate.signer then some .rotation
  else if isRepublish head candidate then some .republish
  else if ¬candidate.document.authorizesRotation candidate.signer then none
  else do
    let key ← head.document.recoveryKey
    let signature ← candidate.document.recoverySignature
    if key.sigMatches P signature (assembleRecoveryPayload identity candidate.signer) then
      some .recovery
    else none

/-- Canonical total order over signers. -/
def compareSigners (a b : PublicKey) : Ordering :=
  (compare a.keyType b.keyType).then (compare a.key b.key)

/-- Canonical order over justified successors, the preferred one greatest. -/
def compareSuccessors (a b : IdentityEvent × SuccessionReason) : Ordering :=
  (compare a.1.sequence b.1.sequence).then <|
    (compare a.2.rank b.2.rank).then <|
      (compareSigners a.1.signer b.1.signer).then <|
        compare (a.1.document.deriveHexKey P) (b.1.document.deriveHexKey P)

/-- `by_seq.remove(&seq)`. The map from sequences to buckets is represented by
the list of its entries in insertion order, so a bucket is a filtered sublist
and an absent bucket an empty one. -/
def takeBucket (seq : UInt64) (bySeq : List IdentityEvent) :
    Option (List IdentityEvent × List IdentityEvent) :=
  match bySeq.filter (fun e => e.sequence == seq) with
  | [] => none
  | bucket => some (bucket, bySeq.filter (fun e => e.sequence != seq))

/-- The genesis event among the candidates of sequence 1. -/
def selectGenesis (identity : String) (bucket : List IdentityEvent) : Option IdentityEvent :=
  Selection.maxBy (fun a b => compareSigners a.signer b.signer)
    ((bucket.filter fun c => c.document.deriveHexKey P == identity).filter
      fun c => c.document.authorizesRotation c.signer)

/-- The preferred justified successor of `head` in its bucket. -/
def selectNext (identity : String) (head : IdentityEvent) (bucket : List IdentityEvent) :
    Option (IdentityEvent × SuccessionReason) :=
  Selection.maxBy (compareSuccessors P)
    (bucket.filterMap fun c => (justifySuccession P identity head c).map fun reason => (c, reason))

/-- The loop of `resolve_chain`: the events appended after `head`. Each round
empties a bucket, so `bySeq.length` rounds are enough (`growChain_eq`). -/
def growChain (identity : String) : Nat → List IdentityEvent → IdentityEvent → List IdentityEvent
  | 0, _, _ => []
  | rounds + 1, bySeq, head =>
      match takeBucket (head.sequence + 1) bySeq with
      | none => []
      | some (bucket, rest) =>
          match selectNext P identity head bucket with
          | none => []
          | some (next, _) => next :: growChain identity rounds rest next

/-- Find the valid identity chain for `identity` among the candidates. -/
def resolveChain (identity : String) (candidates : List IdentityCandidate) :
    Option IdentityChain := do
  let bySeq := candidates.filterMap (preprocessCandidate P identity)
  let (bucket, rest) ← takeBucket 1 bySeq
  let genesis ← selectGenesis P identity bucket
  return ⟨genesis :: growChain P identity rest.length rest genesis⟩

namespace IdentityChain

variable (chain : IdentityChain)

/-- The identity event of a sequence number; sequences start at 1. -/
def eventAtSequence (seq : UInt64) : Option IdentityEvent :=
  if seq = 0 then none else chain.identityEvents[(seq - 1).toNat]?

def stateAtSequence (seq : UInt64) : Option Identity :=
  (chain.eventAtSequence seq).map IdentityEvent.document

def latestEvent : Option IdentityEvent := chain.identityEvents.getLast?

def latestState : Option Identity := chain.latestEvent.map IdentityEvent.document

/-- Only the head of the chain is consulted. -/
def revocationTargetFor (signer : PublicKey) (collection : Int32) : Option EventProofTarget :=
  chain.latestState.bind fun document => document.revocationTargetFor signer collection

end IdentityChain

/-- The latest valid identity document. -/
def resolveLatest (identity : String) (candidates : List IdentityCandidate) : Option Identity :=
  (resolveChain P identity candidates).bind IdentityChain.latestState

/-! ### What the authorisation tests mean -/

theorem keyType_key_beq_iff {a b : PublicKey} :
    (a.keyType == b.keyType && a.key == b.key) = true ↔ a = b := by
  cases a
  cases b
  simp

@[simp] theorem Proto.Identity.authorizesRotation_iff {document : Identity} {k : PublicKey} :
    document.authorizesRotation k = true ↔ k ∈ document.rotationKeys := by
  simp only [Identity.authorizesRotation, List.any_eq_true, keyType_key_beq_iff]
  simp

@[simp] theorem Proto.Identity.authorizesSigner_iff {document : Identity} {k : PublicKey} :
    document.authorizesSigner k = true ↔
      k ∈ document.rotationKeys ∨ k ∈ document.signingKeys := by
  simp only [Identity.authorizesSigner, List.any_eq_true, keyType_key_beq_iff]
  simp

theorem isRepublish_iff {source target : IdentityEvent} :
    isRepublish source target = true ↔
      (target.signer ∈ source.document.rotationKeys ∨
        target.signer ∈ source.document.signingKeys) ∧
        source.document.content = target.document.content := by
  simp [isRepublish]

theorem foldl_distinct_spec {α : Type} [DecidableEq α] (l : List α) {seen : List α}
    (hSeen : seen.Nodup) :
    (l.foldl (fun seen a => if a ∈ seen then seen else seen ++ [a]) seen).Nodup ∧
      ∀ a, a ∈ l.foldl (fun seen a => if a ∈ seen then seen else seen ++ [a]) seen ↔
        a ∈ seen ∨ a ∈ l := by
  induction l generalizing seen with
  | nil => simpa using hSeen
  | cons b rest ih =>
      rw [List.foldl_cons]
      by_cases hMem : b ∈ seen
      · rw [if_pos hMem]
        obtain ⟨hNodup, hIff⟩ := ih hSeen
        refine ⟨hNodup, fun a => ?_⟩
        rw [hIff, List.mem_cons]
        constructor
        · rintro (h | h)
          · exact Or.inl h
          · exact Or.inr (Or.inr h)
        · rintro (h | rfl | h)
          · exact Or.inl h
          · exact Or.inl hMem
          · exact Or.inr h
      · rw [if_neg hMem]
        have hNext : (seen ++ [b]).Nodup := by
          rw [List.nodup_append_comm]
          exact List.nodup_cons.mpr ⟨hMem, hSeen⟩
        obtain ⟨hNodup, hIff⟩ := ih hNext
        refine ⟨hNodup, fun a => ?_⟩
        rw [hIff, List.mem_append, List.mem_singleton, List.mem_cons, or_assoc]

theorem Proto.Identity.nodup_deduplicatedKeys (document : Identity) :
    document.deduplicatedKeys.Nodup :=
  (foldl_distinct_spec _ List.nodup_nil).1

/-- The clock has an entry for every authorised signer. -/
theorem Proto.Identity.mem_deduplicatedKeys {document : Identity} {k : PublicKey} :
    k ∈ document.deduplicatedKeys ↔ document.authorizesSigner k = true := by
  unfold Identity.deduplicatedKeys
  rw [(foldl_distinct_spec _ List.nodup_nil).2, Identity.authorizesSigner_iff]
  simp

namespace TableInstance

/-! Builders for concrete runs. -/

def document (rotation signing : List PublicKey) : Identity where
  rotationKeys := rotation
  signingKeys := signing
  revocationBounds := []
  servers := none
  recoveryKey := none
  recoverySignature := none

def identityOf (genesis : Identity) : String := hexEncode (digest (encodeIdentity genesis)).val

def event (collection : Int32) (identity : String) (signer : PublicKey) (sequence : UInt64)
    (vectorClock : List UInt64) (contentBytes : Bytes) : Event where
  key := some ⟨collection, identity, some signer, sequence⟩
  identitySequence := 1
  vectorClock := some ⟨vectorClock⟩
  previousSignature := []
  contentDigest := some ⟨contentDigestTypeSha256, (digest contentBytes).val⟩
  createdAt := 0
  previousRoot := []

def candidate (eventBytes contentBytes : Bytes) (signer : PublicKey) : IdentityCandidate :=
  ⟨eventBytes, contentBytes, sign signer.key eventBytes⟩

/-- An identity with a genesis document and one successor signed by the same
rotation key, which drops the signing key. -/
def genesis : Identity := document [key 1] [key 2]

def successor : Identity := document [key 1] []

def aliceIdentity : String := identityOf genesis

def alicePrimitives : Primitives := primitives
  [([1], event Collections.identity aliceIdentity (key 1) 1 [] [11]),
    ([2], event Collections.identity aliceIdentity (key 1) 2 [] [12])]
  [([11], ⟨some (.identity genesis)⟩), ([12], ⟨some (.identity successor)⟩)]

def genesisCandidate : IdentityCandidate := candidate [1] [11] (key 1)

def successorCandidate : IdentityCandidate := candidate [2] [12] (key 1)

end TableInstance

end Polycentric
