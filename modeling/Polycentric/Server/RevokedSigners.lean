import Polycentric.Client.Validation
import Polycentric.Server.Authorization

/-! One rule, implemented twice: an event of a signer that the head of the chain
no longer authorises. The server looks for its signature among the committed
signatures; the client accepts the event that the target names, or a proof against
the root of the target. -/
namespace Polycentric.Server

open Proto Result Client

variable (P : Primitives)

/-- The root of the target is the root over the committed signatures. -/
def CommittedRoot (target : EventProofTarget) (canonical : List Bytes) : Prop :=
  ∃ root, merkleTreeHash P (canonical.take target.leafCount.toNat) = some root ∧
    root.val = target.root

/-! ### The proof that the server attaches -/

section Proofs

variable {P} {db : Database} {cache : ProofCache}

/-- A path from the honest tree verifies against a target with its root. -/
theorem verifyProof_buildAuditPath {target : EventProofTarget} {leaves : List Bytes} {index : Nat}
    {root : Hash} (hCount : target.leafCount.toNat = leaves.length) (hIndex : index < leaves.length)
    (hTree : merkleTreeHash P leaves = some root) (hRoot : root.val = target.root) :
    verifyProof P leaves[index] (UInt64.ofNat index) target
      (((buildAuditPath P leaves index).map fun path => path.map Subtype.val).getD []) = .ok () := by
  have hToNat : (UInt64.ofNat index).toNat = index := by
    have hSize : index < UInt64.size := (hCount ▸ hIndex).trans target.leafCount.toNat_lt
    exact UInt64.toNat_ofNat_of_lt' hSize
  obtain ⟨hLength, hFold⟩ := fillAuditPath_spec P leaves index hIndex
  obtain ⟨-, rfl⟩ := (merkleTreeHash_eq_some_iff P).mp hTree
  rw [verifyProof_eq_ok_iff]
  refine ⟨mth P leaves, fillAuditPath P leaves index, hRoot, ?_, ?_⟩
  · rw [buildAuditPath, if_neg (by omega)]
    rfl
  · rw [hToNat, hCount, verifyInclusion_iff]
    exact ⟨hIndex, hLength, hFold⟩

/-- When the server builds a proof, and which. -/
theorem buildProofAgainst_eq_some_iff {identity : String} {collection : Int32}
    {target : EventProofTarget} {signature : Bytes} {proof : EventProof} :
    (buildProofAgainst P db cache identity collection target signature).1 = some proof ↔
      ∃ leaves index root, leaves = (cache.canonical P db identity collection).1.take target.leafCount.toNat ∧
        target.leafCount.toNat ≤ (cache.canonical P db identity collection).1.length ∧
        leaves.findIdx? (fun s => s == signature) = some index ∧
        merkleTreeHash P leaves = some root ∧ target.root.length = 32 ∧ root.val = target.root ∧
        proof = ⟨target.signature, UInt64.ofNat index,
          ((buildAuditPath P leaves index).map fun path => path.map Subtype.val).getD []⟩ := by
  unfold buildProofAgainst
  generalize cache.canonical P db identity collection = found
  obtain ⟨canonical, cache'⟩ := found
  dsimp only
  constructor
  · intro h
    split at h
    · cases h
    · next hCount =>
        split at h
        · cases h
        · next index hIndex =>
            split at h
            · cases h
            · next root hTree =>
                split at h
                · next hRoot =>
                    exact ⟨_, index, root, rfl, Nat.le_of_not_lt hCount, hIndex, hTree, hRoot.1, hRoot.2,
                      (Option.some.inj h).symm⟩
                · cases h
  · rintro ⟨leaves, index, root, rfl, hCount, hIndex, hTree, hLength, hRoot, rfl⟩
    rw [if_neg (Nat.not_lt.mpr hCount), hIndex]
    dsimp only
    rw [hTree]
    dsimp only
    rw [if_pos ⟨hLength, hRoot⟩]

/-- A proof that the server builds from any list of signatures verifies for the signature
against the target. -/
theorem verifyProof_of_buildProofAgainst {identity : String} {collection : Int32}
    {target : EventProofTarget} {signature : Bytes} {proof : EventProof}
    (h : (buildProofAgainst P db cache identity collection target signature).1 = some proof) :
    proof.targetSignature = target.signature ∧
      verifyProof P signature proof.leafIndex target proof.auditPath = .ok () := by
  obtain ⟨leaves, index, root, hLeaves, hCount, hFound, hTree, -, hRoot, rfl⟩ :=
    buildProofAgainst_eq_some_iff.mp h
  obtain ⟨hIndex, hAt, -⟩ := List.findIdx?_eq_some_iff_getElem.mp hFound
  have hLength : target.leafCount.toNat = leaves.length := by
    rw [hLeaves, List.length_take]
    omega
  have hVerify := verifyProof_buildAuditPath hLength hIndex hTree hRoot
  have hLeaf : leaves[index] = signature := by simpa using hAt
  rw [hLeaf] at hVerify
  exact ⟨rfl, hVerify⟩

/-- The server builds a proof exactly for a committed signature under the signed
root, and the proof verifies. -/
theorem buildProofAgainst_spec (h : cache.Coherent P db) (identity : String) (collection : Int32)
    (target : EventProofTarget) (signature : Bytes) :
    (WithinBound target (db.canonicalSignatures P identity collection) signature ∧
      CommittedRoot P target (db.canonicalSignatures P identity collection) ∧
      ∃ proof, (buildProofAgainst P db cache identity collection target signature).1 = some proof ∧
        proof.targetSignature = target.signature ∧
        verifyProof P signature proof.leafIndex target proof.auditPath = .ok ()) ∨
    (¬(WithinBound target (db.canonicalSignatures P identity collection) signature ∧
      CommittedRoot P target (db.canonicalSignatures P identity collection)) ∧
      (buildProofAgainst P db cache identity collection target signature).1 = none) := by
  have hCanonical : (cache.canonical P db identity collection).1 =
      db.canonicalSignatures P identity collection := h.canonical_eq
  by_cases hBoth : WithinBound target (db.canonicalSignatures P identity collection) signature ∧
      CommittedRoot P target (db.canonicalSignatures P identity collection)
  · obtain ⟨⟨hCount, hMem⟩, root, hTree, hRoot⟩ := hBoth
    have hFound : ∃ index, ((db.canonicalSignatures P identity collection).take
        target.leafCount.toNat).findIdx? (fun s => s == signature) = some index := by
      rw [← Option.isSome_iff_exists, List.findIdx?_isSome]
      simpa using hMem
    obtain ⟨index, hIndex⟩ := hFound
    rw [← hCanonical] at hCount hIndex hTree
    have hProof := buildProofAgainst_eq_some_iff.mpr ⟨_, index, root, rfl, hCount, hIndex, hTree,
      hRoot ▸ root.property, hRoot, rfl⟩
    rw [hCanonical] at hCount hTree
    exact Or.inl ⟨⟨hCount, hMem⟩, ⟨root, hTree, hRoot⟩, _, hProof,
      verifyProof_of_buildProofAgainst hProof⟩
  · refine Or.inr ⟨hBoth, ?_⟩
    rw [Option.eq_none_iff_forall_ne_some]
    intro proof hProof
    obtain ⟨leaves, index, root, hLeaves, hCount, hIndex, hTree, -, hRoot, -⟩ :=
      buildProofAgainst_eq_some_iff.mp hProof
    rw [hCanonical] at hLeaves hCount
    subst hLeaves
    obtain ⟨hLt, hAt, -⟩ := List.findIdx?_eq_some_iff_getElem.mp hIndex
    have hLeaf : ((db.canonicalSignatures P identity collection).take
        target.leafCount.toNat)[index] = signature := by simpa using hAt
    exact hBoth ⟨⟨hCount, hLeaf ▸ List.getElem_mem hLt⟩, root, hTree, hRoot⟩

end Proofs

/-- Whenever the server builds a proof for a signature against a target, from whatever
signatures it has stored or cached, the client accepts it. -/
theorem server_proofs_verify (P : Primitives) (db : Database) (cache : ProofCache)
    (identity : String) (collection : Int32) (target : EventProofTarget) (signature : Bytes)
    (proof : EventProof)
    (hBuilt : (buildProofAgainst P db cache identity collection target signature).1 = some proof) :
    verifyProof P signature proof.leafIndex target proof.auditPath = .ok () :=
  (verifyProof_of_buildProofAgainst hBuilt).2

/-! ### An event of a revoked signer -/

/-- An event of a stream other than the identity collection, with a well-formed
clock. Server and client resolve the same chain for its identity. The document it
refers to authorises its signer and the head does not. -/
structure RevokedEvent (db : Database) (client : PolycentricClient) where
  signed : SignedEvent
  event : Event
  key : Proto.EventKey
  signer : PublicKey
  clock : VectorClock
  chain : IdentityChain
  document : Identity
  head : IdentityEvent
  hEvent : P.decodeEvent signed.eventBytes = .ok event
  hKey : event.key = some key
  hSigner : key.signedBy = some signer
  hCollection : key.collection ≠ Collections.identity
  hServer : resolveChain P key.identity
    ((db.listIdentityEventsForIdentities [key.identity]).filterMap toIdentityCandidate) = some chain
  hClient : client.identityChain P key.identity = .ok chain
  hDocument : chain.stateAtSequence event.identitySequence = some document
  hAuthorised : document.authorizesSigner signer = true
  hClock : event.vectorClock = some clock
  hWellFormed : ∃ missing, verifyVectorClock client.eventStore clock document key.identity
    key.collection signer key.sequence = .ok missing
  hHead : chain.latestEvent = some head
  hRevoked : head.document.authorizesSigner signer = false

namespace RevokedEvent

variable {P} {db : Database} {client : PolycentricClient} (e : RevokedEvent P db client)

/-- The target that the head records for the signer and the stream. -/
def target : Option EventProofTarget :=
  e.head.document.revocationTargetFor e.signer e.key.collection

/-- The signatures of the stream that the server has stored. -/
def canonical : List Bytes := db.canonicalSignatures P e.key.identity e.key.collection

theorem latestValidIdentityContent_eq :
    db.latestValidIdentityContent P e.key.identity = some e.head.document := by
  unfold Database.latestValidIdentityContent validatedChainHead resolveLatest
  rw [e.hServer]
  simp [IdentityChain.latestState, e.hHead]

/-- The server's verdict. -/
theorem authorizeEventSigner_iff {cache : ProofCache} (h : cache.Coherent P db) :
    (authorizeEventSigner P db cache e.key.identity e.signer e.key.collection
      e.signed.signature).1 = .ok () ↔
      ∃ target, e.target = some target ∧ WithinBound target e.canonical e.signed.signature := by
  rw [authorizeEventSigner_eq_ok_iff h, e.latestValidIdentityContent_eq]
  simp only [Option.some.injEq, exists_eq_left', Authorises, e.hRevoked, Bool.false_eq_true,
    false_or]
  rfl

/-- All that is left for the client to decide is the revocation. -/
theorem validateEvent_iff_checkRevoked (proofs : List EventProof) :
    client.validateEvent P e.signed proofs = .ok () ↔
      checkRevoked P e.chain e.key e.signer e.signed.signature proofs = .ok () := by
  obtain ⟨missing, hMissing⟩ := e.hWellFormed
  simp [PolycentricClient.validateEvent, bind_eq_ok_iff, e.hEvent, e.hKey, e.hSigner, e.hClient,
    e.hHead, e.hCollection, e.hClock, e.hDocument, e.hAuthorised, e.hRevoked, hMissing,
    Unique.exists_iff, -Identity.authorizesSigner_iff]

theorem revocationTargetFor_eq :
    e.chain.revocationTargetFor e.signer e.key.collection = e.target := by
  simp [IdentityChain.revocationTargetFor, IdentityChain.latestState, e.hHead, target]

/-- The client's verdict, with the proof that the server attaches. -/
theorem validateEvent_iff {cache : ProofCache} (h : cache.Coherent P db)
    (hContent : cache.identityContent e.key.identity = some e.head.document) :
    client.validateEvent P e.signed (buildRevocationProof P db cache e.key.identity
      e.key.collection e.signer e.signed.signature).1.toList = .ok () ↔
      ∃ target, e.target = some target ∧ (e.signed.signature = target.signature ∨
        WithinBound target e.canonical e.signed.signature ∧ CommittedRoot P target e.canonical) := by
  rw [e.validateEvent_iff_checkRevoked]
  unfold checkRevoked
  rw [e.revocationTargetFor_eq]
  cases hTarget : e.target with
  | none => simp [okOr, bind, Except.bind]
  | some target =>
      have hProof : buildRevocationProof P db cache e.key.identity e.key.collection e.signer
          e.signed.signature = buildProofAgainst P db cache e.key.identity e.key.collection target
          e.signed.signature := by
        rw [buildRevocationProof, hContent]
        simp only [show e.head.document.revocationTargetFor e.signer e.key.collection = some target
          from hTarget]
      simp only [hProof, okOr, bind, Except.bind, Option.some.injEq, exists_eq_left']
      by_cases hOwn : e.signed.signature = target.signature
      · simp [hOwn, pure, Except.pure]
      · simp only [hOwn, if_false, false_or]
        rcases buildProofAgainst_spec h e.key.identity e.key.collection target
            e.signed.signature with
          ⟨hBound, hRoot, proof, hSome, hTargetSignature, hVerify⟩ | ⟨hNot, hNone⟩
        · simp [hSome, hTargetSignature, hVerify, hBound, hRoot, canonical]
        · simp only [hNone, Option.toList_none, List.find?_nil, reduceCtorEq, false_iff]
          exact hNot

end RevokedEvent

variable {P}

/-- Server and client agree exactly when the event that the target names is among
the committed signatures, and any other committed signature is under the root of
the target. -/
theorem revokedSigner_agreement_iff {db : Database} {client : PolycentricClient}
    (e : RevokedEvent P db client) (cache : ProofCache) (hCoherent : cache.Coherent P db) :
    ((authorizeEventSigner P db cache e.key.identity e.signer e.key.collection
        e.signed.signature).1 = .ok () ↔
      client.validateEvent P e.signed (buildRevocationProof P db
        (authorizeEventSigner P db cache e.key.identity e.signer e.key.collection
          e.signed.signature).2
        e.key.identity e.key.collection e.signer e.signed.signature).1.toList = .ok ()) ↔
    ∀ target, e.target = some target →
      (e.signed.signature = target.signature →
        WithinBound target e.canonical e.signed.signature) ∧
      (e.signed.signature ≠ target.signature →
        WithinBound target e.canonical e.signed.signature → CommittedRoot P target e.canonical) := by
  rw [e.authorizeEventSigner_iff hCoherent, e.validateEvent_iff
    (authorizeEventSigner_coherent hCoherent)
    (authorizeEventSigner_identityContent hCoherent e.latestValidIdentityContent_eq)]
  cases e.target with
  | none => simp
  | some target =>
      simp only [Option.some.injEq, exists_eq_left', forall_eq']
      tauto

end Polycentric.Server

namespace Polycentric.TableInstance

open Client Proto Server

/-! The rotation key revokes the signing key behind its two posts. As clients do,
the bound names the second post, with the root and the number of the events before
it. -/

def postSignature (eventBytes : Bytes) : Bytes := sign (key 2).key eventBytes

def bounded : Identity :=
  { successor with revocationBounds := [⟨some (key 2), [⟨Collections.feed, postSignature [4],
    (digest (leafInput (postSignature [3]))).val, 1⟩]⟩] }

def boundedChain : IdentityChain := ⟨[⟨1, key 1, genesis⟩, ⟨2, key 1, bounded⟩]⟩

def postEvent (sequence : UInt64) : Event :=
  event Collections.feed aliceIdentity (key 2) sequence [0, sequence] [13]

/-- Events `[3]` and `[4]` are the posts. -/
def boundedPrimitives : Primitives := primitives
  [([1], event Collections.identity aliceIdentity (key 1) 1 [] [11]),
    ([2], event Collections.identity aliceIdentity (key 1) 2 [] [12]),
    ([3], postEvent 1), ([4], postEvent 2)]
  [([11], ⟨some (.identity genesis)⟩), ([12], ⟨some (.identity bounded)⟩)]

def eventRow (id : Nat) (collection : Int32) (signer : PublicKey) (sequence : UInt64)
    (eventBytes contentBytes : Bytes) : EventRow where
  id := id
  key := .of ⟨collection, aliceIdentity, some signer, sequence⟩ signer
  contentDigest := some ⟨contentDigestTypeSha256, (digest contentBytes).val⟩
  signature := sign signer.key eventBytes
  eventBytes := eventBytes
  createdAt := 0

def contentRow (contentBytes : Bytes) : ContentRow :=
  ⟨⟨contentDigestTypeSha256, (digest contentBytes).val⟩, contentBytes⟩

/-- The chain and both posts are stored. -/
def boundedDatabase : Database :=
  { Database.empty with
    event := [eventRow 1 Collections.identity (key 1) 1 [1] [11],
      eventRow 2 Collections.identity (key 1) 2 [2] [12],
      eventRow 3 Collections.feed (key 2) 1 [3] [13], eventRow 4 Collections.feed (key 2) 2 [4] [13]]
    content := [contentRow [11], contentRow [12]] }

def boundedClient : PolycentricClient where
  activeIdentity := none
  blockedIdentities := none
  eventStore := KeyMap.empty
  eventProofsStore := KeyMap.empty
  contentStore := ⟨[]⟩
  metaStore := KeyMap.empty
  chains := [(aliceIdentity, boundedChain)]

theorem boundedDatabase_chain : resolveChain boundedPrimitives aliceIdentity
    ((boundedDatabase.listIdentityEventsForIdentities [aliceIdentity]).filterMap
      toIdentityCandidate) = some boundedChain := by
  decide +kernel

theorem boundedClient_chain :
    boundedClient.identityChain boundedPrimitives aliceIdentity = .ok boundedChain := by
  decide +kernel

def revokedPost (eventBytes : Bytes) (sequence : UInt64)
    (hEvent : boundedPrimitives.decodeEvent eventBytes = .ok (postEvent sequence))
    (hWellFormed : ∃ missing, verifyVectorClock boundedClient.eventStore ⟨[0, sequence]⟩ genesis
      aliceIdentity Collections.feed (key 2) sequence = .ok missing) :
    RevokedEvent boundedPrimitives boundedDatabase boundedClient where
  signed := ⟨postSignature eventBytes, eventBytes⟩
  event := postEvent sequence
  key := ⟨Collections.feed, aliceIdentity, some (key 2), sequence⟩
  signer := key 2
  clock := ⟨[0, sequence]⟩
  chain := boundedChain
  document := genesis
  head := ⟨2, key 1, bounded⟩
  hEvent := hEvent
  hKey := rfl
  hSigner := rfl
  hCollection := (by decide : Collections.feed ≠ Collections.identity)
  hServer := boundedDatabase_chain
  hClient := boundedClient_chain
  hDocument := (by decide +kernel : boundedChain.stateAtSequence 1 = some genesis)
  hAuthorised := by decide +kernel
  hClock := rfl
  hWellFormed := hWellFormed
  hHead := rfl
  hRevoked := by decide +kernel

def firstPost : RevokedEvent boundedPrimitives boundedDatabase boundedClient :=
  revokedPost [3] 1 rfl ⟨[], by decide +kernel⟩

def lastPost : RevokedEvent boundedPrimitives boundedDatabase boundedClient :=
  revokedPost [4] 2 rfl ⟨[], by decide +kernel⟩

end Polycentric.TableInstance

namespace Polycentric.Server

open TableInstance

/-- The first post is committed to: both accept it. -/
theorem revokedSigner_agreement_first :
    (authorizeEventSigner boundedPrimitives boundedDatabase .empty firstPost.key.identity
        firstPost.signer firstPost.key.collection firstPost.signed.signature).1 = .ok () ∧
      boundedClient.validateEvent boundedPrimitives firstPost.signed
        (buildRevocationProof boundedPrimitives boundedDatabase
          (authorizeEventSigner boundedPrimitives boundedDatabase .empty firstPost.key.identity
            firstPost.signer firstPost.key.collection firstPost.signed.signature).2
          firstPost.key.identity firstPost.key.collection firstPost.signer
          firstPost.signed.signature).1.toList = .ok () := by
  have hServer : (authorizeEventSigner boundedPrimitives boundedDatabase .empty
      firstPost.key.identity firstPost.signer firstPost.key.collection
      firstPost.signed.signature).1 = .ok () := by decide +kernel
  have hRoot : merkleTreeHash boundedPrimitives (firstPost.canonical.take 1) =
      some (digest (leafInput (postSignature [3]))) := by decide +kernel
  have hAgree := (revokedSigner_agreement_iff firstPost .empty ProofCache.coherent_empty).mpr (by
    rintro _ ⟨⟩
    exact ⟨fun hOwn => absurd hOwn (by decide +kernel), fun _ _ => ⟨_, hRoot, rfl⟩⟩)
  exact ⟨hServer, hAgree.mp hServer⟩

/-- The proof for the first post. -/
theorem server_proofs_verify_first :
    verifyProof boundedPrimitives firstPost.signed.signature 0
      ⟨Collections.feed, postSignature [4], (digest (leafInput (postSignature [3]))).val, 1⟩ [] =
        .ok () :=
  server_proofs_verify boundedPrimitives boundedDatabase .empty aliceIdentity Collections.feed _
    firstPost.signed.signature ⟨postSignature [4], 0, []⟩ (by decide +kernel)

/-- The post that the target names is not among those before it: the server
rejects it, although it is stored, and the client accepts it. -/
theorem revokedSigner_disagreement_last :
    ProofCache.empty.Coherent boundedPrimitives boundedDatabase ∧
      ¬((authorizeEventSigner boundedPrimitives boundedDatabase .empty lastPost.key.identity
          lastPost.signer lastPost.key.collection lastPost.signed.signature).1 = .ok () ↔
        boundedClient.validateEvent boundedPrimitives lastPost.signed
          (buildRevocationProof boundedPrimitives boundedDatabase
            (authorizeEventSigner boundedPrimitives boundedDatabase .empty lastPost.key.identity
              lastPost.signer lastPost.key.collection lastPost.signed.signature).2
            lastPost.key.identity lastPost.key.collection lastPost.signer
            lastPost.signed.signature).1.toList = .ok ()) :=
  ⟨ProofCache.coherent_empty, by decide +kernel⟩

end Polycentric.Server
