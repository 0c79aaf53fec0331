import Polycentric.Client.SelfBuilt
import Polycentric.Server.Provenance
import Polycentric.Server.RevokedSigners

/-! Removing a key from an identity, `identity-manager.ts`, and what becomes of the
events that the key has signed. The publisher writes the successor document, the
server builds proofs from the bounds in it, and the other clients validate by it. -/
namespace Polycentric.Sync

open Proto Result Client Server

variable (P : Primitives)

/-! ### The identity manager -/

/-- Resolved identity state from the latest identity document. -/
structure IdentityState where
  identityKey : String
  rotationKeys : List PublicKey
  signingKeys : List PublicKey
  revocationBounds : List RevocationBound
  servers : Option (List String)
  recoveryKey : Option PublicKey

/-- Arguments for publishing an identity document. Without the identity key it is
the genesis document of a new identity. -/
structure PublishArgs where
  identityKey : Option String
  rotationKeys : List PublicKey
  signingKeys : List PublicKey
  servers : Option (List String) := none
  revocationBounds : List RevocationBound := []
  recoveryKey : Option PublicKey := none
  recoverySignature : Option Bytes := none
  isLogin : Bool := false

/-- `{ ...state }`. -/
def IdentityState.args (state : IdentityState) : PublishArgs where
  identityKey := some state.identityKey
  rotationKeys := state.rotationKeys
  signingKeys := state.signingKeys
  servers := state.servers
  revocationBounds := state.revocationBounds
  recoveryKey := state.recoveryKey

/-- The document that is published. -/
def PublishArgs.document (args : PublishArgs) : Identity where
  rotationKeys := args.rotationKeys
  signingKeys := args.signingKeys
  revocationBounds := args.revocationBounds
  servers := args.servers.map ServerList.mk
  recoveryKey := args.recoveryKey
  recoverySignature := args.recoverySignature

def keysEqual (a b : PublicKey) : Bool := a.keyType == b.keyType && a.key == b.key

/-- The latest valid state of the identity that the client knows. -/
def resolveIdentity (client : PolycentricClient) (identityKey : String) : Option IdentityState := do
  let chain ← (client.identityChain P identityKey).toOption
  let document ← chain.latestState
  return {
    identityKey := identityKey
    rotationKeys := document.rotationKeys
    signingKeys := document.signingKeys
    revocationBounds := document.revocationBounds
    servers := document.servers.map ServerList.urls
    recoveryKey := document.recoveryKey }

/-- Who may publish: the current key as the only rotation key of a new identity, or
a rotation key of the latest document. A login publishes unchecked. -/
def checkPublish (client : PolycentricClient) (signer : PublicKey) (args : PublishArgs) :
    Except String Unit :=
  match args.identityKey with
  | none =>
      ensure (args.rotationKeys.length == 1 && args.signingKeys.isEmpty &&
          args.revocationBounds.isEmpty && args.rotationKeys.any fun k => keysEqual k signer)
        "Initial identity must have exactly one rotation key (the current key), no signing keys and no revocation bounds"
  | some identityKey =>
      if args.isLogin then .ok ()
      else do
        let oldHead ← okOr (resolveIdentity P client identityKey) "No existing identity chain to extend"
        ensure (oldHead.rotationKeys.any fun k => keysEqual k signer)
          "Identity rotation is not authorized for this key"

/-- The document that `publish` writes, signed by the current key. -/
def publish (client : PolycentricClient) (currentKey : Option PublicKey) (args : PublishArgs) :
    Except String Identity := do
  let signer ← okOr currentKey "No active key pair"
  checkPublish P client signer args
  return args.document

/-- The two lists that a key can be removed from. -/
inductive KeyList where
  | signing
  | rotation
  deriving DecidableEq, Repr

/-- The arguments without the key. Signing keys are compared by their bytes only. -/
def PublishArgs.without (args : PublishArgs) (list : KeyList) (publicKey : PublicKey) :
    PublishArgs :=
  match list with
  | .signing => { args with signingKeys := args.signingKeys.filter fun k => k.key ≠ publicKey.key }
  | .rotation =>
      { args with rotationKeys := args.rotationKeys.filter fun k => !keysEqual k publicKey }

def removeKey (list : KeyList) (client : PolycentricClient) (currentKey : Option PublicKey)
    (publicKey : PublicKey) : Except String Identity := do
  let state ← okOr (client.activeIdentity.bind (resolveIdentity P client)) "No active identity"
  publish P client currentKey (state.args.without list publicKey)

def removeSigningKey (client : PolycentricClient) (currentKey : Option PublicKey)
    (publicKey : PublicKey) : Except String Identity :=
  removeKey P .signing client currentKey publicKey

def removeRotationKey (client : PolycentricClient) (currentKey : Option PublicKey)
    (publicKey : PublicKey) : Except String Identity :=
  removeKey P .rotation client currentKey publicKey

/-- The list that the key stays in, if it is in both. -/
def KeyList.other (list : KeyList) (document : Identity) : List PublicKey :=
  match list with
  | .signing => document.rotationKeys
  | .rotation => document.signingKeys

section Removal

variable {P} {client : PolycentricClient} {identity : String} {chain : IdentityChain}
  {head : IdentityEvent} {currentKey : Option PublicKey} {publicKey : PublicKey} {document : Identity}
  {list : KeyList}

theorem keysEqual_iff {a b : PublicKey} : keysEqual a b = true ↔ a = b := keyType_key_beq_iff

/-- What a removal publishes: the bounds of the old document, and its keys without
the removed one. -/
theorem removeKey_eq_ok (hActive : client.activeIdentity = some identity)
    (hChain : client.identityChain P identity = .ok chain) (hHead : chain.latestEvent = some head)
    (h : removeKey P list client currentKey publicKey = .ok document) :
    document.revocationBounds = head.document.revocationBounds ∧
      (document.authorizesSigner publicKey = true ↔ publicKey ∈ list.other head.document) := by
  have hLatest : chain.latestState = some head.document := by
    rw [IdentityChain.latestState, hHead, Option.map_some]
  have hState : client.activeIdentity.bind (resolveIdentity P client) = some
      ⟨identity, head.document.rotationKeys, head.document.signingKeys,
        head.document.revocationBounds, head.document.servers.map ServerList.urls,
        head.document.recoveryKey⟩ := by
    simp [hActive, resolveIdentity, hChain, hLatest, Except.toOption]
  simp only [removeKey, hState, bind_eq_ok_iff, okOr_eq_ok_iff, Option.some.injEq, exists_eq_left',
    publish, pure, Except.pure, Except.ok.injEq] at h
  obtain ⟨signer, -, -, -, rfl⟩ := h
  cases list with
  | signing =>
      refine ⟨rfl, ?_⟩
      simp [PublishArgs.document, PublishArgs.without, IdentityState.args, KeyList.other]
  | rotation =>
      have hSelf : keysEqual publicKey publicKey = true := keysEqual_iff.mpr rfl
      refine ⟨rfl, ?_⟩
      simp [PublishArgs.document, PublishArgs.without, IdentityState.args, KeyList.other, hSelf]

end Removal

/-! ### A chain with one more document -/

/-- The chain after its successor was published. -/
def extend (chain : IdentityChain) (successor : IdentityEvent) : IdentityChain :=
  ⟨chain.identityEvents ++ [successor]⟩

section Extension

variable {P} {client after : PolycentricClient} {chain : IdentityChain} {head successor : IdentityEvent}
  {signed : SignedEvent} {event : Event} {key : Proto.EventKey} {signer : PublicKey}
  {proofs : List EventProof}

theorem latestEvent_extend : (extend chain successor).latestEvent = some successor := by
  simp [extend, IdentityChain.latestEvent]

/-- Earlier documents keep their sequence. -/
theorem stateAtSequence_extend {sequence : UInt64} {document : Identity}
    (h : chain.stateAtSequence sequence = some document) :
    (extend chain successor).stateAtSequence sequence = some document := by
  obtain ⟨e, he, rfl⟩ := Option.map_eq_some_iff.mp h
  unfold IdentityChain.eventAtSequence at he
  split_ifs at he with hZero
  have hSame : (chain.identityEvents ++ [successor])[(sequence - 1).toNat]? = some e := by
    rw [List.getElem?_append_left (List.getElem?_eq_some_iff.mp he).1, he]
  rw [IdentityChain.stateAtSequence, IdentityChain.eventAtSequence, if_neg hZero]
  simp [extend, hSame]

/-- An identity event is valid if it is in the chain. -/
theorem validateEvent_identity_iff (hDecoded : P.decodeEvent signed.eventBytes = .ok event)
    (hKey : event.key = some key) (hSigner : key.signedBy = some signer)
    (hCollection : key.collection = Collections.identity)
    (hChain : client.identityChain P key.identity = .ok chain)
    (hHead : chain.latestEvent = some head) :
    client.validateEvent P signed proofs = .ok () ↔
      ∃ e ∈ chain.identityEvents, e.sequence = key.sequence ∧ e.signer = signer := by
  simp only [PolycentricClient.validateEvent, bind_eq_ok_iff, mapError_eq_ok_iff, okOr_eq_ok_iff,
    hDecoded, Except.ok.injEq, exists_eq_left', hKey, hSigner, hChain, hHead, Option.some.injEq,
    hCollection, if_true, ensure_eq_ok_iff, List.any_eq_true]
  refine exists_congr fun e => and_congr_right fun _ => ?_
  rw [Bool.and_assoc, Bool.and_eq_true, keyType_key_beq_iff, beq_iff_eq]

/-- What every valid event of another collection shows, whoever may sign now. -/
theorem validateEvent_ok_reference (hDecoded : P.decodeEvent signed.eventBytes = .ok event)
    (hKey : event.key = some key) (hSigner : key.signedBy = some signer)
    (hCollection : key.collection ≠ Collections.identity)
    (hChain : client.identityChain P key.identity = .ok chain)
    (h : client.validateEvent P signed proofs = .ok ()) :
    ∃ clock document, event.vectorClock = some clock ∧
      chain.stateAtSequence event.identitySequence = some document ∧
      document.authorizesSigner signer = true ∧
      ∃ position, getSignerPosition clock document signer key.sequence = .ok position := by
  simp only [PolycentricClient.validateEvent, bind_eq_ok_iff, mapError_eq_ok_iff, okOr_eq_ok_iff,
    hDecoded, Except.ok.injEq, exists_eq_left', hKey, hSigner, hChain, Option.some.injEq,
    hCollection, if_false, ensure_eq_ok_iff] at h
  obtain ⟨head, -, clock, hClock, document, hDocument, -, hAuthorised, hRest⟩ := h
  refine ⟨clock, document, hClock, hDocument, hAuthorised, ?_⟩
  have hVerified : ∃ missing, verifyVectorClock client.eventStore clock document key.identity
      key.collection signer key.sequence = .ok missing := by
    split at hRest
    · simpa [bind_eq_ok_iff, pure, Except.pure] using hRest
    · obtain ⟨-, -, hClockOk⟩ := bind_eq_ok_iff.mp hRest
      simpa [bind_eq_ok_iff, pure, Except.pure] using hClockOk
  exact verifyVectorClock_eq_ok_iff.mp hVerified

end Extension

/-! ### The events of the removed key -/

/-- The bounds of the document still vouch for the signature: it is the one that the
target names, or the server can prove it against the root of the target. -/
def VouchedFor (db : Database) (document : Identity) (key : Proto.EventKey) (signer : PublicKey)
    (signature : Bytes) : Prop :=
  ∃ target, document.revocationTargetFor signer key.collection = some target ∧
    (signature = target.signature ∨
      WithinBound target (db.canonicalSignatures P key.identity key.collection) signature ∧
        CommittedRoot P target (db.canonicalSignatures P key.identity key.collection))

/-- The cache after the identity was looked up. -/
theorem warmed {P : Primitives} {db : Database} {cache : ProofCache} {identity : String}
    {document : Identity} (h : cache.Coherent P db)
    (hLatest : db.latestValidIdentityContent P identity = some document) :
    (cachedIdentityContent P db cache identity).2.Coherent P db ∧
      (cachedIdentityContent P db cache identity).2.identityContent identity = some document := by
  rcases cachedIdentityContent_spec h identity with
    ⟨document', cache', hLatest', hCached, hCoherent, hContent⟩ | ⟨hNone, -⟩
  · obtain rfl : document' = document := Option.some.inj (hLatest'.symm.trans hLatest)
    rw [hCached]
    exact ⟨hCoherent, hContent⟩
  · simp [hNone] at hLatest

/-- A valid event of the removed key stays valid exactly if it is an identity event,
if the key stays in the other list, or if the old document had a bound for the key
that covers the event. -/
theorem removal_keeps_valid_iff {P : Primitives} {publisher before after : PolycentricClient}
    {db : Database} {cache : ProofCache} {chain : IdentityChain} {head successor : IdentityEvent}
    {currentKey : Option PublicKey} {removed : PublicKey} {list : KeyList} {event : Event}
    {proofs : List EventProof} (signed : SignedEvent) (key : Proto.EventKey)
    (hActive : publisher.activeIdentity = some key.identity)
    (hPublisher : publisher.identityChain P key.identity = .ok chain)
    (hHead : chain.latestEvent = some head)
    (hPublished : removeKey P list publisher currentKey removed = .ok successor.document)
    (hBefore : before.identityChain P key.identity = .ok chain)
    (hAfter : after.identityChain P key.identity = .ok (extend chain successor))
    (hServer : resolveChain P key.identity
      ((db.listIdentityEventsForIdentities [key.identity]).filterMap toIdentityCandidate) =
        some (extend chain successor))
    (hCoherent : cache.Coherent P db)
    (hDecoded : P.decodeEvent signed.eventBytes = .ok event) (hKey : event.key = some key)
    (hSigner : key.signedBy = some removed)
    (hValid : before.validateEvent P signed proofs = .ok ()) :
    after.validateEvent P signed (buildRevocationProof P db
        (cachedIdentityContent P db cache key.identity).2 key.identity key.collection removed
        signed.signature).1.toList = .ok () ↔
      key.collection = Collections.identity ∨ removed ∈ list.other head.document ∨
        VouchedFor P db head.document key removed signed.signature := by
  obtain ⟨hBounds, hStays⟩ := removeKey_eq_ok hActive hPublisher hHead hPublished
  by_cases hCollection : key.collection = Collections.identity
  · refine iff_of_true ?_ (Or.inl hCollection)
    rw [validateEvent_identity_iff hDecoded hKey hSigner hCollection hAfter latestEvent_extend]
    obtain ⟨e, he, hSame⟩ := (validateEvent_identity_iff hDecoded hKey hSigner hCollection hBefore
      hHead).mp hValid
    exact ⟨e, List.mem_append_left _ he, hSame⟩
  · obtain ⟨clock, document, hClock, hDocument, hAuthorised, hPosition⟩ :=
      validateEvent_ok_reference hDecoded hKey hSigner hCollection hBefore hValid
    have hDocument' : (extend chain successor).stateAtSequence event.identitySequence =
        some document := stateAtSequence_extend hDocument
    simp only [hCollection, false_or]
    cases hRevoked : successor.document.authorizesSigner removed with
    | true =>
        refine iff_of_true ?_ (Or.inl (hStays.mp hRevoked))
        rw [validateEvent_eq_ok_iff_of_head _ hDecoded hKey hSigner hCollection hAfter
          latestEvent_extend hRevoked]
        exact ⟨clock, document, hClock, hDocument', hAuthorised, hPosition⟩
    | false =>
        have hGone : removed ∉ list.other head.document := by
          rw [← hStays, hRevoked]
          exact Bool.false_ne_true
        let e : RevokedEvent P db after :=
          { signed := signed
            event := event
            key := key
            signer := removed
            clock := clock
            chain := extend chain successor
            document := document
            head := successor
            hEvent := hDecoded
            hKey := hKey
            hSigner := hSigner
            hCollection := hCollection
            hServer := hServer
            hClient := hAfter
            hDocument := hDocument'
            hAuthorised := hAuthorised
            hClock := hClock
            hWellFormed := verifyVectorClock_eq_ok_iff.mpr hPosition
            hHead := latestEvent_extend
            hRevoked := hRevoked }
        have hLatest : db.latestValidIdentityContent P key.identity = some successor.document :=
          e.latestValidIdentityContent_eq
        obtain ⟨hWarm, hContent⟩ := warmed hCoherent hLatest
        have hTarget : e.target = head.document.revocationTargetFor removed key.collection := by
          simp only [RevokedEvent.target, Identity.revocationTargetFor, e, hBounds]
        rw [e.validateEvent_iff hWarm hContent, hTarget, or_iff_right hGone]
        rfl

end Polycentric.Sync

namespace Polycentric.TableInstance

open Client Proto Server Runs

/-! Key 2 is a signing key, and key 3 is a rotation key and a signing key. Each of
them has published a post, and then key 1 removes it from the signing keys. -/

def keeperGenesis : Identity := document [key 1, key 3] [key 2, key 3]

def keeperIdentity : String := identityOf keeperGenesis

/-- Event `[n]` has the content `[10 + n]`: `[2]` removes key 2, `[5]` removes key 3. -/
def keeperPrimitives : Primitives := primitives
  [([1], event Collections.identity keeperIdentity (key 1) 1 [] [11]),
    ([2], event Collections.identity keeperIdentity (key 1) 2 [] [12]),
    ([3], event Collections.feed keeperIdentity (key 2) 1 [0, 0, 1] [13]),
    ([4], event Collections.feed keeperIdentity (key 3) 1 [0, 1, 0] [14]),
    ([5], event Collections.identity keeperIdentity (key 1) 2 [] [15])]
  [([11], ⟨some (.identity keeperGenesis)⟩),
    ([12], ⟨some (.identity (document [key 1, key 3] [key 3]))⟩),
    ([13], ⟨some (.post ⟨"hello", none, [], none, []⟩)⟩),
    ([14], ⟨some (.post ⟨"hello too", none, [], none, []⟩)⟩),
    ([15], ⟨some (.identity (document [key 1, key 3] [key 2]))⟩)]

def keeperChain : IdentityChain := ⟨[⟨1, key 1, keeperGenesis⟩]⟩

/-- The client of key 1, before it removes a key. -/
def keeperClient : PolycentricClient :=
  { PolycentricClient.new.call keeperPrimitives (.copyBundles [(arrival 1 (key 1)).bundle]) with
    activeIdentity := some keeperIdentity }

/-- The client after it learned of the removal. -/
def keeperAfter (removal : Arrival) : PolycentricClient :=
  keeperClient.call keeperPrimitives (.copyBundles [removal.bundle])

/-- The server holds the chain, the post and the removal. -/
def keeperServer (post removal : Arrival) : ServiceContext :=
  run (step keeperPrimitives runtime) (start [])
    [.request, .bundle (arrival 1 (key 1)), .bundle post, .bundle removal]

end Polycentric.TableInstance

namespace Polycentric.Sync

open Proto Client Server TableInstance

/-- The post of key 3 stays valid, since key 3 is a rotation key too. -/
theorem removal_keeps_valid_rotation :
    (keeperAfter (arrival 5 (key 1))).validateEvent keeperPrimitives ⟨sign (key 3).key [4], [4]⟩
      (buildRevocationProof keeperPrimitives (keeperServer (arrival 4 (key 3)) (arrival 5 (key 1))).db
        (cachedIdentityContent keeperPrimitives
          (keeperServer (arrival 4 (key 3)) (arrival 5 (key 1))).db .empty keeperIdentity).2
        keeperIdentity Collections.feed (key 3) (sign (key 3).key [4])).1.toList = .ok () := by
  have hPublished : removeKey keeperPrimitives .signing keeperClient (some (key 1)) (key 3) =
      .ok (document [key 1, key 3] [key 2]) := by
    decide +kernel
  have hChain : keeperClient.identityChain keeperPrimitives keeperIdentity = .ok keeperChain := by
    decide +kernel
  have hAfter : (keeperAfter (arrival 5 (key 1))).identityChain keeperPrimitives keeperIdentity =
      .ok (extend keeperChain ⟨2, key 1, document [key 1, key 3] [key 2]⟩) := by
    decide +kernel
  have hServer : resolveChain keeperPrimitives keeperIdentity
      (((keeperServer (arrival 4 (key 3)) (arrival 5 (key 1))).db.listIdentityEventsForIdentities
        [keeperIdentity]).filterMap toIdentityCandidate) =
      some (extend keeperChain ⟨2, key 1, document [key 1, key 3] [key 2]⟩) := by
    decide +kernel
  have hDecoded : keeperPrimitives.decodeEvent [4] =
      .ok (event Collections.feed keeperIdentity (key 3) 1 [0, 1, 0] [14]) := by
    decide +kernel
  have hValid : keeperClient.validateEvent keeperPrimitives ⟨sign (key 3).key [4], [4]⟩ [] =
      .ok () := by
    decide +kernel
  have hOther : key 3 ∈ KeyList.signing.other keeperGenesis := by decide +kernel
  exact (removal_keeps_valid_iff ⟨sign (key 3).key [4], [4]⟩
    ⟨Collections.feed, keeperIdentity, some (key 3), 1⟩ rfl hChain rfl hPublished hChain hAfter
    hServer ProofCache.coherent_empty hDecoded rfl rfl hValid).mpr (Or.inr (Or.inl hOther))

/-- The post of key 2 was valid and is not any more: the new document has no bound
for key 2, so the server has nothing to prove. -/
theorem removal_invalidates_post :
    removeSigningKey keeperPrimitives keeperClient (some (key 1)) (key 2) =
        .ok (document [key 1, key 3] [key 3]) ∧
      keeperClient.validateEvent keeperPrimitives ⟨sign (key 2).key [3], [3]⟩ [] = .ok () ∧
      (keeperAfter (arrival 2 (key 1))).identityChain keeperPrimitives keeperIdentity =
        .ok (extend keeperChain ⟨2, key 1, document [key 1, key 3] [key 3]⟩) ∧
      (keeperServer (arrival 3 (key 2)) (arrival 2 (key 1))).db.latestValidIdentityContent
        keeperPrimitives keeperIdentity = some (document [key 1, key 3] [key 3]) ∧
      (keeperAfter (arrival 2 (key 1))).validateEvent keeperPrimitives ⟨sign (key 2).key [3], [3]⟩
        (buildRevocationProof keeperPrimitives
          (keeperServer (arrival 3 (key 2)) (arrival 2 (key 1))).db
          (cachedIdentityContent keeperPrimitives
            (keeperServer (arrival 3 (key 2)) (arrival 2 (key 1))).db .empty keeperIdentity).2
          keeperIdentity Collections.feed (key 2) (sign (key 2).key [3])).1.toList ≠ .ok () := by
  refine ⟨?_, ?_, ?_, ?_, ?_⟩
  all_goals decide +kernel

end Polycentric.Sync
