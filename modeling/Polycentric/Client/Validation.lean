import Polycentric.Client.Stores
import Polycentric.Library.Result
import Polycentric.Merkle.Inclusion

/-! `PolycentricClient` and `validate_event`, the check every event passes before
the client shows or builds on it. -/
namespace Polycentric.Client

open Proto Result

variable (P : Primitives)

/-- The state of a client. `chains` caches resolved identity chains and
`blockedIdentities` the derived block list. -/
structure PolycentricClient where
  activeIdentity : Option String
  blockedIdentities : Option (List String)
  eventStore : EventStore
  eventProofsStore : EventProofsStore
  contentStore : ContentStore
  metaStore : MetaStore
  chains : List (String × IdentityChain)

/-- The cached chain, or the one resolved from the stores. A resolved chain is
cached as it is, so within one state every call answers alike. -/
def PolycentricClient.identityChain (client : PolycentricClient) (identity : String) :
    Except CoreError IdentityChain :=
  match client.chains.lookup identity with
  | some chain => .ok chain
  | none => resolveIdentityChain P identity client.eventStore client.contentStore

def hexShort (bytes : Bytes) : String := hexEncode (bytes.take 4)

/-- The position of the signer in the clock, when the clock fits the document. -/
def getSignerPosition (clock : VectorClock) (document : Identity) (signer : PublicKey)
    (expectedSelfSequence : UInt64) : Except CoreError Nat := do
  let dedup := document.deduplicatedKeys
  ensure (clock.sequence.length == dedup.length) (.invalidEvent
    s!"vector_clock has {clock.sequence.length} entries but identity doc lists {dedup.length} keys")
  let position ← okOr
    (dedup.findIdx? fun k => k.keyType == signer.keyType && k.key == signer.key)
    (.invalidEvent "Signer not present in identity doc — cannot index vector clock")
  let self := clock.sequence.getD position 0
  ensure (self == expectedSelfSequence) (.invalidEvent
    s!"vector_clock self entry {self} doesn't match expected sequence {expectedSelfSequence}")
  return position

/-- Check a clock against the document and list the events it refers to that are
not in the store. -/
def verifyVectorClock (store : EventStore) (clock : VectorClock) (document : Identity)
    (identity : String) (collection : Int32) (signer : PublicKey)
    (expectedSelfSequence : UInt64) : Except CoreError (List Proto.EventKey) := do
  let selfPosition ← getSignerPosition clock document signer expectedSelfSequence
  return (clock.sequence.zip document.deduplicatedKeys).zipIdx.filterMap
    fun ((observed, other), position) =>
      if position = selfPosition ∨ observed = 0 then none
      else if (store.byIdentityCollectionSigner identity collection other.keyType other.key 0).any
          fun entry => entry.1.sequence == observed then none
      else some ⟨collection, identity, some other, observed⟩

/-- A signer the head no longer authorises: the event is the one the recorded
target names, or a proof places it below the target. -/
def checkRevoked (chain : IdentityChain) (key : Proto.EventKey) (signer : PublicKey)
    (signature : Bytes) (proofs : List EventProof) : Except CoreError Unit := do
  let target ← okOr (chain.revocationTargetFor signer key.collection) (.invalidEvent
    s!"Signer {hexShort signer.key} was revoked from identity {key.identity} but no target was recorded for collection {key.collection} (post-revocation forgery)")
  if signature = target.signature then return ()
  else
    let proof ← okOr (proofs.find? fun p => p.targetSignature == target.signature) (.invalidEvent
      s!"Signer {hexShort signer.key} was revoked from identity {key.identity}; missing EventProof against target for collection {key.collection} at seq:{key.sequence} (post-revocation forgery)")
    verifyProof P signature proof.leafIndex target proof.auditPath

/-- Validate an event against its identity chain, identity content, revocation
status and vector clock. Neither the signature nor the content digest is looked
at. -/
def PolycentricClient.validateEvent (client : PolycentricClient) (signedEvent : SignedEvent)
    (proofs : List EventProof) : Except CoreError Unit := do
  let event ← (P.decodeEvent signedEvent.eventBytes).mapError fun e =>
    .deserializationError s!"Platform error: Deserialization error: {e}"
  let key ← okOr event.key (.deserializationError "Deserialized event has no key")
  let signer ← okOr key.signedBy (.deserializationError "Event key has no signed_by")
  let chain ← client.identityChain P key.identity
  let head ← okOr chain.latestEvent
    (.invalidEvent s!"Validated identity chain for {key.identity} is empty")
  if key.collection = Collections.identity then
    ensure (chain.identityEvents.any fun e => e.sequence == key.sequence &&
        e.signer.keyType == signer.keyType && e.signer.key == signer.key) (.invalidEvent
      s!"Identity event at sequence {key.sequence} for {key.identity} (signer {hexShort signer.key}) is not part of the validated chain (head at {head.sequence})")
  else
    let clock ← okOr event.vectorClock (.invalidEvent "Event missing vector_clock")
    let document ← okOr (chain.stateAtSequence event.identitySequence) (.invalidEvent
      s!"Event references identity_sequence {event.identitySequence} for identity {key.identity} but that is outside the validated chain (head at sequence {head.sequence})")
    ensure (document.authorizesSigner signer) (.invalidEvent
      s!"Signer {hexShort signer.key} is not authorized by the identity content at sequence {event.identitySequence} for identity {key.identity}")
    if head.document.authorizesSigner signer then pure ()
    else checkRevoked P chain key signer signedEvent.signature proofs
    let _ ← verifyVectorClock client.eventStore clock document key.identity key.collection signer
      key.sequence

end Polycentric.Client
