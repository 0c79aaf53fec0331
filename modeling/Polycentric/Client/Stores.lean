import Polycentric.Common.Identity

/-! The client's in-memory stores, `rs-core/src/store`. A `BTreeMap` is the list
of its entries in key order; the order is part of the type. -/
namespace Polycentric.Client

open Proto

/-- `store::keys::EventKey`. The field order determines the order of keys. -/
structure EventKey where
  identity : String
  collection : Int32
  signedByKeyType : Int32
  signedByKey : Bytes
  sequence : UInt64
  deriving DecidableEq, Repr

namespace EventKey

/-- The derived order. -/
def cmp (a b : EventKey) : Ordering :=
  (compare a.identity b.identity).then <|
    (compare a.collection b.collection).then <|
      (compare a.signedByKeyType b.signedByKeyType).then <|
        (compare a.signedByKey b.signedByKey).then <| compare a.sequence b.sequence

def fromEvent (event : Event) : Except CoreError EventKey := do
  let some key := event.key | throw (.invalidEvent "Missing key")
  let some signedBy := key.signedBy | throw (.invalidEvent "Missing signed_by")
  return ⟨key.identity, key.collection, signedBy.keyType, signedBy.key, key.sequence⟩

end EventKey

/-- A `BTreeMap` keyed by event keys. -/
structure KeyMap (α : Type) where
  entries : List (EventKey × α)
  sorted : entries.Pairwise fun a b => a.1.cmp b.1 = .lt

namespace KeyMap

variable {α : Type}

def empty : KeyMap α := ⟨[], .nil⟩

def get (map : KeyMap α) (key : EventKey) : Option α := map.entries.lookup key

/-- The entries within the bounds, in key order. -/
def range (map : KeyMap α) (within : EventKey → Bool) : List (EventKey × α) :=
  map.entries.filter fun entry => within entry.1

end KeyMap

abbrev EventStore := KeyMap SignedEvent

namespace EventStore

/-- The least key with the given identity, collection and signer. -/
def prefixStart (identity : String) (collection : Option Int32) (signer : Option PublicKey) :
    EventKey where
  identity := identity
  collection := collection.getD Int32.minValue
  signedByKeyType := (signer.map PublicKey.keyType).getD Int32.minValue
  signedByKey := (signer.map PublicKey.key).getD []
  sequence := 0

/-- All events for an identity and collection, ordered by signer and sequence. -/
def byIdentityAndCollection (store : EventStore) (identity : String) (collection : Int32) :
    List (EventKey × SignedEvent) :=
  (store.range fun k => (prefixStart identity (some collection) none).cmp k != .gt).takeWhile
    fun entry => entry.1.identity == identity && entry.1.collection == collection

/-- The stream of one signer, from the sequence after `sequenceGt` on. -/
def byIdentityCollectionSigner (store : EventStore) (identity : String) (collection : Int32)
    (signerKeyType : Int32) (signerKey : Bytes) (sequenceGt : UInt64) :
    List (EventKey × SignedEvent) :=
  let bound sequence : EventKey := ⟨identity, collection, signerKeyType, signerKey, sequence⟩
  store.range fun k =>
    (bound sequenceGt).cmp k == .lt && k.cmp (bound 0xffffffffffffffff) != .gt

end EventStore

/-- Content bytes by digest. -/
structure ContentStore where
  contents : List (ContentDigest × Bytes)

def ContentStore.get (store : ContentStore) (digest : ContentDigest) : Option Bytes :=
  store.contents.lookup digest

abbrev EventProofsStore := KeyMap (List EventProof)

/-- Proofs stored for a key, none when there is no entry. -/
def EventProofsStore.get (store : EventProofsStore) (key : EventKey) : List EventProof :=
  (KeyMap.get store key).getD []

abbrev MetaStore := KeyMap EventMetadata

variable (P : Primitives)

/-- The candidate a stored identity event gives, if its content is stored. -/
def toIdentityCandidate (contentStore : ContentStore) (signed : SignedEvent) :
    Option IdentityCandidate := do
  let event ← (P.decodeEvent signed.eventBytes).toOption
  let digest ← event.contentDigest
  let contentBytes ← contentStore.get digest
  return ⟨signed.eventBytes, contentBytes, signed.signature⟩

/-- Resolve an identity chain from the local event and content stores. -/
def resolveIdentityChain (identity : String) (eventStore : EventStore)
    (contentStore : ContentStore) : Except CoreError IdentityChain :=
  let candidates := (eventStore.byIdentityAndCollection identity Collections.identity).filterMap
    fun entry => toIdentityCandidate P contentStore entry.2
  match resolveChain P identity candidates with
  | some chain => .ok chain
  | none => .error (.invalidEvent s!"No valid identity chain for identity {identity}")

end Polycentric.Client
