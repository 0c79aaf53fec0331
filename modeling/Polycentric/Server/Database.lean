import Polycentric.Common.Primitives
import Polycentric.Library.Result

/-! The tables of the server that event ingestion reads and writes. A table is
the list of its rows in insertion order. The columns that nothing here reads are
left out, and so are the child tables of `content` except `content_delete`. -/
namespace Polycentric.Server

open Proto Result

/-- The gRPC codes that ingestion answers with. -/
inductive Code where
  | invalidArgument
  | unauthenticated
  | permissionDenied
  | failedPrecondition
  | internal
  deriving DecidableEq, Repr

structure Status where
  code : Code
  message : String
  deriving DecidableEq, Repr

def internalError : Status := ⟨.internal, "internal server error"⟩

/-- The denormalised event key columns. Every table uses these widths. -/
structure EventKeyParts where
  collection : Int16
  identity : String
  publicKeyType : Int16
  publicKey : Bytes
  sequence : Int64
  deriving DecidableEq, Repr

/-- The columns of a key: wider fields are truncated. -/
def EventKeyParts.of (key : EventKey) (signedBy : PublicKey) : EventKeyParts where
  collection := key.collection.toInt16
  identity := key.identity
  publicKeyType := signedBy.keyType.toInt16
  publicKey := signedBy.key
  sequence := key.sequence.toInt64

/-- Split a key that must be present with its signer. -/
def splitEventKey (key : Option EventKey) (subject : String) : Except Status EventKeyParts := do
  let key ← okOr key ⟨.invalidArgument, s!"{subject} missing event_key"⟩
  let signedBy ← okOr key.signedBy
    ⟨.invalidArgument, s!"{subject} event_key missing signed_by"⟩
  return .of key signedBy

/-- A row of `event`. Ids come from a sequence of the database. -/
structure EventRow where
  id : Nat
  key : EventKeyParts
  contentDigest : Option ContentDigest
  signature : Bytes
  eventBytes : Bytes
  createdAt : Int
  deriving DecidableEq, Repr

/-- A row of `content`, unique by digest. -/
structure ContentRow where
  digest : ContentDigest
  serializedBytes : Bytes
  deriving DecidableEq, Repr

/-- A row of `content_delete`: the content it belongs to and the key it names. -/
structure ContentDeleteRow where
  content : ContentDigest
  eventKey : EventKeyParts
  deriving DecidableEq, Repr

structure FollowRow where
  eventId : Nat
  follower : String
  followee : String
  deriving DecidableEq, Repr

structure BlockRow where
  eventId : Nat
  blocker : String
  blocked : String
  deriving DecidableEq, Repr

structure ReactionRow where
  eventId : Nat
  identity : String
  onPost : Nat
  emoji : Option String
  positive : Bool
  deriving DecidableEq, Repr

structure ReactionTallyRow where
  eventId : Nat
  positiveCount : Int
  negativeCount : Int
  decayedCount : Int
  deriving DecidableEq, Repr

/-- A row of `quote`, `reply` or `repost`: the event and the post it refers to. -/
structure ReferenceRow where
  eventId : Nat
  identity : String
  post : Nat
  deriving DecidableEq, Repr

/-- A row of `profile`. `search_data` is computed from the alias, the identity
and the name. -/
structure ProfileRow where
  eventId : Nat
  identity : String
  name : Option String
  aliasName : Option String
  deriving DecidableEq, Repr

/-- The cache tables derived from ingested events. -/
structure DerivedTables where
  reactionTally : List ReactionTallyRow
  reaction : List ReactionRow
  quote : List ReferenceRow
  reply : List ReferenceRow
  repost : List ReferenceRow
  follow : List FollowRow
  block : List BlockRow
  profile : List ProfileRow
  deriving DecidableEq, Repr

structure Database where
  event : List EventRow
  content : List ContentRow
  contentDelete : List ContentDeleteRow
  derived : DerivedTables
  ban : List String
  deriving DecidableEq, Repr

def Database.empty : Database where
  event := []
  content := []
  contentDelete := []
  derived := ⟨[], [], [], [], [], [], [], []⟩
  ban := []

namespace Database

variable (db : Database)

/-- `select_event_id`, with the whole rows. -/
def selectEvent (key : EventKeyParts) : List EventRow := db.event.filter fun row => row.key = key

/-- Whether a stored `Delete` content names the key, whoever published it. -/
def isTombstoned (key : EventKeyParts) : Bool :=
  db.contentDelete.any fun row => row.eventKey = key

/-- `select_not_deleted_event_id`. -/
def selectNotDeletedEvent (key : EventKeyParts) : List EventRow :=
  if db.isTombstoned key then [] else db.selectEvent key

def hasContent (digest : ContentDigest) : Bool := db.content.any fun row => row.digest = digest

end Database

end Polycentric.Server
