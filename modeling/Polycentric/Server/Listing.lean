import Polycentric.Server.Database

/-! Listing stored events, `list_events` of the repository and of the service. -/
namespace Polycentric.Server

open Proto

/-- The filters of a request. Heads name the latest event of a stream that the
caller has. -/
structure ListEventsFilters where
  collection : Option Int32
  identity : Option String
  signedBy : Option PublicKey
  sequenceGt : Option Int64
  sequenceLt : Option Int64
  heads : List EventKey
  deriving DecidableEq, Repr

/-- A row either mismatches the head's collection, identity or signer, or has a
larger sequence. A head without a signer is ignored. -/
def passesHead (row : EventRow) (head : EventKey) : Bool :=
  match head.signedBy with
  | none => true
  | some signer =>
      row.key.collection != head.collection.toInt16 || row.key.identity != head.identity ||
        row.key.publicKeyType != signer.keyType.toInt16 || row.key.publicKey != signer.key ||
        decide (head.sequence.toInt64 < row.key.sequence)

namespace ListEventsFilters

variable (filters : ListEventsFilters)

def admits (row : EventRow) : Bool :=
  filters.collection.all (fun c => row.key.collection == c.toInt16) &&
    filters.identity.all (fun identity => row.key.identity == identity) &&
    filters.signedBy.all (fun pk =>
      row.key.publicKeyType == pk.keyType.toInt16 && row.key.publicKey == pk.key) &&
    filters.sequenceGt.all (fun gt => decide (gt < row.key.sequence)) &&
    filters.sequenceLt.all (fun lt => decide (row.key.sequence < lt)) &&
    filters.heads.all (passesHead row)

end ListEventsFilters

namespace Database

variable (db : Database)

/-- At most 200 rows with their content, the greatest sequences first. `order` is
how the database sorts; it may list equal sequences in any order. -/
def listEvents (order : List EventRow → List EventRow) (limit : Option Nat)
    (filters : ListEventsFilters) : List (EventRow × Option ContentRow) :=
  let limit := match limit with
    | some limit => if 200 < limit then 200 else limit
    | none => 200
  ((order (db.event.filter filters.admits)).take limit).map fun row =>
    (row, row.contentDigest.bind fun digest => db.content.find? fun content => content.digest = digest)

end Database

def rowIntoBundle (row : EventRow × Option ContentRow) : EventBundle where
  signedEvent := some ⟨row.1.signature, row.1.eventBytes⟩
  serializedContent := row.2.map fun content => ⟨content.serializedBytes⟩
  eventProofs := []
  metadata := none

/-- `ListEventsResponse`. -/
structure ListEventsResponse where
  eventBundles : List EventBundle
  eventHints : List EventHint

/-- What is gathered for the listed rows: their stats and proofs, and the hints, which
are identity events, profiles and `Delete` events. None of it decides which rows are
listed. -/
structure ListEventsHydration where
  stats : EventRow → Option EventMetadata
  proofs : EventRow → List EventProof
  eventHints : List EventHint

/-- How the service gathers it. -/
abbrev Hydrate := List (EventRow × Option ContentRow) → ListEventsHydration

/-- The bundle of a listed row, with its stats and proofs. -/
def assembleBundle (hydration : ListEventsHydration) (row : EventRow × Option ContentRow) : EventBundle :=
  { rowIntoBundle row with
    eventProofs := hydration.proofs row.1
    metadata := hydration.stats row.1 }

/-- Tombstoned rows are listed as well. A negative size is a huge one after the cast. -/
def handleListEvents (order : List EventRow → List EventRow) (hydrate : Hydrate) (db : Database)
    (size : Option Int32) (filters : ListEventsFilters) : ListEventsResponse :=
  let size := (min (size.getD 200) 200).toInt64.toUInt64.toNat
  let rows := db.listEvents order (some size) filters
  ⟨rows.map (assembleBundle (hydrate rows)), (hydrate rows).eventHints⟩

end Polycentric.Server
