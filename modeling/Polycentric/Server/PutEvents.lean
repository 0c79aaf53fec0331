import Polycentric.Server.Authorization
import Polycentric.Server.Events
import Polycentric.Library.Runs

/-! `put_events`: ingest signed events. Every event of a request is processed in
isolation and in one transaction. Publishing to Kafka, the table of applications
and the lookup of missing blobs are left out. -/
namespace Polycentric.Server

open Proto Result Memo Runs

variable (P : Primitives) (runtime : Runtime)

/-- The state of the service. The ban cache lives as long as a request. -/
structure ServiceContext where
  db : Database
  proofCache : ProofCache
  bannedCache : Table String Bool

def bannedError : Status := ⟨.permissionDenied, "identity is banned on this server"⟩

/-- The signed event of a bundle with its key. -/
def openBundle (bundle : EventBundle) : Except Status (SignedEvent × Event × EventKey) := do
  let signed ← okOr bundle.signedEvent ⟨.invalidArgument, "package is missing signed event"⟩
  let event ← (P.decodeEvent signed.eventBytes).mapError fun _ =>
    ⟨.invalidArgument, "invalid event_bytes"⟩
  let key ← okOr event.key ⟨.invalidArgument, "event missing key"⟩
  return (signed, event, key)

/-- The ban check, via the cache of the request. -/
def isBanned (server : ServiceContext) (identity : String) : Bool × ServiceContext :=
  match server.bannedCache.get identity with
  | some banned => (banned, server)
  | none =>
      let banned := server.db.ban.contains identity
      (banned, { server with bannedCache := server.bannedCache.insert identity banned })

/-- The content of the bundle, checked against the digest of the event. It is
ignored if either is absent. -/
def decodeContent (bundle : EventBundle) (event : Event) : Except Status (Option DecodedContent) :=
  match bundle.serializedContent, event.contentDigest with
  | some serialized, some digest => do
      let _ ← (digest.verifyAgainst P serialized.contentBytes).mapError fun e =>
        ⟨.invalidArgument, e.toText⟩
      let content ← (P.decodeContent serialized.contentBytes).mapError fun _ =>
        ⟨.invalidArgument, "invalid content_bytes"⟩
      return some ⟨serialized.contentBytes, content, digest⟩
  | _, _ => .ok none

/-- An event whose signature was verified and whose content was decoded. -/
structure IncomingEvent where
  signed : SignedEvent
  event : Event
  key : EventKey
  signedBy : PublicKey
  decoded : Option DecodedContent
  deriving DecidableEq, Repr

def checkEvent (bundle : EventBundle) (signed : SignedEvent) (event : Event) (key : EventKey) :
    Except Status IncomingEvent := do
  let signedBy ← okOr key.signedBy ⟨.invalidArgument, "event key missing signed_by"⟩
  ensure (signedBy.sigMatches P signed.signature signed.eventBytes)
    ⟨.unauthenticated, "invalid signature"⟩
  let decoded ← decodeContent P bundle event
  return ⟨signed, event, key, signedBy, decoded⟩

namespace IncomingEvent

variable (incoming : IncomingEvent)

/-- The row of the event. Fields wider than their column are truncated. -/
def row (now : Int) (id : Nat) : EventRow where
  id := id
  key := .of incoming.key incoming.signedBy
  contentDigest := incoming.event.contentDigest
  signature := incoming.signed.signature
  eventBytes := incoming.signed.eventBytes
  createdAt := (runtime.fromTimestampSecs (incoming.event.createdAt / 1000)).getD now

def body : Option ContentBody := incoming.decoded.bind fun d => d.content.contentBody

/-- All blobs referenced by the event. -/
def blobs : List Blob := incoming.decoded.elim [] fun d => d.content.blobs

/-- Events of the identity collection are validated when the chain is read. -/
def authorize (db : Database) (cache : ProofCache) : Except Status Unit × ProofCache :=
  if incoming.key.collection ≠ Collections.identity then
    authorizeEventSigner P db cache incoming.key.identity incoming.signedBy
      incoming.key.collection incoming.signed.signature
  else (.ok (), cache)

/-- Drop what a new event may have made stale. -/
def invalidate (cache : ProofCache) : ProofCache :=
  let cache := cache.invalidateCanonical incoming.key.identity incoming.key.collection
  if incoming.key.collection = Collections.identity then
    cache.invalidateIdentity incoming.key.identity
  else cache

end IncomingEvent

/-- The transaction of one event. An event that is stored already is a success,
and nothing changes. -/
def storeEvent (now : Int) (id : Nat) (server : ServiceContext) (incoming : IncomingEvent) :
    Except Status Unit × ServiceContext :=
  match incoming.authorize P server.db server.proofCache with
  | (.error status, cache) => (.error status, { server with proofCache := cache })
  | (.ok (), cache) =>
      match addEvent runtime now server.db (incoming.row runtime now id) incoming.decoded with
      | .ok (true, db) => (.ok (), { server with db := db, proofCache := incoming.invalidate cache })
      | .ok (false, _) => (.ok (), { server with proofCache := cache })
      | .error _ => (.error internalError, { server with proofCache := cache })

/-- Validate and persist an event, and return the blobs that it references. -/
def processEvent (now : Int) (id : Nat) (server : ServiceContext) (bundle : EventBundle) :
    Except Status (List Blob) × ServiceContext :=
  match openBundle P bundle with
  | .error status => (.error status, server)
  | .ok (signed, event, key) =>
      match isBanned server key.identity with
      | (true, server) => (.error bannedError, server)
      | (false, server) =>
          match checkEvent P bundle signed event key with
          | .error status => (.error status, server)
          | .ok incoming =>
              match storeEvent P runtime now id server incoming with
              | (.error status, server) => (.error status, server)
              | (.ok (), server) => (.ok incoming.blobs, server)

/-- The event of a bundle that passes the checks before the transaction. -/
def incomingEvent (bundle : EventBundle) : Option IncomingEvent :=
  match openBundle P bundle with
  | .error _ => none
  | .ok (signed, event, key) => (checkEvent P bundle signed event key).toOption

/-- What processing a bundle can do to the database and to the proof cache:
nothing, authorise the signer only, or store the event and drop what it made
stale. -/
inductive Outcome (now : Int) (id : Nat) (bundle : EventBundle) (db : Database)
    (cache : ProofCache) : Database → ProofCache → Prop where
  | rejected : Outcome now id bundle db cache db cache
  | checked (incoming : IncomingEvent) (hIncoming : incomingEvent P bundle = some incoming) :
      Outcome now id bundle db cache db (incoming.authorize P db cache).2
  | stored (incoming : IncomingEvent) (hIncoming : incomingEvent P bundle = some incoming)
      (hAuthorised : (incoming.authorize P db cache).1 = .ok ()) (db' : Database)
      (hAdded : addEvent runtime now db (incoming.row runtime now id) incoming.decoded =
        .ok (true, db')) :
      Outcome now id bundle db cache db' (incoming.invalidate (incoming.authorize P db cache).2)

theorem storeEvent_outcome (now : Int) (id : Nat) (server : ServiceContext) (bundle : EventBundle)
    {incoming : IncomingEvent} (hIncoming : incomingEvent P bundle = some incoming) :
    Outcome P runtime now id bundle server.db server.proofCache
      (storeEvent P runtime now id server incoming).2.db
      (storeEvent P runtime now id server incoming).2.proofCache := by
  have hChecked : Outcome P runtime now id bundle server.db server.proofCache server.db
      (incoming.authorize P server.db server.proofCache).2 := .checked incoming hIncoming
  unfold storeEvent
  cases hAuthorize : incoming.authorize P server.db server.proofCache with
  | mk verdict cache =>
      rw [hAuthorize] at hChecked
      cases verdict with
      | error status => exact hChecked
      | ok _ =>
          dsimp only
          cases hAdd : addEvent runtime now server.db (incoming.row runtime now id)
              incoming.decoded with
          | error status => exact hChecked
          | ok result =>
              obtain ⟨added, db⟩ := result
              cases added with
              | false => exact hChecked
              | true =>
                  have hStored := Outcome.stored incoming hIncoming (by rw [hAuthorize]) db hAdd
                  rwa [hAuthorize] at hStored

theorem isBanned_frame (server : ServiceContext) (identity : String) :
    (isBanned server identity).2.db = server.db ∧
      (isBanned server identity).2.proofCache = server.proofCache := by
  unfold isBanned
  split <;> exact ⟨rfl, rfl⟩

theorem processEvent_outcome (now : Int) (id : Nat) (server : ServiceContext)
    (bundle : EventBundle) :
    Outcome P runtime now id bundle server.db server.proofCache
      (processEvent P runtime now id server bundle).2.db
      (processEvent P runtime now id server bundle).2.proofCache := by
  unfold processEvent
  cases hOpen : openBundle P bundle with
  | error status => exact .rejected
  | ok parts =>
      obtain ⟨signed, event, key⟩ := parts
      obtain ⟨hDb, hCache⟩ := isBanned_frame server key.identity
      dsimp only
      cases hBanned : isBanned server key.identity with
      | mk banned server' =>
          rw [hBanned] at hDb hCache
          rw [← hDb, ← hCache]
          cases banned with
          | true => exact .rejected
          | false =>
              dsimp only
              cases hCheck : checkEvent P bundle signed event key with
              | error status => exact .rejected
              | ok incoming =>
                  have hIncoming : incomingEvent P bundle = some incoming := by
                    simp [incomingEvent, hOpen, hCheck, Except.toOption]
                  have hOutcome := storeEvent_outcome P runtime now id server' bundle hIncoming
                  dsimp only
                  split <;> simp_all

/-! ### Requests -/

/-- A bundle of a request, with the time of its processing and the id that the
database assigns if the event is stored. -/
structure Arrival where
  now : Int
  id : Nat
  bundle : EventBundle

/-- An entry of `PutEventsResponse.errors`. Its message shows the status. -/
structure PutEventError where
  eventBundleIndex : UInt32
  status : Status
  deriving DecidableEq, Repr

structure Progress where
  errors : List PutEventError
  blobs : List Blob
  server : ServiceContext

/-- One round of the loop over the bundles of a request. -/
def handleBundle (progress : Progress) (arrival : Arrival × Nat) : Progress :=
  match processEvent P runtime arrival.1.now arrival.1.id progress.server arrival.1.bundle with
  | (.ok blobs, server) => { progress with blobs := progress.blobs ∪ blobs, server := server }
  | (.error status, server) =>
      { progress with
        errors := progress.errors ++ [⟨UInt32.ofNat arrival.2, status⟩]
        server := server }

/-- Ingest a batch of signed events. -/
def handle (server : ServiceContext) (request : List Arrival) : Progress :=
  request.zipIdx.foldl (handleBundle P runtime) ⟨[], [], { server with bannedCache := [] }⟩

/-! ### Runs of the service -/

/-- A request starts, or its next bundle is processed. -/
inductive Action where
  | request
  | bundle (arrival : Arrival)

def step (server : ServiceContext) (action : Action) : ServiceContext :=
  match action with
  | .request => { server with bannedCache := [] }
  | .bundle arrival => (processEvent P runtime arrival.now arrival.id server arrival.bundle).2

/-- A request is a run: the start of the request, and its bundles in order. -/
theorem handle_server (server : ServiceContext) (request : List Arrival) :
    (handle P runtime server request).server =
      run (step P runtime) server (.request :: request.map .bundle) := by
  have hLoop : ∀ (arrivals : List Arrival) (n : Nat) (progress : Progress),
      ((arrivals.zipIdx n).foldl (handleBundle P runtime) progress).server =
        (arrivals.map Action.bundle).foldl (step P runtime) progress.server := by
    intro arrivals
    induction arrivals with
    | nil => exact fun n progress => rfl
    | cons arrival rest ih =>
        intro n progress
        rw [List.zipIdx_cons, List.foldl_cons, List.map_cons, List.foldl_cons, ih]
        congr 1
        unfold handleBundle step
        split <;> simp_all
  exact hLoop request 0 _

end Polycentric.Server
