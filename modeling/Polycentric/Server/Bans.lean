import Polycentric.Library.Keyset
import Polycentric.Library.Runs
import Polycentric.Server.Provenance

/-! `set_ban_status` beside requests of `put_events`. A request checks the ban once for
an identity, before its transactions, and the events of a banned identity are erased
in batches by ascending id. -/
namespace Polycentric.Server

open Proto Result Memo Runs Slots Keyset

variable (P : Primitives) (runtime : Runtime) (target : String)

/-! ### Erasing an identity -/

def allCollections : List Int32 :=
  [Collections.identity, Collections.feed, Collections.profile, Collections.interactions,
    Collections.socialGraph, Collections.reports, Collections.labels, Collections.verifications]

/-- Events erased per transaction. -/
def eraseBatch : Nat := 50000

namespace Database

variable (db : Database)

def setBanned (identity : String) (banned : Bool) : Database :=
  if banned then { db with ban := if identity ∈ db.ban then db.ban else db.ban ++ [identity] }
  else { db with ban := db.ban.filter fun other => other ≠ identity }

/-- The events that `erase_events_batch` selects. -/
def selectEraseEvents (identity : String) (after : Nat) : List EventRow :=
  let rows := db.event.filter fun row => row.key.identity = identity
  (listing EventRow.id (following EventRow.id after rows)).take eraseBatch

/-- The cache tables without the rows that refer to the events. -/
def eraseCaches (tables : DerivedTables) (ids : List Nat) : DerivedTables :=
  let kept (row : ReferenceRow) : Bool := !ids.contains row.eventId && !ids.contains row.post
  { tables with
    follow := tables.follow.filter fun row => !ids.contains row.eventId
    block := tables.block.filter fun row => !ids.contains row.eventId
    reaction := tables.reaction.filter fun row => !ids.contains row.eventId && !ids.contains row.onPost
    repost := tables.repost.filter kept
    quote := tables.quote.filter kept
    reply := tables.reply.filter kept
    reactionTally := tables.reactionTally.filter fun row => !ids.contains row.eventId }

/-- Deletes the events and what is derived from them. Content that another event
refers to is kept. -/
def eraseEvents (ids : List Nat) : Database :=
  let digests := (db.event.filter fun row => ids.contains row.id).filterMap EventRow.contentDigest
  let event := db.event.filter fun row => !ids.contains row.id
  let orphaned (digest : ContentDigest) : Bool :=
    digests.contains digest && !event.any fun row => row.contentDigest = some digest
  { db with
    event := event
    content := db.content.filter fun row => !orphaned row.digest
    contentDelete := db.contentDelete.filter fun row => !orphaned row.content
    derived := eraseCaches db.derived ids }

/-- `erase_derived`: the tallies without an event. -/
def eraseDerived : Database :=
  { db with derived := { db.derived with
      reactionTally := db.derived.reactionTally.filter fun tally =>
        db.event.any fun row => row.id = tally.eventId } }

end Database

/-- What an erasure drops from the cache. -/
def ProofCache.invalidateErased (cache : ProofCache) (identity : String) : ProofCache :=
  allCollections.foldl (fun cache collection => cache.invalidateCanonical identity collection)
    (cache.invalidateIdentity identity)

namespace Bans

/-! ### Requests -/

/-- How far the first of the remaining bundles has got. -/
inductive Phase where
  | waiting
  /-- The identity is not banned, and the event is well formed. -/
  | checked (incoming : IncomingEvent)
  | authorised (incoming : IncomingEvent)
  /-- The row has its id, and is not committed yet. -/
  | inserted (incoming : IncomingEvent) (now : Int) (id : Nat)

structure Request where
  bundles : List EventBundle
  index : Nat
  bannedCache : Table String Bool
  errors : List PutEventError
  blobs : List Blob
  phase : Phase
  /-- The request began before the ban call had finished. -/
  early : Bool

namespace Request

variable (request : Request)

/-- The first bundle is done. -/
def close (result : Except Status (List Blob)) : Request :=
  let next := { request with
    bundles := request.bundles.tail, index := request.index + 1, phase := .waiting }
  match result with
  | .ok blobs => { next with blobs := request.blobs ∪ blobs }
  | .error status =>
      { next with errors := request.errors ++ [⟨UInt32.ofNat request.index, status⟩] }

/-- The checks before the transaction. The ban is looked up in the database for reads. -/
def check (roDb : Database) (cache : ProofCache) : Request :=
  match request.phase, request.bundles with
  | .waiting, bundle :: _ =>
      match openBundle P bundle with
      | .error status => request.close (.error status)
      | .ok (signed, event, key) =>
          match isBanned ⟨roDb, cache, request.bannedCache⟩ key.identity with
          | (true, server) =>
              { request with bannedCache := server.bannedCache }.close (.error bannedError)
          | (false, server) =>
              match checkEvent P bundle signed event key with
              | .error status => { request with bannedCache := server.bannedCache }.close (.error status)
              | .ok incoming =>
                  { request with bannedCache := server.bannedCache, phase := .checked incoming }
  | _, _ => request

end Request

/-- How far the call of `set_ban_status` has got. -/
inductive BanCall where
  | idle
  /-- The ban is committed. The events up to an id were selected; those of the last
  batch may still be there. -/
  | erasing (after : Nat) (batch : List Nat)
  /-- No event was left to select. -/
  | erased
  | finished
  | failed
  deriving DecidableEq

structure System where
  db : Database
  /-- What the connection for reads shows: a replica may lag behind. -/
  roDb : Database
  proofCache : ProofCache
  lastId : Nat
  requests : List Request
  banCall : BanCall

inductive Action where
  | replicate
  | request (bundles : List EventBundle)
  | check (i : Nat)
  | authorise (i : Nat)
  | insert (i : Nat) (now : Int)
  | commit (i : Nat)
  | setBanned
  | selectBatch
  | eraseBatch
  | eraseDerived
  /-- The call of `set_ban_status` ends with an error. -/
  | fail

namespace System

variable (s : System)

def start (db roDb : Database) (cache : ProofCache) (lastId : Nat) : System :=
  ⟨db, roDb, cache, lastId, [], .idle⟩

def setRequest (i : Nat) (request : Request) : System :=
  { s with requests := s.requests.set i request }

/-- A request that has reached the point makes its move. -/
def onRequest (i : Nat) (move : Request → System) : System :=
  match s.requests[i]? with
  | some request => move request
  | none => s

def authorise (i : Nat) (request : Request) : System :=
  match request.phase with
  | .checked incoming =>
      match incoming.authorize P s.db s.proofCache with
      | (.error status, cache) =>
          { s.setRequest i (request.close (.error status)) with proofCache := cache }
      | (.ok (), cache) =>
          { s.setRequest i { request with phase := .authorised incoming } with proofCache := cache }
  | _ => s

/-- The id comes from a sequence, which no transaction waits for. -/
def insert (now : Int) (i : Nat) (request : Request) : System :=
  match request.phase with
  | .authorised incoming =>
      { s.setRequest i { request with phase := .inserted incoming now (s.lastId + 1) } with
        lastId := s.lastId + 1 }
  | _ => s

def commit (i : Nat) (request : Request) : System :=
  match request.phase with
  | .inserted incoming now id =>
      match addEvent runtime now s.db (incoming.row runtime now id) incoming.decoded with
      | .ok (true, db) =>
          { s.setRequest i (request.close (.ok incoming.blobs)) with
            db := db, proofCache := incoming.invalidate s.proofCache }
      | .ok (false, _) => s.setRequest i (request.close (.ok incoming.blobs))
      | .error _ => s.setRequest i (request.close (.error internalError))
  | _ => s

def setBanned : System :=
  match s.banCall with
  | .idle => { s with db := s.db.setBanned target true, banCall := .erasing 0 [] }
  | _ => s

/-- A round of the loop of `erase_identity`: its transaction selects a batch, or there
is none, ... -/
def selectBatch : System :=
  match s.banCall with
  | .erasing after [] =>
      let rows := s.db.selectEraseEvents target after
      match rows.getLast? with
      | some last => { s with banCall := .erasing last.id (rows.map EventRow.id) }
      | none => { s with banCall := .erased }
  | _ => s

/-- ... and deletes the batch. -/
def eraseBatch : System :=
  match s.banCall with
  | .erasing after batch => { s with db := s.db.eraseEvents batch, banCall := .erasing after [] }
  | _ => s

def eraseDerived : System :=
  match s.banCall with
  | .erased =>
      { s with
        db := s.db.eraseDerived
        proofCache := s.proofCache.invalidateErased target
        banCall := .finished }
  | _ => s

def fail : System :=
  match s.banCall with
  | .finished => s
  | _ => { s with banCall := .failed }

/-- A request that begins now may overlap the ban call. -/
def early : Bool :=
  match s.banCall with
  | .finished => false
  | _ => true

def step (action : Action) : System :=
  match action with
  | .replicate => { s with roDb := s.db }
  | .request bundles =>
      { s with requests := s.requests ++ [⟨bundles, 0, [], [], [], .waiting, s.early⟩] }
  | .check i => s.onRequest i fun request => s.setRequest i (request.check P s.roDb s.proofCache)
  | .authorise i => s.onRequest i (s.authorise P i)
  | .insert i now => s.onRequest i (s.insert now i)
  | .commit i => s.onRequest i (s.commit runtime i)
  | .setBanned => s.setBanned target
  | .selectBatch => s.selectBatch target
  | .eraseBatch => s.eraseBatch
  | .eraseDerived => s.eraseDerived target
  | .fail => s.fail

/-- The ban call has finished, and so has every request that overlapped it. -/
def Settled : Prop :=
  s.banCall = .finished ∧ ∀ request ∈ s.requests, request.early = true → request.bundles = []

instance : Decidable s.Settled := inferInstanceAs (Decidable (_ ∧ _))

/-- The row that the transaction of a request is to commit. -/
def added (request : Request) : Option EventRow :=
  match request.phase with
  | .inserted incoming now id =>
      match addEvent runtime now s.db (incoming.row runtime now id) incoming.decoded with
      | .ok (true, _) => some (incoming.row runtime now id)
      | .ok (false, _) | .error _ => none
  | _ => none

/-- The row that a step commits. -/
def stores (action : Action) : Option EventRow :=
  match action with
  | .commit i => s.requests[i]?.bind (s.added runtime)
  | _ => none

end System

/-- The erasure is past the id: it does not select it any more. -/
def BanCall.Passed (call : BanCall) (id : Nat) : Prop :=
  match call with
  | .erasing after batch => id ≤ after ∧ id ∉ batch
  | .erased | .finished => True
  | .idle | .failed => False

instance (call : BanCall) (id : Nat) : Decidable (call.Passed id) :=
  match call with
  | .erasing after batch => inferInstanceAs (Decidable (id ≤ after ∧ id ∉ batch))
  | .erased | .finished => inferInstanceAs (Decidable True)
  | .idle | .failed => inferInstanceAs (Decidable False)

namespace System

variable {P runtime target} {s : System} {action : Action}

/-- The erasure is past none of the events of the identity. -/
def KeptIn (target : String) (events : List EventRow) (call : BanCall) : Prop :=
  ∀ row ∈ events, row.key.identity = target → ¬call.Passed row.id

/-- No event of the identity escaped the erasure so far. -/
def Kept (target : String) (s : System) : Prop := KeptIn target s.db.event s.banCall

def NotFailed (s : System) : Prop := s.banCall ≠ .failed

/-- An event of the identity is committed before the erasure is past its id. -/
def InTime (runtime : Runtime) (target : String) (s : System) (action : Action) : Prop :=
  ∀ row ∈ s.stores runtime action, row.key.identity = target → ¬s.banCall.Passed row.id

instance (s : System) (action : Action) : Decidable (InTime runtime target s action) :=
  inferInstanceAs (Decidable (∀ row ∈ s.stores runtime action, _ → _))

/-! ### What a step can do -/

/-- The events and the ban call after a step that commits no event. -/
inductive Sweeps (target : String) (s : System) : List EventRow → BanCall → Prop where
  | rests : Sweeps target s s.db.event s.banCall
  | begins (hIdle : s.banCall = .idle) : Sweeps target s s.db.event (.erasing 0 [])
  | selects {after : Nat} {last : EventRow} (hErasing : s.banCall = .erasing after [])
      (hLast : (s.db.selectEraseEvents target after).getLast? = some last) :
      Sweeps target s s.db.event
        (.erasing last.id ((s.db.selectEraseEvents target after).map EventRow.id))
  | ends {after : Nat} (hErasing : s.banCall = .erasing after [])
      (hNone : s.db.selectEraseEvents target after = []) : Sweeps target s s.db.event .erased
  | erases {after : Nat} {batch : List Nat} (hErasing : s.banCall = .erasing after batch) :
      Sweeps target s (s.db.event.filter fun row => !batch.contains row.id) (.erasing after [])
  | finishes (hErased : s.banCall = .erased) : Sweeps target s s.db.event .finished
  | fails : Sweeps target s s.db.event .failed

/-- An accepted event is appended to the table, and that is all that happens to it. -/
theorem event_of_addEvent {now : Int} {db db' : Database} {row : EventRow}
    {decoded : Option DecodedContent} (h : addEvent runtime now db row decoded = .ok (true, db')) :
    db'.event = db.event ++ [row] := by
  obtain ⟨derived, tombstones, -, -, -, hResult⟩ := addEvent_eq_ok_iff.mp h
  rcases hResult with ⟨-, hFalse, -⟩ | ⟨-, -, rfl⟩
  · cases hFalse
  · rfl

variable (runtime s) in
/-- A commit adds at most the row that the request has got a number for. -/
theorem commit_event (i : Nat) (request : Request) :
    (s.commit runtime i request).db.event = s.db.event ++ (s.added runtime request).toList ∧
      (s.commit runtime i request).banCall = s.banCall := by
  unfold commit added
  cases request.phase with
  | waiting => exact ⟨(List.append_nil _).symm, rfl⟩
  | checked incoming => exact ⟨(List.append_nil _).symm, rfl⟩
  | authorised incoming => exact ⟨(List.append_nil _).symm, rfl⟩
  | inserted incoming now id =>
      dsimp only
      cases hAdd : addEvent runtime now s.db (incoming.row runtime now id) incoming.decoded with
      | error status => exact ⟨(List.append_nil _).symm, rfl⟩
      | ok result =>
          obtain ⟨isNew, db⟩ := result
          cases isNew with
          | false => exact ⟨(List.append_nil _).symm, rfl⟩
          | true => exact ⟨event_of_addEvent hAdd, rfl⟩

theorem authorise_frame (i : Nat) (request : Request) :
    (s.authorise P i request).db = s.db ∧ (s.authorise P i request).banCall = s.banCall := by
  unfold authorise
  cases request.phase with
  | checked incoming =>
      dsimp only
      split <;> exact ⟨rfl, rfl⟩
  | waiting => exact ⟨rfl, rfl⟩
  | authorised incoming => exact ⟨rfl, rfl⟩
  | inserted incoming now id => exact ⟨rfl, rfl⟩

theorem insert_frame (now : Int) (i : Nat) (request : Request) :
    (s.insert now i request).db = s.db ∧ (s.insert now i request).banCall = s.banCall := by
  unfold insert
  cases request.phase <;> exact ⟨rfl, rfl⟩

/-- A move that does not touch the events and the ban call. -/
theorem Sweeps.onRequest {i : Nat} {move : Request → System}
    (h : ∀ request, (move request).db = s.db ∧ (move request).banCall = s.banCall) :
    Sweeps target s (s.onRequest i move).db.event (s.onRequest i move).banCall := by
  unfold System.onRequest
  cases s.requests[i]? with
  | none => exact .rests
  | some request =>
      dsimp only
      rw [(h request).1, (h request).2]
      exact .rests

/-- The flag is set before the sweep begins. -/
theorem setBanned_sweeps :
    Sweeps target s (s.setBanned target).db.event (s.setBanned target).banCall := by
  unfold setBanned
  split
  · next hCall => exact .begins hCall
  · exact .rests

/-- A batch is selected, or none is left and the sweep ends. -/
theorem selectBatch_sweeps :
    Sweeps target s (s.selectBatch target).db.event (s.selectBatch target).banCall := by
  unfold selectBatch
  split
  · next after hCall =>
      dsimp only
      split
      · next last hLast => exact .selects hCall hLast
      · next hNone => exact .ends hCall (List.getLast?_eq_none_iff.mp hNone)
  · exact .rests

/-- Only the rows of the batch go. -/
theorem eraseBatch_sweeps : Sweeps target s s.eraseBatch.db.event s.eraseBatch.banCall := by
  unfold eraseBatch
  split
  · next after batch hCall => exact .erases hCall
  · exact .rests

/-- The last transaction touches no event. -/
theorem eraseDerived_sweeps :
    Sweeps target s (s.eraseDerived target).db.event (s.eraseDerived target).banCall := by
  unfold eraseDerived
  split
  · next hCall => exact .finishes hCall
  · exact .rests

theorem fail_sweeps : Sweeps target s s.fail.db.event s.fail.banCall := by
  unfold fail
  split
  · exact .rests
  · exact .fails

variable (P runtime target) in
/-- A step commits an event, or at most moves the erasure on. -/
theorem step_cases (s : System) (action : Action) :
    (s.stores runtime action = none ∧
        Sweeps target s (s.step P runtime target action).db.event
          (s.step P runtime target action).banCall) ∨
      ∃ row, s.stores runtime action = some row ∧
        (s.step P runtime target action).db.event = s.db.event ++ [row] ∧
        (s.step P runtime target action).banCall = s.banCall := by
  cases action with
  | replicate => exact Or.inl ⟨rfl, .rests⟩
  | request bundles => exact Or.inl ⟨rfl, .rests⟩
  | check i => exact Or.inl ⟨rfl, .onRequest fun request => ⟨rfl, rfl⟩⟩
  | authorise i => exact Or.inl ⟨rfl, .onRequest (authorise_frame i)⟩
  | insert i now => exact Or.inl ⟨rfl, .onRequest (insert_frame now i)⟩
  | commit i =>
      have hStep : s.step P runtime target (.commit i) = s.onRequest i (s.commit runtime i) := rfl
      have hStores : s.stores runtime (.commit i) = s.requests[i]?.bind (s.added runtime) := rfl
      rw [hStep, hStores]
      unfold onRequest
      cases s.requests[i]? with
      | none => exact Or.inl ⟨rfl, .rests⟩
      | some request =>
          obtain ⟨hEvent, hCall⟩ := commit_event runtime s i request
          dsimp only
          rw [hEvent, hCall, Option.bind_some]
          cases s.added runtime request with
          | none =>
              rw [Option.toList_none, List.append_nil]
              exact Or.inl ⟨rfl, .rests⟩
          | some row => exact Or.inr ⟨row, rfl, rfl, rfl⟩
  | setBanned => exact Or.inl ⟨rfl, setBanned_sweeps⟩
  | selectBatch => exact Or.inl ⟨rfl, selectBatch_sweeps⟩
  | eraseBatch => exact Or.inl ⟨rfl, eraseBatch_sweeps⟩
  | eraseDerived => exact Or.inl ⟨rfl, eraseDerived_sweeps⟩
  | fail => exact Or.inl ⟨rfl, fail_sweeps⟩

/-! ### A bundle that is not interrupted -/

section Sequential

variable {i : Nat} {request : Request} {now : Int} {incoming : IncomingEvent}

theorem onRequest_eq {move : Request → System} (h : s.requests[i]? = some request) :
    s.onRequest i move = move request := by
  unfold onRequest
  rw [h]

theorem get_set (h : s.requests[i]? = some request) (next : Request) :
    (s.requests.set i next)[i]? = some next :=
  List.getElem?_set_self (List.getElem?_eq_some_iff.mp h).1

theorem close_setPhase (phase : Phase) (result : Except Status (List Blob)) :
    { request with phase := phase }.close result = request.close result := by
  cases result <;> rfl

theorem close_phase (request : Request) (result : Except Status (List Blob)) :
    (request.close result).phase = .waiting := by
  cases result <;> rfl

/-- The moves of the transaction of a bundle. -/
def transaction (i : Nat) (now : Int) : List Action := [.authorise i, .insert i now, .commit i]

variable (P runtime target now) in
/-- After the bundle is done, the moves that were left do nothing. -/
theorem step_waiting (hGet : s.requests[i]? = some request) (hPhase : request.phase = .waiting) :
    s.step P runtime target (.authorise i) = s ∧ s.step P runtime target (.insert i now) = s ∧
      s.step P runtime target (.commit i) = s := by
  refine ⟨(onRequest_eq hGet).trans ?_, (onRequest_eq hGet).trans ?_, (onRequest_eq hGet).trans ?_⟩
  · rw [authorise, hPhase]
  · rw [insert, hPhase]
  · rw [commit, hPhase]

variable (runtime) in
/-- What the transaction of an event answers, and what it leaves. -/
def outcome (s : System) (incoming : IncomingEvent) (now : Int) :
    Except Status Unit × Database × ProofCache :=
  match addEvent runtime now s.db (incoming.row runtime now (s.lastId + 1)) incoming.decoded with
  | .ok (true, db) => (.ok (), db, incoming.invalidate s.proofCache)
  | .ok (false, _) => (.ok (), s.db, s.proofCache)
  | .error _ => (.error internalError, s.db, s.proofCache)

variable (P runtime target now) in
/-- Two further steps store an authorised request, with the outcome of an event that is
processed at once. -/
theorem run_authorised (hGet : s.requests[i]? = some request)
    (hPhase : request.phase = .authorised incoming) :
    let after := (s.step P runtime target (.insert i now)).step P runtime target (.commit i)
    let outcome := outcome runtime s incoming now
    after.db = outcome.2.1 ∧ after.proofCache = outcome.2.2 ∧
      after.requests[i]? = some (request.close (outcome.1.map fun _ => incoming.blobs)) := by
  intro after outcome
  let inserted : Request := { request with phase := .inserted incoming now (s.lastId + 1) }
  let t : System := { s.setRequest i inserted with lastId := s.lastId + 1 }
  have hInsert : s.step P runtime target (.insert i now) = t := by
    refine (onRequest_eq hGet).trans ?_
    rw [insert, hPhase]
  have hInserted : t.requests[i]? = some inserted := get_set hGet inserted
  have hAfter : after = t.commit runtime i inserted := by
    show (s.step P runtime target (.insert i now)).step P runtime target (.commit i) = _
    rw [hInsert]
    exact onRequest_eq hInserted
  have hClosed (result : Except Status (List Blob)) :
      (t.requests.set i (inserted.close result))[i]? = some (request.close result) :=
    (get_set hInserted _).trans (congrArg some (close_setPhase _ result))
  have hOutcome : outcome = System.outcome runtime s incoming now := rfl
  rw [hAfter, hOutcome]
  unfold commit System.outcome
  dsimp only [inserted]
  have hDb : t.db = s.db := rfl
  rw [hDb]
  cases addEvent runtime now s.db (incoming.row runtime now (s.lastId + 1)) incoming.decoded with
  | error status => exact ⟨rfl, rfl, hClosed _⟩
  | ok result =>
      obtain ⟨isNew, db⟩ := result
      cases isNew with
      | true => exact ⟨rfl, rfl, hClosed _⟩
      | false => exact ⟨rfl, rfl, hClosed _⟩

variable (P runtime target now) in
/-- The moves of a transaction, one after the other, are `storeEvent`. -/
theorem run_checked (hGet : s.requests[i]? = some request) (hPhase : request.phase = .checked incoming) :
    let after := run (step P runtime target) s (transaction i now)
    let stored := storeEvent P runtime now (s.lastId + 1) ⟨s.db, s.proofCache, request.bannedCache⟩ incoming
    after.db = stored.2.db ∧ after.proofCache = stored.2.proofCache ∧
      stored.2.bannedCache = request.bannedCache ∧
      after.requests[i]? = some (request.close (stored.1.map fun _ => incoming.blobs)) := by
  intro after stored
  have hAfter : after = ((s.authorise P i request).step P runtime target (.insert i now)).step P runtime
      target (.commit i) := by
    have hAuthorise : s.step P runtime target (.authorise i) = s.authorise P i request := onRequest_eq hGet
    rw [← hAuthorise]
    rfl
  have hStored : stored = storeEvent P runtime now (s.lastId + 1)
      ⟨s.db, s.proofCache, request.bannedCache⟩ incoming := rfl
  rw [hAfter, hStored]
  unfold storeEvent authorise
  rw [hPhase]
  dsimp only
  cases incoming.authorize P s.db s.proofCache with
  | mk verdict cache =>
      cases verdict with
      | error status =>
          let t : System := { s.setRequest i (request.close (.error status)) with proofCache := cache }
          have hClosed : t.requests[i]? = some (request.close (.error status)) := get_set hGet _
          obtain ⟨-, hInsert, hCommit⟩ := step_waiting P runtime target now hClosed (close_phase request _)
          show ((t.step P runtime target (.insert i now)).step P runtime target (.commit i)).db = _ ∧ _
          rw [hInsert, hCommit]
          exact ⟨rfl, rfl, rfl, hClosed⟩
      | ok _ =>
          let authorised : Request := { request with phase := .authorised incoming }
          let t : System := { s.setRequest i authorised with proofCache := cache }
          have hAuthorised : t.requests[i]? = some authorised := get_set hGet _
          have hRest := run_authorised P runtime target now hAuthorised rfl
          have hOutcome : outcome runtime t incoming now =
              match addEvent runtime now s.db (incoming.row runtime now (s.lastId + 1)) incoming.decoded with
              | .ok (true, db) => (.ok (), db, incoming.invalidate cache)
              | .ok (false, _) => (.ok (), s.db, cache)
              | .error _ => (.error internalError, s.db, cache) := rfl
          rw [hOutcome] at hRest
          revert hRest
          dsimp only
          cases addEvent runtime now s.db (incoming.row runtime now (s.lastId + 1)) incoming.decoded with
          | error status => exact fun hRest => ⟨hRest.1, hRest.2.1, rfl, hRest.2.2⟩
          | ok result =>
              obtain ⟨isNew, db⟩ := result
              cases isNew with
              | true => exact fun hRest => ⟨hRest.1, hRest.2.1, rfl, hRest.2.2⟩
              | false => exact fun hRest => ⟨hRest.1, hRest.2.1, rfl, hRest.2.2⟩

/-- A bundle of a request that nothing interrupts, and that reads what is stored, is
`process_event`. -/
theorem run_bundle {bundle : EventBundle} {rest : List EventBundle} (hGet : s.requests[i]? = some request)
    (hPhase : request.phase = .waiting) (hBundles : request.bundles = bundle :: rest)
    (hCurrent : s.roDb = s.db) :
    let after := run (step P runtime target) s (.check i :: transaction i now)
    let processed := processEvent P runtime now (s.lastId + 1)
      ⟨s.db, s.proofCache, request.bannedCache⟩ bundle
    after.db = processed.2.db ∧ after.proofCache = processed.2.proofCache ∧
      after.requests[i]? =
        some ({ request with bannedCache := processed.2.bannedCache }.close processed.1) := by
  obtain ⟨bundles, index, bannedCache, errors, blobs, phase, early⟩ := request
  obtain rfl : phase = .waiting := hPhase
  obtain rfl : bundles = bundle :: rest := hBundles
  intro after processed
  let request : Request := ⟨bundle :: rest, index, bannedCache, errors, blobs, .waiting, early⟩
  let t : System := s.setRequest i (request.check P s.roDb s.proofCache)
  have hAfter : after = run (step P runtime target) t (transaction i now) := by
    show run (step P runtime target) (s.step P runtime target (.check i)) (transaction i now) = _
    exact congrArg (run (step P runtime target) · (transaction i now)) (onRequest_eq hGet)
  have hChecked : t.requests[i]? = some (request.check P s.db s.proofCache) := by
    rw [← hCurrent]
    exact get_set hGet _
  have hClosed {next : Request} (hNext : request.check P s.db s.proofCache = next)
      (hWaiting : next.phase = .waiting) : after = t := by
    rw [hNext] at hChecked
    obtain ⟨hAuthorise, hInsert, hCommit⟩ := step_waiting P runtime target now hChecked hWaiting
    rw [hAfter]
    show ((t.step P runtime target (.authorise i)).step P runtime target (.insert i now)).step P runtime
      target (.commit i) = t
    rw [hAuthorise, hInsert, hCommit]
  have hCheck : request.check P s.db s.proofCache = request.check P s.db s.proofCache := rfl
  have hProcessed : processed = processEvent P runtime now (s.lastId + 1)
      ⟨s.db, s.proofCache, bannedCache⟩ bundle := rfl
  unfold processEvent at hProcessed
  conv_rhs at hCheck => rw [Request.check]
  dsimp only [request] at hCheck
  cases hOpen : openBundle P bundle with
  | error status =>
      rw [hOpen] at hCheck hProcessed
      rw [hClosed hCheck (close_phase _ _), hProcessed]
      exact ⟨rfl, rfl, hChecked.trans (congrArg some hCheck)⟩
  | ok parts =>
      obtain ⟨signed, event, key⟩ := parts
      rw [hOpen] at hCheck hProcessed
      dsimp only at hCheck hProcessed
      have hFrame := isBanned_frame ⟨s.db, s.proofCache, bannedCache⟩ key.identity
      cases hBanned : isBanned ⟨s.db, s.proofCache, bannedCache⟩ key.identity with
      | mk banned server =>
          rw [hBanned] at hCheck hProcessed hFrame
          obtain ⟨hDb, hCache⟩ := hFrame
          cases banned with
          | true =>
              rw [hClosed hCheck (close_phase _ _), hProcessed]
              exact ⟨hDb.symm, hCache.symm, hChecked.trans (congrArg some hCheck)⟩
          | false =>
              dsimp only at hCheck hProcessed
              cases hEvent : checkEvent P bundle signed event key with
              | error status =>
                  rw [hEvent] at hCheck hProcessed
                  rw [hClosed hCheck (close_phase _ _), hProcessed]
                  exact ⟨hDb.symm, hCache.symm, hChecked.trans (congrArg some hCheck)⟩
              | ok incoming =>
                  rw [hEvent] at hCheck hProcessed
                  dsimp only at hCheck hProcessed
                  rw [hCheck] at hChecked
                  obtain ⟨db, proofCache, remembered⟩ := server
                  obtain rfl : db = s.db := hDb
                  obtain rfl : proofCache = s.proofCache := hCache
                  have hRun := run_checked P runtime target now hChecked rfl
                  rw [← hAfter] at hRun
                  have hSame : storeEvent P runtime now (t.lastId + 1) ⟨t.db, t.proofCache, remembered⟩
                      incoming = storeEvent P runtime now (s.lastId + 1)
                        ⟨s.db, s.proofCache, remembered⟩ incoming := rfl
                  dsimp only at hRun
                  rw [hSame] at hRun
                  rw [hProcessed]
                  generalize storeEvent P runtime now (s.lastId + 1)
                    ⟨s.db, s.proofCache, remembered⟩ incoming = stored at hRun
                  obtain ⟨verdict, server⟩ := stored
                  obtain ⟨hRunDb, hRunCache, hKept, hRunClosed⟩ := hRun
                  cases verdict with
                  | error status => exact ⟨hRunDb, hRunCache, hKept ▸ hRunClosed⟩
                  | ok _ => exact ⟨hRunDb, hRunCache, hKept ▸ hRunClosed⟩

end Sequential

/-! ### Ids -/

/-- The id of a row that is not committed yet is positive. -/
def Numbered (request : Request) : Prop :=
  ∀ incoming now id, request.phase = .inserted incoming now id → 0 < id

/-- Rows have positive ids. -/
structure Regular (s : System) : Prop where
  event : ∀ row ∈ s.db.event, 0 < row.id
  request : ∀ request ∈ s.requests, Numbered request

theorem numbered_of_waiting {request : Request} (h : request.phase = .waiting) : Numbered request := by
  intro incoming now id hPhase
  cases h.symm.trans hPhase

theorem numbered_close (request : Request) (result : Except Status (List Blob)) :
    Numbered (request.close result) := numbered_of_waiting (close_phase request result)

theorem numbered_of_checked {request : Request} {incoming : IncomingEvent}
    (h : request.phase = .checked incoming) : Numbered request := by
  intro _ _ _ hPhase
  cases h.symm.trans hPhase

theorem numbered_of_authorised {request : Request} {incoming : IncomingEvent}
    (h : request.phase = .authorised incoming) : Numbered request := by
  intro _ _ _ hPhase
  cases h.symm.trans hPhase

theorem numbered_check {request : Request} (h : Numbered request) (roDb : Database)
    (cache : ProofCache) : Numbered (request.check P roDb cache) := by
  unfold Request.check
  split
  · split
    · exact numbered_close _ _
    · split
      · exact numbered_close _ _
      · split
        · exact numbered_close _ _
        · exact numbered_of_checked rfl
  · exact h

theorem forall_set {Q : Request → Prop} {i : Nat} {request : Request} (hAll : ∀ r ∈ s.requests, Q r)
    (hNew : Q request) : ∀ r ∈ s.requests.set i request, Q r := by
  intro r hMem
  rcases List.mem_or_eq_of_mem_set hMem with hOld | rfl
  · exact hAll r hOld
  · exact hNew

theorem numbered_authorise (h : ∀ r ∈ s.requests, Numbered r) {i : Nat} {request : Request} :
    ∀ r ∈ (s.authorise P i request).requests, Numbered r := by
  unfold authorise
  split
  · split
    · exact forall_set h (numbered_close _ _)
    · exact forall_set h (numbered_of_authorised rfl)
  · exact h

theorem numbered_insert (h : ∀ r ∈ s.requests, Numbered r) {now : Int} {i : Nat} {request : Request} :
    ∀ r ∈ (s.insert now i request).requests, Numbered r := by
  unfold insert
  split
  · refine forall_set h ?_
    intro incoming now id hPhase
    cases hPhase
    exact Nat.succ_pos _
  · exact h

theorem numbered_commit (h : ∀ r ∈ s.requests, Numbered r) {i : Nat} {request : Request} :
    ∀ r ∈ (s.commit runtime i request).requests, Numbered r := by
  unfold commit
  split
  · split
    · exact forall_set h (numbered_close _ _)
    · exact forall_set h (numbered_close _ _)
    · exact forall_set h (numbered_close _ _)
  · exact h

theorem numbered_onRequest (h : ∀ r ∈ s.requests, Numbered r) {i : Nat} {move : Request → System}
    (hMove : ∀ request ∈ s.requests, ∀ r ∈ (move request).requests, Numbered r) :
    ∀ r ∈ (s.onRequest i move).requests, Numbered r := by
  unfold onRequest
  cases hGet : s.requests[i]? with
  | none => exact h
  | some request => exact hMove request (List.mem_of_getElem? hGet)

theorem numbered_step (h : ∀ r ∈ s.requests, Numbered r) (action : Action) :
    ∀ r ∈ (s.step P runtime target action).requests, Numbered r := by
  cases action with
  | replicate => exact h
  | request bundles =>
      intro r hMem
      rcases List.mem_append.mp hMem with hOld | hNew
      · exact h r hOld
      · rw [List.mem_singleton.mp hNew]
        exact numbered_of_waiting rfl
  | check i =>
      exact numbered_onRequest h fun request hIn => forall_set h (numbered_check (h request hIn) _ _)
  | authorise i => exact numbered_onRequest h fun _ _ => numbered_authorise h
  | insert i now => exact numbered_onRequest h fun _ _ => numbered_insert h
  | commit i => exact numbered_onRequest h fun _ _ => numbered_commit h
  | setBanned =>
      show ∀ r ∈ (s.setBanned target).requests, Numbered r
      unfold setBanned
      split <;> exact h
  | selectBatch =>
      show ∀ r ∈ (s.selectBatch target).requests, Numbered r
      unfold selectBatch
      split
      · dsimp only
        split <;> exact h
      · exact h
  | eraseBatch =>
      show ∀ r ∈ s.eraseBatch.requests, Numbered r
      unfold eraseBatch
      split <;> exact h
  | eraseDerived =>
      show ∀ r ∈ (s.eraseDerived target).requests, Numbered r
      unfold eraseDerived
      split <;> exact h
  | fail =>
      show ∀ r ∈ s.fail.requests, Numbered r
      unfold fail
      split <;> exact h

/-- A row that a commit adds has the id that the sequence gave it. -/
theorem Numbered.added {request : Request} (h : Numbered request) {row : EventRow}
    (hRow : s.added runtime request = some row) : 0 < row.id := by
  unfold System.added at hRow
  split at hRow
  · next incoming now id hPhase =>
      split at hRow
      · cases hRow
        exact h incoming now id hPhase
      · cases hRow
      · cases hRow
  · cases hRow

theorem Regular.stores (h : s.Regular) {row : EventRow} (hRow : s.stores runtime action = some row) :
    0 < row.id := by
  cases action with
  | commit i =>
      obtain ⟨request, hGet, hAdded⟩ := Option.bind_eq_some_iff.mp hRow
      exact (h.request request (List.mem_of_getElem? hGet)).added hAdded
  | replicate => cases hRow
  | request bundles => cases hRow
  | check i => cases hRow
  | authorise i => cases hRow
  | insert i now => cases hRow
  | setBanned => cases hRow
  | selectBatch => cases hRow
  | eraseBatch => cases hRow
  | eraseDerived => cases hRow
  | fail => cases hRow

/-- A sweep only takes rows away. -/
theorem Sweeps.subset {events : List EventRow} {call : BanCall} (h : Sweeps target s events call) :
    events ⊆ s.db.event := by
  cases h with
  | erases hErasing => exact List.filter_subset_self _
  | rests => exact List.Subset.refl _
  | begins hIdle => exact List.Subset.refl _
  | selects hErasing hLast => exact List.Subset.refl _
  | ends hErasing hNone => exact List.Subset.refl _
  | finishes hErased => exact List.Subset.refl _
  | fails => exact List.Subset.refl _

/-- Ids stay positive. -/
theorem Regular.step (h : s.Regular) (action : Action) : (s.step P runtime target action).Regular := by
  refine ⟨?_, numbered_step h.request action⟩
  rcases step_cases P runtime target s action with
    ⟨-, hSweeps⟩ | ⟨row, hStores, hEvent, -⟩
  · exact fun row hRow => h.event row (hSweeps.subset hRow)
  · rw [hEvent]
    intro other hOther
    rcases List.mem_append.mp hOther with hOld | hNew
    · exact h.event other hOld
    · rw [List.mem_singleton.mp hNew]
      exact h.stores hStores

/-! ### What the erasure leaves -/

theorem mem_selectEraseEvents {db : Database} {after : Nat} {row : EventRow}
    (h : row ∈ db.selectEraseEvents target after) : after < row.id := by
  have hRow := mem_listing.mp (List.mem_of_mem_take h)
  exact of_decide_eq_true (List.mem_filter.mp hRow).2

/-- An event after the mark and up to the last of the batch has its id in the batch. -/
theorem id_mem_selectEraseEvents {db : Database} {after : Nat} {row last : EventRow}
    (hLast : (db.selectEraseEvents target after).getLast? = some last) (hRow : row ∈ db.event)
    (hTarget : row.key.identity = target) (hAfter : after < row.id) (hLe : row.id ≤ last.id) :
    row.id ∈ (db.selectEraseEvents target after).map EventRow.id := by
  refine place_mem_take (listing_weakly _) hLast (mem_listing.mpr ?_) hLe
  exact List.mem_filter.mpr ⟨List.mem_filter.mpr ⟨hRow, decide_eq_true hTarget⟩, decide_eq_true hAfter⟩

/-- An empty batch says that no row of the target is above the cursor. -/
theorem selectEraseEvents_eq_nil {db : Database} {after : Nat}
    (h : db.selectEraseEvents target after = []) {row : EventRow} (hRow : row ∈ db.event)
    (hTarget : row.key.identity = target) : row.id ≤ after := by
  by_contra hNot
  have hMem : row ∈ listing EventRow.id (following EventRow.id after
      (db.event.filter fun row => row.key.identity = target)) := by
    refine mem_listing.mpr (List.mem_filter.mpr ⟨List.mem_filter.mpr ⟨hRow, decide_eq_true hTarget⟩, ?_⟩)
    exact decide_eq_true (Nat.lt_of_not_le hNot)
  unfold Database.selectEraseEvents at h
  rcases List.take_eq_nil_iff.mp h with hZero | hNil
  · cases hZero
  · rw [hNil] at hMem
    cases hMem

/-- The erasure lets no event escape by itself, and what escaped it does not erase
later on. -/
theorem Sweeps.kept_iff {events : List EventRow} {call : BanCall} (h : Sweeps target s events call)
    (hRegular : s.Regular) (hEnds : call ≠ .failed) : KeptIn target events call ↔ Kept target s := by
  unfold Kept
  cases h with
  | rests => exact Iff.rfl
  | begins hIdle =>
      rw [hIdle]
      exact iff_of_true (fun row hRow _ hPassed => Nat.not_le.mpr (hRegular.event row hRow) hPassed.1)
        fun _ _ _ => not_false
  | @selects after last hErasing hLast =>
      rw [hErasing]
      have hAfter : after < last.id := mem_selectEraseEvents (List.mem_of_getLast? hLast)
      constructor
      · intro hKept row hRow hTarget hPassed
        refine hKept row hRow hTarget ⟨hPassed.1.trans hAfter.le, fun hMem => ?_⟩
        obtain ⟨other, hOther, hId⟩ := List.mem_map.mp hMem
        exact Nat.not_lt.mpr hPassed.1 (hId ▸ mem_selectEraseEvents hOther)
      · intro hKept row hRow hTarget hPassed
        refine hPassed.2 (id_mem_selectEraseEvents hLast hRow hTarget ?_ hPassed.1)
        exact Nat.lt_of_not_le fun hLe => hKept row hRow hTarget ⟨hLe, List.not_mem_nil⟩
  | ends hErasing hNone =>
      rw [hErasing]
      constructor
      · intro hKept row hRow hTarget
        exact absurd trivial (hKept row hRow hTarget)
      · intro hKept row hRow hTarget
        have hLe := selectEraseEvents_eq_nil hNone hRow hTarget
        exact absurd ⟨hLe, List.not_mem_nil⟩ (hKept row hRow hTarget)
  | @erases after batch hErasing =>
      rw [hErasing]
      constructor
      · intro hKept row hRow hTarget hPassed
        have hStays : row ∈ s.db.event.filter fun row => !batch.contains row.id := by
          rw [List.mem_filter]
          exact ⟨hRow, by simpa using hPassed.2⟩
        exact hKept row hStays hTarget ⟨hPassed.1, List.not_mem_nil⟩
      · intro hKept row hStays hTarget hPassed
        obtain ⟨hRow, hNot⟩ := List.mem_filter.mp hStays
        exact hKept row hRow hTarget ⟨hPassed.1, by simpa using hNot⟩
  | finishes hErased =>
      rw [hErased]
      exact Iff.rfl
  | fails => exact absurd rfl hEnds

/-- A step keeps the condition just when what it commits is in time. -/
theorem kept_step_iff (hRegular : s.Regular) (hEnds : (s.step P runtime target action).NotFailed) :
    Kept target (s.step P runtime target action) ↔
      Kept target s ∧ InTime runtime target s action := by
  rcases step_cases P runtime target s action with
    ⟨hNone, hSweeps⟩ | ⟨row, hStores, hEvent, hCall⟩
  · have hInTime : InTime runtime target s action := by
      intro row hRow
      cases hNone.symm.trans hRow
    exact (hSweeps.kept_iff hRegular hEnds).trans (and_iff_left hInTime).symm
  · unfold Kept InTime
    rw [hEvent, hCall, hStores]
    constructor
    · intro hKept
      refine ⟨fun other hOther => hKept other (List.mem_append_left _ hOther), fun other hOther => ?_⟩
      cases hOther
      exact hKept row (List.mem_append_right _ (List.mem_singleton_self row))
    · rintro ⟨hKept, hInTime⟩ other hOther
      rcases List.mem_append.mp hOther with hOld | hNew
      · exact hKept other hOld
      · exact hInTime other (congrArg some (List.mem_singleton.mp hNew).symm)

/-- A call that has failed does not go on. -/
theorem notFailed_of_step (hEnds : (s.step P runtime target action).NotFailed) : s.NotFailed := by
  intro hFailed
  apply hEnds
  rcases step_cases P runtime target s action with
    ⟨-, hSweeps⟩ | ⟨row, -, -, hCall⟩
  · generalize (s.step P runtime target action).db.event = events at hSweeps
    generalize (s.step P runtime target action).banCall = call at hSweeps
    cases hSweeps with
    | rests => exact hFailed
    | begins hIdle => cases hFailed.symm.trans hIdle
    | selects hErasing hLast => cases hFailed.symm.trans hErasing
    | ends hErasing hNone => cases hFailed.symm.trans hErasing
    | erases hErasing => cases hFailed.symm.trans hErasing
    | finishes hErased => cases hFailed.symm.trans hErased
    | fails => rfl
  · exact hCall.trans hFailed

theorem start_regular {db : Database} (hIds : ∀ row ∈ db.event, 0 < row.id) (roDb : Database)
    (cache : ProofCache) (lastId : Nat) : (start db roDb cache lastId).Regular :=
  ⟨hIds, fun _ hRequest => absurd hRequest List.not_mem_nil⟩

theorem kept_start (db roDb : Database) (cache : ProofCache) (lastId : Nat) :
    Kept target (start db roDb cache lastId) := fun _ _ _ => not_false

/-- At the end, an event that is stored is one that escaped. -/
theorem Settled.kept_iff (h : s.Settled) :
    Kept target s ↔ ∀ row ∈ s.db.event, row.key.identity ≠ target := by
  unfold Kept KeptIn
  rw [h.1]
  constructor
  · exact fun hKept row hRow hTarget => hKept row hRow hTarget trivial
  · exact fun hNone row hRow hTarget _ => hNone row hRow hTarget

/-- Once the ban call and the requests that overlapped it have finished, no event of the
identity is stored exactly if every one that was committed during the erasure or
after it came before the erasure was past its id. -/
theorem ban_final_iff {db : Database} (hIds : ∀ row ∈ db.event, 0 < row.id) (roDb : Database)
    (cache : ProofCache) (lastId : Nat) (actions : List Action)
    (hSettled : (run (step P runtime target) (start db roDb cache lastId) actions).Settled) :
    (∀ row ∈ (run (step P runtime target) (start db roDb cache lastId) actions).db.event,
        row.key.identity ≠ target) ↔
      Along (step P runtime target) (InTime runtime target) (start db roDb cache lastId) actions := by
  have hEnd : (run (step P runtime target) (start db roDb cache lastId) actions).NotFailed := by
    intro hFailed
    cases hSettled.1.symm.trans hFailed
  have hKept := (kept_run_iff (fun hRegular => hRegular.step _) notFailed_of_step kept_step_iff
    (start_regular hIds roDb cache lastId) hEnd).2
  rw [and_iff_right (kept_start db roDb cache lastId)] at hKept
  exact hSettled.kept_iff.symm.trans hKept

end System

open TableInstance

/-- Alice is banned while a request stores an event of hers. -/
def bannedMidway : List Action :=
  [.request [(arrival 1 (key 1)).bundle], .check 0, .setBanned, .authorise 0, .insert 0 0, .commit 0,
    .selectBatch, .eraseBatch, .selectBatch, .eraseDerived]

/-- A row stored while the sweep is still below it is erased with the others. -/
theorem ban_final_midway :
    ¬∃ row ∈ (run (System.step deletePrimitives TableInstance.runtime aliceIdentity)
        (.start .empty .empty .empty 0) bannedMidway).db.event, row.key.identity = aliceIdentity := by
  rintro ⟨row, hRow, hAlice⟩
  have hIds : ∀ row ∈ Database.empty.event, 0 < row.id := fun _ hNone => absurd hNone List.not_mem_nil
  refine (System.ban_final_iff hIds .empty .empty 0 bannedMidway ?_).mpr ?_ row hRow hAlice
  · decide +kernel
  · decide +kernel

/-- The request checks the ban before it, and commits after the erasure. -/
def committedLate : List Action :=
  [.request [(arrival 1 (key 1)).bundle], .check 0, .setBanned, .selectBatch, .eraseDerived,
    .authorise 0, .insert 0 0, .commit 0]

/-- A request that has checked the ban before it is stored after the erasure. -/
theorem ban_not_final :
    (run (System.step deletePrimitives TableInstance.runtime aliceIdentity)
        (.start .empty .empty .empty 0) committedLate).Settled ∧
      ¬∀ row ∈ (run (System.step deletePrimitives TableInstance.runtime aliceIdentity)
        (.start .empty .empty .empty 0) committedLate).db.event, row.key.identity ≠ aliceIdentity := by
  decide +kernel

end Bans

end Polycentric.Server
