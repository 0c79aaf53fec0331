import Polycentric.Server.PutEvents
import Polycentric.Server.UpdateFrame

/-! Where the rows of the derived tables come from. In a run of `put_events` from
an empty database every row was brought by an event whose signer the identity
authorised at that time, and every row that a `Delete` removes was brought by the
deleted event or refers to it. -/
namespace Polycentric.Server

open Proto Result Memo Runs

variable (P : Primitives) (runtime : Runtime)

/-- The bodies that the update of the derived tables knows. -/
def updatesDerived (body : ContentBody) : Bool :=
  match body with
  | .post _ | .follow _ | .block _ | .reaction _ | .profileUpdate _ | .repost _ | .delete _ => true
  | _ => false

/-- A collection that survives the width of its column. -/
def Narrow (collection : Int32) : Prop := collection.toInt16.toInt32 = collection

instance (collection : Int32) : Decidable (Narrow collection) :=
  inferInstanceAs (Decidable (_ = _))

/-! ### Coherence of the caches -/

section Coherence

variable {P} {db : Database} {cache : ProofCache} {row : EventRow} {decoded : Option DecodedContent}
  {derived : DerivedTables} {tombstones : List ContentDeleteRow}

/-- Content is found as before, unless it is the one that was stored. -/
theorem find_content_stored {digest : ContentDigest}
    (h : ∀ d, freshContent db decoded = some d → d.digest ≠ digest) :
    ((stored db row decoded derived tombstones).content.find? fun c => c.digest = digest) =
      db.content.find? fun c => c.digest = digest := by
  unfold stored
  cases hFresh : freshContent db decoded with
  | none => simp
  | some d => simp [List.find?_append, h d hFresh]

/-- The identity of no other stream changes: the new event is not in it, and it
brings no content for it. -/
theorem latestValidIdentityContent_stored {identity : String}
    (hRow : row.key.collection = Collections.identity.toInt16 → row.key.identity ≠ identity)
    (hContent : ∀ d, freshContent db decoded = some d → ∀ e ∈ db.event,
      e.key.collection = Collections.identity.toInt16 → e.key.identity = identity →
        e.contentDigest ≠ some d.digest) :
    (stored db row decoded derived tombstones).latestValidIdentityContent P identity =
      db.latestValidIdentityContent P identity := by
  have hRows : (stored db row decoded derived tombstones).listIdentityEventsForIdentities [identity] =
      db.listIdentityEventsForIdentities [identity] := by
    unfold Database.listIdentityEventsForIdentities
    have hEvents : ((stored db row decoded derived tombstones).event.filter fun e =>
        e.key.collection = Collections.identity.toInt16 ∧ e.key.identity ∈ [identity]) =
        db.event.filter fun e =>
          e.key.collection = Collections.identity.toInt16 ∧ e.key.identity ∈ [identity] := by
      have hOut : ¬(row.key.collection = Collections.identity.toInt16 ∧
          row.key.identity ∈ [identity]) := by
        rintro ⟨hCollection, hIdentity⟩
        exact hRow hCollection (List.mem_singleton.mp hIdentity)
      simp only [stored, List.filter_append, List.filter_singleton, decide_eq_false hOut]
      simp
    rw [hEvents]
    apply List.map_congr_left
    intro e he
    rw [List.mem_insertionSort, List.mem_filter, decide_eq_true_eq, List.mem_singleton] at he
    cases hDigest : e.contentDigest with
    | none => rfl
    | some digest =>
        simp only [Option.bind_some]
        rw [find_content_stored]
        rintro d hFresh rfl
        exact hContent d hFresh e he.1 he.2.1 he.2.2 hDigest
  unfold Database.latestValidIdentityContent
  rw [hRows]

/-- A row of another stream changes no signature list. -/
theorem canonicalSignatures_stored {identity : String} {collection : Int32}
    (h : ¬(row.key.collection = collection.toInt16 ∧ row.key.identity = identity)) :
    (stored db row decoded derived tombstones).canonicalSignatures P identity collection =
      db.canonicalSignatures P identity collection := by
  unfold Database.canonicalSignatures
  simp only [stored, List.filter_append, List.filter_singleton, decide_eq_false h]
  simp

end Coherence

/-- An event that changes the answers about its own stream only. Its collection
fits its column. Content that it brings late belongs to no identity event that is
stored already, unless that is of the same identity and the event itself is an
identity event. -/
structure KeepsToStream (db : Database) (incoming : IncomingEvent) : Prop where
  narrow : Narrow incoming.key.collection
  content : ∀ d, freshContent db incoming.decoded = some d → ∀ e ∈ db.event,
    e.key.collection = Collections.identity.toInt16 → e.contentDigest = some d.digest →
      incoming.key.collection = Collections.identity ∧ e.key.identity = incoming.key.identity

section KeepsToStream

variable {P} {db : Database} {incoming : IncomingEvent} {row : EventRow} {derived : DerivedTables}
  {tombstones : List ContentDeleteRow}

theorem Narrow.eq_of_toInt16_eq {a b : Int32} (ha : Narrow a) (hb : Narrow b)
    (h : a.toInt16 = b.toInt16) : a = b := by
  rw [← ha, ← hb, h]

/-- A row that keeps to its stream leaves the documents of other identities as they are. -/
theorem KeepsToStream.latestValidIdentityContent_eq (h : KeepsToStream db incoming)
    (hRow : row.key = .of incoming.key incoming.signedBy) {identity : String}
    (hOther : incoming.key.collection = Collections.identity → identity ≠ incoming.key.identity) :
    (stored db row incoming.decoded derived tombstones).latestValidIdentityContent P identity =
      db.latestValidIdentityContent P identity := by
  have hCollection : row.key.collection = incoming.key.collection.toInt16 := by rw [hRow]; rfl
  have hIdentity : row.key.identity = incoming.key.identity := by rw [hRow]; rfl
  have hIdentityNarrow : Narrow Collections.identity := by decide
  apply latestValidIdentityContent_stored
  · intro hSame
    rw [hCollection] at hSame
    rw [hIdentity]
    exact (hOther (h.narrow.eq_of_toInt16_eq hIdentityNarrow hSame)).symm
  · intro d hFresh e he hStream hOwner hDigest
    obtain ⟨hIs, hEq⟩ := h.content d hFresh e he hStream hDigest
    exact hOther hIs (hOwner.symm.trans hEq)

/-- A row that keeps to its stream leaves the signature lists of other streams as they are. -/
theorem KeepsToStream.canonicalSignatures_eq (h : KeepsToStream db incoming)
    (hRow : row.key = .of incoming.key incoming.signedBy) {identity : String} {collection : Int32}
    (hNarrow : Narrow collection)
    (hOther : (identity, collection) ≠ (incoming.key.identity, incoming.key.collection)) :
    (stored db row incoming.decoded derived tombstones).canonicalSignatures P identity collection =
      db.canonicalSignatures P identity collection := by
  have hCollection : row.key.collection = incoming.key.collection.toInt16 := by rw [hRow]; rfl
  have hIdentity : row.key.identity = incoming.key.identity := by rw [hRow]; rfl
  apply canonicalSignatures_stored
  rintro ⟨hSame, hOwner⟩
  rw [hCollection] at hSame
  rw [hIdentity] at hOwner
  exact hOther (by rw [h.narrow.eq_of_toInt16_eq hNarrow hSame, hOwner])

end KeepsToStream

/-- An event that the derived tables and the caches are built for. Its collection
fits its column. In the identity collection it has none of the bodies that update
the derived tables. Content that it brings late belongs to no identity event that
is stored already, unless that is of the same identity and the event itself is an
identity event. -/
structure RegularEvent (db : Database) (incoming : IncomingEvent) : Prop where
  narrow : Narrow incoming.key.collection
  body : incoming.key.collection = Collections.identity →
    ∀ body, incoming.body = some body → updatesDerived body = false
  content : ∀ d, freshContent db incoming.decoded = some d → ∀ e ∈ db.event,
    e.key.collection = Collections.identity.toInt16 → e.contentDigest = some d.digest →
      incoming.key.collection = Collections.identity ∧ e.key.identity = incoming.key.identity

theorem RegularEvent.keepsToStream {db : Database} {incoming : IncomingEvent}
    (h : RegularEvent db incoming) : KeepsToStream db incoming :=
  ⟨h.narrow, h.content⟩

/-- The caches hold what the database would answer, and only for collections that
fit their column. -/
structure Synced (db : Database) (cache : ProofCache) : Prop where
  coherent : cache.Coherent P db
  narrow : cache.canonicalTable.Coherent fun stream _ => Narrow stream.2

section Synced

variable {P} {runtime} {db db' : Database} {cache : ProofCache} {incoming : IncomingEvent}

/-- Authorising fills the cache with what the database says. -/
theorem Synced.authorize (h : Synced P db cache) (hNarrow : Narrow incoming.key.collection) :
    Synced P db (incoming.authorize P db cache).2 := by
  unfold IncomingEvent.authorize
  split_ifs with hCollection
  · refine ⟨authorizeEventSigner_coherent h.coherent, ?_⟩
    rcases @authorizeEventSigner_canonicalTable P db cache incoming.key.identity
        incoming.key.collection incoming.signedBy incoming.signed.signature with hSame | hInsert
    · rw [hSame]
      exact h.narrow
    · rw [hInsert]
      exact h.narrow.insert hNarrow
  · exact h

/-- Storing takes what it changes out of the cache. -/
theorem Synced.stored {row : EventRow} {derived : DerivedTables}
    {tombstones : List ContentDeleteRow} (h : Synced P db cache)
    (hRegular : RegularEvent db incoming)
    (hRow : row.key = .of incoming.key incoming.signedBy) :
    Synced P (stored db row incoming.decoded derived tombstones) (incoming.invalidate cache) := by
  have hKeeps := hRegular.keepsToStream
  have hCanonical : (cache.canonicalTable.remove (incoming.key.identity,
      incoming.key.collection)).Coherent fun stream signatures =>
        (Server.stored db row incoming.decoded derived tombstones).canonicalSignatures P stream.1
          stream.2 = signatures ∧ Narrow stream.2 := by
    refine (h.coherent.canonical.and h.narrow).remove ?_
    rintro ⟨identity, collection⟩ signatures hOther ⟨hValid, hNarrow⟩
    refine ⟨?_, hNarrow⟩
    rw [hKeeps.canonicalSignatures_eq hRow hNarrow hOther, hValid]
  unfold IncomingEvent.invalidate
  split_ifs with hIs
  · refine ⟨⟨?_, hCanonical.mono fun _ _ hBoth => hBoth.1⟩, hCanonical.mono fun _ _ hBoth => hBoth.2⟩
    refine h.coherent.identity.remove ?_
    intro identity document hOther hValid
    rw [hKeeps.latestValidIdentityContent_eq hRow fun _ => hOther, hValid]
  · refine ⟨⟨?_, hCanonical.mono fun _ _ hBoth => hBoth.1⟩, hCanonical.mono fun _ _ hBoth => hBoth.2⟩
    refine h.coherent.identity.mono ?_
    intro identity document hValid
    rw [hKeeps.latestValidIdentityContent_eq hRow fun hIdentity => absurd hIdentity hIs, hValid]

end Synced

/-! ### What one event may change -/

/-- The event is signed, and the identity document resolved from the database
authorises its signer, or bounds it with this signature within the bound. -/
structure IncomingEvent.AuthorisedBy (db : Database) (identity : String)
    (incoming : IncomingEvent) : Prop where
  owner : incoming.key.identity = identity
  signature : incoming.signedBy.sigMatches P incoming.signed.signature
    incoming.signed.eventBytes = true
  document : ∃ document, db.latestValidIdentityContent P identity = some document ∧
    Authorises P db document identity incoming.signedBy incoming.key.collection
      incoming.signed.signature

section Changes

variable {P} {runtime} {db db' : Database} {cache : ProofCache} {incoming : IncomingEvent}
  {bundle : EventBundle} {now : Int} {id : Nat}

/-- An event that came in is signed by its signer. -/
theorem incomingEvent_signature (h : incomingEvent P bundle = some incoming) :
    incoming.signedBy.sigMatches P incoming.signed.signature incoming.signed.eventBytes = true := by
  unfold incomingEvent at h
  split at h
  · cases h
  · rw [toOption_eq_some_iff] at h
    simp only [checkEvent, bind_eq_ok_iff, okOr_eq_ok_iff, ensure_eq_ok_iff, pure, Except.pure,
      Except.ok.injEq] at h
    obtain ⟨signedBy, -, -, hSignature, decoded, -, rfl⟩ := h
    exact hSignature

/-- A body that no table is about changes no table. -/
theorem updateCache_of_not_updatesDerived {eventId : Nat} {identity : String} {body : ContentBody}
    (h : updatesDerived body = false) :
    updateCache runtime now db eventId identity body = .ok db.derived := by
  cases body <;> first | rfl | cases h

theorem contentBody_eq_body :
    (incoming.decoded.map DecodedContent.content).bind Content.contentBody = incoming.body :=
  map_content_bind_contentBody incoming.decoded

/-- An event that is stored leaves the derived tables alone, or it is authorised
and the tables are updated by its body. -/
theorem addEvent_derived (hSynced : Synced P db cache) (hRegular : RegularEvent db incoming)
    (hIncoming : incomingEvent P bundle = some incoming)
    (hAuthorised : (incoming.authorize P db cache).1 = .ok ())
    (hAdded : addEvent runtime now db (incoming.row runtime now id) incoming.decoded =
      .ok (true, db')) :
    db'.derived = db.derived ∨
      incoming.AuthorisedBy P db incoming.key.identity ∧ ∃ body, incoming.body = some body ∧
        eventIsAuthorised incoming.key.identity (incoming.decoded.map DecodedContent.content) = true ∧
        updateCache runtime now db id incoming.key.identity body = .ok db'.derived := by
  obtain ⟨derived, tombstones, hDerived, -, -, hResult⟩ := addEvent_eq_ok_iff.mp hAdded
  obtain ⟨-, -, rfl⟩ : _ ∧ true = true ∧ db' = stored db (incoming.row runtime now id)
      incoming.decoded derived tombstones := hResult.resolve_left fun h => nomatch h.2.1
  change derived = db.derived ∨ _
  unfold derivedAfter at hDerived
  rw [contentBody_eq_body] at hDerived
  cases hBody : incoming.body with
  | none =>
      rw [hBody] at hDerived
      exact Or.inl (Except.ok.inj hDerived).symm
  | some body =>
      simp only [hBody] at hDerived
      split_ifs at hDerived with hMay
      · rw [mapError_eq_ok_iff] at hDerived
        by_cases hCollection : incoming.key.collection = Collections.identity
        · -- An identity event has no body that updates the tables.
          rw [updateCache_of_not_updatesDerived (hRegular.body hCollection body hBody)] at hDerived
          exact Or.inl (Except.ok.inj hDerived).symm
        · refine Or.inr ⟨⟨rfl, incomingEvent_signature hIncoming, ?_⟩, body, rfl, hMay, hDerived⟩
          rw [IncomingEvent.authorize, if_pos hCollection] at hAuthorised
          exact (authorizeEventSigner_eq_ok_iff hSynced.coherent).mp hAuthorised
      · exact Or.inl (Except.ok.inj hDerived).symm

end Changes

/-! ### Runs -/

/-- A database that nothing was ingested into. -/
def start (bans : List String) : ServiceContext :=
  ⟨{ Database.empty with ban := bans }, .empty, []⟩

/-- The ids come from a sequence of the database. -/
def NewIds (server : ServiceContext) (action : Action) : Prop :=
  ∀ arrival, action = .bundle arrival → server.db.NewId arrival.id

def Regular (server : ServiceContext) (action : Action) : Prop :=
  ∀ arrival incoming, action = .bundle arrival → incomingEvent P arrival.bundle = some incoming →
    RegularEvent server.db incoming

/-- A step of a run: the state before it, and the action. -/
abbrev Visit := ServiceContext × Action

/-- The step processes an event of the identity that was authorised then. -/
def AuthorisedAt (identity : String) (visit : Visit) : Prop :=
  ∃ arrival incoming, visit.2 = .bundle arrival ∧ incomingEvent P arrival.bundle = some incoming ∧
    incoming.AuthorisedBy P visit.1.db identity

/-- The step processes a `Delete` of the key. -/
def DeletesAt (eventKey : Option EventKey) (visit : Visit) : Prop :=
  ∃ arrival incoming, visit.2 = .bundle arrival ∧ incomingEvent P arrival.bundle = some incoming ∧
    incoming.body = some (.delete eventKey)

/-- The row was not there before the step, and is there with the id of the event. -/
structure BroughtAt (row : DerivedRow) (visit : Visit) : Prop where
  eventId : ∀ arrival, visit.2 = .bundle arrival → row.eventId = arrival.id
  before : row ∉ visit.1.db.derived.rows
  after : row ∈ (step P runtime visit.1 visit.2).db.derived.rows

/-- The row was there before the step and is gone. -/
structure RemovedAt (row : DerivedRow) (visit : Visit) : Prop where
  before : row ∈ visit.1.db.derived.rows
  after : row ∉ (step P runtime visit.1 visit.2).db.derived.rows

/-- A row is attributed to the identity in its column. A tally is attributed to the
identity of its event. -/
def DerivedRow.AttributedTo (db : Database) (identity : String) (row : DerivedRow) : Prop :=
  row.identity = some identity ∨
    row.identity = none ∧ ∃ e ∈ db.event, e.id = row.eventId ∧ e.key.identity = identity

/-- The removal is by an authorised event of the identity whose event is deleted.
The row was brought by the deleted event or refers to it. -/
def RemovalJustified (visit : Visit) : Prop :=
  ∀ eventKey, DeletesAt P eventKey visit → ∀ row, RemovedAt P runtime row visit →
    ∃ deleted ∈ visit.1.db.event, partsOf eventKey = some deleted.key ∧
      AuthorisedAt P deleted.key.identity visit ∧
      (row.eventId = deleted.id ∨ row.post = some deleted.id)

/-- What holds after every history. -/
structure Provenance (history : List Visit) (server : ServiceContext) : Prop where
  synced : Synced P server.db server.proofCache
  rows : ∀ row ∈ server.db.derived.rows, ∃ visit ∈ history, ∃ identity,
    AuthorisedAt P identity visit ∧ BroughtAt P runtime row visit ∧
      (∀ owner, row.identity = some owner → owner = identity) ∧
      ∀ e ∈ server.db.event, e.id = row.eventId → e.key.identity = identity
  removals : ∀ visit ∈ history, RemovalJustified P runtime visit

section Invariant

variable {P} {runtime} {history : List Visit} {server : ServiceContext}

/-- At the start nothing is derived. -/
theorem provenance_start (bans : List String) : Provenance P runtime [] (start bans) where
  synced := ⟨ProofCache.coherent_empty, Table.coherent_nil⟩
  rows row hRow := by cases hRow
  removals := nofun

/-- A step that leaves the database alone. -/
theorem Provenance.unchanged (h : Provenance P runtime history server) {action : Action}
    (hDb : (step P runtime server action).db = server.db)
    (hSynced : Synced P server.db (step P runtime server action).proofCache) :
    Provenance P runtime (history ++ [(server, action)]) (step P runtime server action) where
  synced := by rwa [hDb]
  rows row hRow := by
    rw [hDb] at hRow ⊢
    obtain ⟨visit, hVisit, hCause⟩ := h.rows row hRow
    exact ⟨visit, List.mem_append_left _ hVisit, hCause⟩
  removals visit hVisit := by
    rcases List.mem_append.mp hVisit with hOld | hLast
    · exact h.removals visit hOld
    · obtain rfl := List.mem_singleton.mp hLast
      intro eventKey _ row hRemoved
      exact absurd (hDb ▸ hRemoved.before) hRemoved.after

/-- A row that was there before an event was stored keeps its cause: the new event
has another id. -/
theorem Provenance.old_row (h : Provenance P runtime history server) {arrival : Arrival}
    (hNew : server.db.NewId arrival.id) {row : EventRow} (hId : row.id = arrival.id)
    {derived : DerivedRow} (hDerived : derived ∈ server.db.derived.rows) :
    ∃ visit ∈ history ++ [(server, Action.bundle arrival)], ∃ identity,
      AuthorisedAt P identity visit ∧ BroughtAt P runtime derived visit ∧
        (∀ owner, derived.identity = some owner → owner = identity) ∧
        ∀ e ∈ server.db.event ++ [row], e.id = derived.eventId → e.key.identity = identity := by
  obtain ⟨visit, hVisit, identity, hAuthorised, hBrought, hOwner, hEvents⟩ := h.rows derived hDerived
  refine ⟨visit, List.mem_append_left _ hVisit, identity, hAuthorised, hBrought, hOwner, ?_⟩
  intro e he hEq
  rcases List.mem_append.mp he with hOld | hLast
  · exact hEvents e hOld hEq
  · obtain rfl := List.mem_singleton.mp hLast
    have hMentioned := DerivedTables.mem_mentioned.mpr ⟨derived, hDerived, Or.inl hEq.symm⟩
    exact absurd (hId ▸ hMentioned) hNew.derived

/-- Only the rows of the deleted event are touched by its deletion. -/
theorem touches_selectEvent {db : Database} {parts : EventKeyParts} {row : DerivedRow}
    (h : row.Touches ((db.selectEvent parts).map EventRow.id)) :
    ∃ deleted ∈ db.event, deleted.key = parts ∧
      (row.eventId = deleted.id ∨ row.post = some deleted.id) := by
  rcases h with hOwn | ⟨post, hPost, hEq⟩
  · obtain ⟨deleted, hDeleted, hId⟩ := List.mem_map.mp hOwn
    obtain ⟨hMem, hKey⟩ := List.mem_filter.mp hDeleted
    exact ⟨deleted, hMem, of_decide_eq_true hKey, Or.inl hId.symm⟩
  · obtain ⟨deleted, hDeleted, rfl⟩ := List.mem_map.mp hPost
    obtain ⟨hMem, hKey⟩ := List.mem_filter.mp hDeleted
    exact ⟨deleted, hMem, of_decide_eq_true hKey, Or.inr hEq⟩

/-- An authorised `Delete` names an event of its own identity. -/
theorem identity_of_authorised_delete {incoming : IncomingEvent} {eventKey : Option EventKey}
    {parts : EventKeyParts} (hBody : incoming.body = some (.delete eventKey))
    (hMay : eventIsAuthorised incoming.key.identity
      (incoming.decoded.map DecodedContent.content) = true)
    (hParts : partsOf eventKey = some parts) : parts.identity = incoming.key.identity := by
  unfold eventIsAuthorised at hMay
  rw [contentBody_eq_body, hBody] at hMay
  cases eventKey with
  | none => cases hParts
  | some key =>
      simp only [partsOf, Option.bind_eq_bind, Option.bind_some, Option.bind_eq_some_iff, pure,
        Option.some.injEq] at hParts
      obtain ⟨signedBy, -, rfl⟩ := hParts
      exact beq_iff_eq.mp hMay

/-- A stored event accounts for the rows that it brings, and for those that it takes. -/
theorem Provenance.stored (h : Provenance P runtime history server) {arrival : Arrival}
    (hNew : server.db.NewId arrival.id) {incoming : IncomingEvent}
    (hIncoming : incomingEvent P arrival.bundle = some incoming)
    (hRegular : RegularEvent server.db incoming)
    (hAuthorised : (incoming.authorize P server.db server.proofCache).1 = .ok ())
    (hAdded : addEvent runtime arrival.now server.db (incoming.row runtime arrival.now arrival.id)
      incoming.decoded = .ok (true, (step P runtime server (.bundle arrival)).db))
    (hCache : (step P runtime server (.bundle arrival)).proofCache =
      incoming.invalidate (incoming.authorize P server.db server.proofCache).2) :
    Provenance P runtime (history ++ [(server, .bundle arrival)])
      (step P runtime server (.bundle arrival)) := by
  obtain ⟨derived, tombstones, -, -, -, hResult⟩ := addEvent_eq_ok_iff.mp hAdded
  obtain ⟨-, -, hDb⟩ := hResult.resolve_left fun hDuplicate => nomatch hDuplicate.2.1
  have hDerived := addEvent_derived h.synced hRegular hIncoming hAuthorised hAdded
  have hEvents : (step P runtime server (.bundle arrival)).db.event =
      server.db.event ++ [incoming.row runtime arrival.now arrival.id] := by rw [hDb]; rfl
  constructor
  case synced =>
    rw [hDb, hCache]
    exact (h.synced.authorize hRegular.narrow).stored hRegular rfl
  case rows =>
    intro row hRow
    rw [hEvents]
    rcases hDerived with hSame | ⟨hOwner, body, hBody, -, hUpdate⟩
    · exact h.old_row hNew rfl (hSame ▸ hRow)
    · rcases updateCache_rows hUpdate row hRow with hOld | hBrought
      · exact h.old_row hNew rfl hOld
      · refine ⟨(server, .bundle arrival), by simp, incoming.key.identity,
          ⟨arrival, incoming, rfl, hIncoming, hOwner⟩, ⟨?_, ?_, hRow⟩, hBrought.identity, ?_⟩
        · rintro _ ⟨⟩
          exact hBrought.eventId
        · intro hOld
          exact hNew.derived (DerivedTables.mem_mentioned.mpr ⟨row, hOld, Or.inl hBrought.eventId⟩)
        · intro e he hId
          rcases List.mem_append.mp he with hOld | hLast
          · exact absurd (hId.trans hBrought.eventId) (hNew.event e hOld)
          · rw [List.mem_singleton.mp hLast]
            rfl
  case removals =>
    intro visit hVisit
    rcases List.mem_append.mp hVisit with hOld | hLast
    · exact h.removals visit hOld
    · obtain rfl := List.mem_singleton.mp hLast
      rintro eventKey ⟨_, incoming', ⟨⟩, hIncoming', hDelete⟩ row hRemoved
      obtain rfl : incoming = incoming' := Option.some.inj (hIncoming.symm.trans hIncoming')
      rcases hDerived with hSame | ⟨hOwner, body, hBody, hMay, hUpdate⟩
      · exact absurd (hSame ▸ hRemoved.before) hRemoved.after
      · obtain rfl : body = .delete eventKey := Option.some.inj (hBody.symm.trans hDelete)
        obtain ⟨parts, hParts, hRows⟩ := updateCache_delete_removed hUpdate
        have hTouches := (hRows row hRemoved.before).resolve_left hRemoved.after
        obtain ⟨deleted, hMem, rfl, hRefers⟩ := touches_selectEvent hTouches
        have hIdentity := identity_of_authorised_delete hBody hMay hParts
        exact ⟨deleted, hMem, hParts, ⟨arrival, incoming, rfl, hIncoming, hIdentity ▸ hOwner⟩,
          hRefers⟩

/-- One step extends the history. -/
theorem Provenance.step (h : Provenance P runtime history server) {action : Action}
    (hStep : NewIds server action ∧ Regular P server action) :
    Provenance P runtime (history ++ [(server, action)]) (step P runtime server action) := by
  cases action with
  | request => exact h.unchanged rfl h.synced
  | bundle arrival =>
      have hOutcome := processEvent_outcome P runtime arrival.now arrival.id server arrival.bundle
      generalize hDb : (processEvent P runtime arrival.now arrival.id server arrival.bundle).2.db =
        db at hOutcome
      generalize hCache : (processEvent P runtime arrival.now arrival.id server
        arrival.bundle).2.proofCache = cache at hOutcome
      cases hOutcome with
      | rejected => exact h.unchanged hDb (hCache.symm ▸ h.synced)
      | checked incoming hIncoming =>
          have hRegular := hStep.2 arrival incoming rfl hIncoming
          exact h.unchanged hDb (hCache.symm ▸ h.synced.authorize hRegular.narrow)
      | stored incoming hIncoming hAuthorised _ hAdded =>
          have hRegular := hStep.2 arrival incoming rfl hIncoming
          exact h.stored (hStep.1 arrival rfl) hIncoming hRegular hAuthorised (hDb.symm ▸ hAdded)
            hCache

end Invariant

variable {P} {runtime}

/-- No row of the derived tables is forged. -/
theorem derived_provenance (bans : List String) (actions : List Action)
    (hIds : Along (step P runtime) NewIds (start bans) actions)
    (hRegular : Along (step P runtime) (Regular P) (start bans) actions) :
    (∀ row ∈ (run (step P runtime) (start bans) actions).db.derived.rows, ∀ identity,
      row.AttributedTo (run (step P runtime) (start bans) actions).db identity →
        ∃ visit ∈ trace (step P runtime) (start bans) actions,
          AuthorisedAt P identity visit ∧ BroughtAt P runtime row visit) ∧
      ∀ visit ∈ trace (step P runtime) (start bans) actions, RemovalJustified P runtime visit := by
  have hInvariant : Provenance P runtime (trace (step P runtime) (start bans) actions)
      (run (step P runtime) (start bans) actions) :=
    trace_invariant (fun h hStep => h.step hStep) (provenance_start bans) (hIds.and hRegular)
  refine ⟨?_, hInvariant.removals⟩
  intro row hRow identity hAttributed
  obtain ⟨visit, hVisit, owner, hAuthorised, hBrought, hOwner, hEvents⟩ :=
    hInvariant.rows row hRow
  have hEq : identity = owner := by
    rcases hAttributed with hColumn | ⟨-, e, he, hId, rfl⟩
    · exact hOwner identity hColumn
    · exact hEvents e he hId
  exact ⟨visit, hVisit, hEq ▸ hAuthorised, hBrought⟩

end Polycentric.Server

namespace Polycentric.TableInstance

open Proto Server

/-! Alice posts, another identity reacts to the post, and alice deletes it. -/

def reactorIdentity : String := identityOf (document [key 3] [])

def postKey : Proto.EventKey := ⟨Collections.feed, aliceIdentity, some (key 2), 1⟩

/-- Event `[n]` has the content `[10 + n]`. -/
def deletePrimitives : Primitives := primitives
  [([1], event Collections.identity aliceIdentity (key 1) 1 [] [11]),
    ([2], event Collections.identity reactorIdentity (key 3) 1 [] [12]),
    ([3], event Collections.feed aliceIdentity (key 2) 1 [0, 1] [13]),
    ([4], event Collections.interactions reactorIdentity (key 3) 1 [1] [14]),
    ([5], event Collections.feed aliceIdentity (key 2) 2 [0, 2] [15]),
    ([6], event Collections.identity aliceIdentity (key 9) 2 [] [16])]
  [([11], ⟨some (.identity genesis)⟩), ([12], ⟨some (.identity (document [key 3] []))⟩),
    ([13], ⟨some (.post ⟨"hello", none, [], none, []⟩)⟩),
    ([14], ⟨some (.reaction ⟨some postKey, none, true⟩)⟩), ([15], ⟨some (.delete (some postKey))⟩),
    ([16], ⟨some (.follow reactorIdentity)⟩)]

/-- Event `[n]`, signed and with its content. -/
def arrival (n : UInt8) (signer : PublicKey) : Arrival :=
  ⟨0, n.toNat, ⟨some ⟨sign signer.key [n], [n]⟩, some ⟨[10 + n]⟩, [], none⟩⟩

def postRun : List Server.Action :=
  [.request, .bundle (arrival 1 (key 1)), .bundle (arrival 3 (key 2))]

def beforeDelete : List Server.Action :=
  [.request, .bundle (arrival 1 (key 1)), .bundle (arrival 2 (key 3)), .bundle (arrival 3 (key 2)),
    .bundle (arrival 4 (key 3))]

end Polycentric.TableInstance

namespace Polycentric.Server

open TableInstance Runs

theorem newIds_bundle {server : ServiceContext} {arrival : Arrival}
    (h : server.db.NewId arrival.id) : NewIds server (.bundle arrival) := by
  rintro _ ⟨⟩
  exact h

theorem regular_bundle {P : Primitives} {server : ServiceContext} {arrival : Arrival}
    (incoming : IncomingEvent) (hIncoming : incomingEvent P arrival.bundle = some incoming)
    (h : RegularEvent server.db incoming) : Regular P server (.bundle arrival) := by
  rintro _ incoming' ⟨⟩ hIncoming'
  rwa [← Option.some.inj (hIncoming.symm.trans hIncoming')]

theorem postRun_newIds :
    Along (step deletePrimitives TableInstance.runtime) NewIds (start []) postRun :=
  ⟨nofun, newIds_bundle ⟨by decide +kernel, by decide +kernel⟩,
    newIds_bundle ⟨by decide +kernel, by decide +kernel⟩, trivial⟩

theorem postRun_regular :
    Along (step deletePrimitives TableInstance.runtime) (Regular deletePrimitives) (start [])
      postRun := by
  refine ⟨(fun _ _ h => nomatch h), ?_, ?_, trivial⟩
  · refine regular_bundle ⟨⟨sign (key 1).key [1], [1]⟩,
      event Collections.identity aliceIdentity (key 1) 1 [] [11],
      ⟨Collections.identity, aliceIdentity, some (key 1), 1⟩, key 1,
      some ⟨[11], ⟨some (.identity genesis)⟩, ⟨Proto.contentDigestTypeSha256, (digest [11]).val⟩⟩⟩
      (by decide +kernel) ⟨by decide, ?_, ?_⟩
    · rintro - _ ⟨⟩
      rfl
    · intro d _ e he
      exact absurd he List.not_mem_nil
  · refine regular_bundle ⟨⟨sign (key 2).key [3], [3]⟩,
      event Collections.feed aliceIdentity (key 2) 1 [0, 1] [13], postKey, key 2,
      some ⟨[13], ⟨some (.post ⟨"hello", none, [], none, []⟩)⟩,
        ⟨Proto.contentDigestTypeSha256, (digest [13]).val⟩⟩⟩
      (by decide +kernel) ⟨by decide, ?_, ?_⟩
    · intro hIdentity
      exact absurd hIdentity (by decide)
    · intro d hFresh e he _ hDigest
      obtain rfl := Option.some.inj (freshContent_eq_some_iff.mp hFresh).1
      have hOther : ∀ e ∈ (step deletePrimitives TableInstance.runtime
          (step deletePrimitives TableInstance.runtime (start []) .request)
          (.bundle (arrival 1 (key 1)))).db.event,
          e.contentDigest ≠ some ⟨Proto.contentDigestTypeSha256, (digest [13]).val⟩ := by
        decide +kernel
      exact absurd hDigest (hOther e he)

/-- The tally of alice's post, which alice's key signed. -/
theorem derived_provenance_post :
    ∃ visit ∈ trace (step deletePrimitives TableInstance.runtime) (start []) postRun,
      AuthorisedAt deletePrimitives aliceIdentity visit ∧
        BroughtAt deletePrimitives TableInstance.runtime ⟨.reactionTally, 3, none, none⟩ visit :=
  (derived_provenance [] postRun postRun_newIds postRun_regular).1 ⟨.reactionTally, 3, none, none⟩
    (by decide +kernel) aliceIdentity (Or.inr ⟨rfl, by decide +kernel⟩)

/-! An event in the identity collection is not authorised when it arrives, and its
body is not looked at: any key can bring a row for alice. -/
example : ⟨.follow, 6, some aliceIdentity, none⟩ ∈
    (run (step deletePrimitives TableInstance.runtime) (start [])
      [.request, .bundle (arrival 6 (key 9))]).db.derived.rows := by
  decide +kernel

/-- Every row that a `Delete` removes is attributed to the identity whose event
removes it. -/
def RemovalsOwned (P : Primitives) (runtime : Runtime) (bans : List String)
    (actions : List Action) : Prop :=
  ∀ visit ∈ trace (step P runtime) (start bans) actions, ∀ eventKey, DeletesAt P eventKey visit →
    ∀ row, RemovedAt P runtime row visit → ∀ identity, row.AttributedTo visit.1.db identity →
      AuthorisedAt P identity visit

/-- The reaction goes with alice's post, and alice's key signs the `Delete`. -/
theorem not_removalsOwned_reaction :
    ¬RemovalsOwned deletePrimitives TableInstance.runtime []
      (beforeDelete ++ [.bundle (arrival 5 (key 2))]) := by
  intro h
  have hDelete : ((incomingEvent deletePrimitives (arrival 5 (key 2)).bundle).bind
      IncomingEvent.body) = some (.delete (some postKey)) := by decide +kernel
  have hOwner : (incomingEvent deletePrimitives (arrival 5 (key 2)).bundle).map
      (fun incoming => incoming.key.identity) = some aliceIdentity := by decide +kernel
  obtain ⟨incoming, hIncoming, hBody⟩ := Option.bind_eq_some_iff.mp hDelete
  obtain ⟨_, incoming', ⟨⟩, hIncoming', hAuthorised⟩ := h _ (last_mem_trace _ _ _) (some postKey)
    ⟨_, incoming, rfl, hIncoming, hBody⟩ ⟨.reaction, 4, some reactorIdentity, some 3⟩
    ⟨by decide +kernel, by decide +kernel⟩ reactorIdentity (Or.inl rfl)
  rw [hIncoming', Option.map_some, hAuthorised.owner] at hOwner
  exact absurd hOwner (by decide +kernel)

end Polycentric.Server
