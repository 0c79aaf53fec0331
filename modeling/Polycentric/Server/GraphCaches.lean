import Polycentric.Server.Acknowledgement
import Polycentric.Server.Tombstones

/-! The tables `follow` and `block` beside the slow path of `graph/repository.rs`,
which reads all events of the social graph again and validates every `Delete`. The
tables are kept up to date event by event. -/
namespace Polycentric.Server

open Proto Result Memo Runs

variable (P : Primitives)

/-! ### The slow path -/

/-- The tables that the social graph is cached in. -/
inductive GraphTable where
  | follow
  | block
  deriving DecidableEq, Repr

namespace GraphTable

/-- The identity that an event of the table is about. -/
def target (table : GraphTable) (body : ContentBody) : Option String :=
  match table, body with
  | .follow, .follow followee => some followee
  | .block, .block blocked => some blocked
  | _, _ => none

/-- Rows of the table: the event, its identity and the other identity. -/
def rows (table : GraphTable) (derived : DerivedTables) : List (Nat × String × String) :=
  match table with
  | .follow => derived.follow.map fun row => (row.eventId, row.follower, row.followee)
  | .block => derived.block.map fun row => (row.eventId, row.blocker, row.blocked)

/-- The identity that stored content is about, unless it is empty. -/
def decode (table : GraphTable) (content : ContentRow) : Option String :=
  ((content.body P).bind table.target).filter fun identity => identity ≠ ""

/-- The identities in the rows of the caller. -/
def cached (table : GraphTable) (derived : DerivedTables) (caller : String) : List String :=
  ((table.rows derived).filter fun row => row.2.1 = caller).map fun row => row.2.2

end GraphTable

def decodeFollowedIdentity (content : ContentRow) : Option String := GraphTable.follow.decode P content

/-- What `decode_followed_identity` is for follows, for blocks. The server reads
blocks from their table only. -/
def decodeBlockedIdentity (content : ContentRow) : Option String := GraphTable.block.decode P content

/-- The events of the caller in the social graph, joined with their content. -/
def Database.graphRows (db : Database) (caller : String) : List (EventRow × ContentRow) :=
  (db.event.filter fun row => row.key.collection = collectionSocial ∧ row.key.identity = caller).flatMap
    fun row => (db.content.filter fun content => row.contentDigest = some content.digest).map
      fun content => (row, content)

/-- The values without repetitions, in the order of their first occurrences. -/
def firstOccurrences (values : List String) : List String :=
  values.foldl (fun seen value => if value ∈ seen then seen else seen ++ [value]) []

/-- The targets of the graph events of the caller. `extract` filters for one kind of
graph event. -/
def listGraphTargets (db : Database) (cache : ProofCache) (caller : String)
    (extract : ContentRow → Option String) : Except Status (List String) × ProofCache :=
  let rows := db.graphRows caller
  let keys := rows.map fun row => row.1.key
  match validateTombstones P db cache (db.listTombstonesForEventKeys keys) with
  | (.error status, cache) => (.error status, cache)
  | (.ok valid, cache) =>
      (.ok (firstOccurrences ((rows.filter fun row => row.1.key ∉ valid.map Prod.fst).filterMap
        fun row => extract row.2)), cache)

def listFollowedIdentities (db : Database) (cache : ProofCache) (caller : String) :
    Except Status (List String) × ProofCache :=
  listGraphTargets P db cache caller (decodeFollowedIdentity P)

/-- The identities that the caller has blocked, from the table. -/
def listBlockedIdentities (db : Database) (caller : String) : List String :=
  firstOccurrences (GraphTable.block.cached db.derived caller)

/-! ### What stored events carry -/

/-- The event of the social graph is about this identity. -/
def Database.Shows (db : Database) (table : GraphTable) (row : EventRow) (target : String) : Prop :=
  row.key.collection = collectionSocial ∧
    ∃ body, db.Carries P row body ∧ table.target body = some target

section Carrying

variable {P} {db : Database} {row : EventRow}

theorem mem_firstOccurrences {values : List String} {value : String} :
    value ∈ firstOccurrences values ↔ value ∈ values := by
  unfold firstOccurrences
  rw [(foldl_distinct_spec values List.nodup_nil).2]
  simp

/-- The rows of the query are the events of the caller, each with its content. -/
theorem mem_graphRows {caller : String} {entry : EventRow × ContentRow} :
    entry ∈ db.graphRows caller ↔ entry.1 ∈ db.event ∧ entry.1.key.collection = collectionSocial ∧
      entry.1.key.identity = caller ∧ entry.2 ∈ db.content ∧
        entry.1.contentDigest = some entry.2.digest := by
  simp only [Database.graphRows, List.mem_flatMap, List.mem_filter, List.mem_map,
    decide_eq_true_eq]
  constructor
  · rintro ⟨row, ⟨hRow, hCollection, hOwner⟩, content, ⟨hContent, hDigest⟩, rfl⟩
    exact ⟨hRow, hCollection, hOwner, hContent, hDigest⟩
  · rintro ⟨hRow, hCollection, hOwner, hContent, hDigest⟩
    exact ⟨entry.1, ⟨hRow, hCollection, hOwner⟩, entry.2, ⟨hContent, hDigest⟩, rfl⟩

/-- All stored tombstones of the social graph are by authorised signers. -/
def DeletesStand (P : Primitives) (db : Database) : Prop :=
  ∀ row key, db.Deletes row key → key.collection = collectionSocial → db.Stands P row

/-- The slow path finds what the events show that no `Delete` names, as long as all
tombstones count. -/
theorem listGraphTargets_spec {cache : ProofCache} (h : cache.Coherent P db) (hFiled : db.Filed P)
    (hStand : DeletesStand P db) (table : GraphTable) (caller : String) :
    ∃ targets cache', listGraphTargets P db cache caller (table.decode P) = (.ok targets, cache') ∧
      ∀ target, target ∈ targets ↔ target ≠ "" ∧ ∃ row ∈ db.event, row.key.identity = caller ∧
        db.Shows P table row target ∧ ∀ delete, ¬db.Deletes delete row.key := by
  have hSocial : ∀ key ∈ (db.graphRows caller).map fun row => row.1.key,
      key.collection = collectionSocial := by
    intro key hKey
    obtain ⟨entry, hEntry, rfl⟩ := List.mem_map.mp hKey
    exact (mem_graphRows.mp hEntry).2.1
  have hLatest : ∀ key ∈ (db.graphRows caller).map fun row => row.1.key, ∀ row, db.Deletes row key →
      ∃ document, db.latestValidIdentityContent P key.identity = some document := by
    intro key hKey row hDeletes
    obtain ⟨-, -, -, document, -, -, -, hDocument, -⟩ := hStand row key hDeletes (hSocial key hKey)
    exact ⟨document, hDeletes.owner ▸ hDocument⟩
  obtain ⟨valid, cache', hValid, -, hKeys⟩ := tombstoned_iff h hFiled hLatest
  have hTombstoned : ∀ key ∈ (db.graphRows caller).map fun row => row.1.key,
      (key ∈ valid.map Prod.fst ↔ ∃ delete, db.Deletes delete key) := by
    intro key hKey
    rw [hKeys key]
    constructor
    · rintro ⟨-, delete, hDeletes, -⟩
      exact ⟨delete, hDeletes⟩
    · rintro ⟨delete, hDeletes⟩
      exact ⟨hKey, delete, hDeletes, hStand delete key hDeletes (hSocial key hKey)⟩
  have hValidate : validateTombstones P db cache (db.listTombstonesForEventKeys
      ((db.graphRows caller).map fun row => row.1.key)) = (.ok valid, cache') := hValid
  refine ⟨firstOccurrences (((db.graphRows caller).filter fun row =>
    row.1.key ∉ valid.map Prod.fst).filterMap fun row => table.decode P row.2), cache', ?_,
    fun target => ?_⟩
  · simp only [listGraphTargets, hValidate]
  rw [mem_firstOccurrences, List.mem_filterMap]
  constructor
  · rintro ⟨entry, hEntry, hDecode⟩
    obtain ⟨hRow, hAlive⟩ := List.mem_filter.mp hEntry
    obtain ⟨hEvent, hCollection, hOwner, hContent, hDigest⟩ := mem_graphRows.mp hRow
    obtain ⟨hBody, hName⟩ := Option.filter_eq_some_iff.mp hDecode
    obtain ⟨body, hCarried, hTarget⟩ := Option.bind_eq_some_iff.mp hBody
    refine ⟨of_decide_eq_true hName, entry.1, hEvent, hOwner,
      ⟨hCollection, body, ⟨entry.2, hContent, hDigest, hCarried⟩, hTarget⟩, ?_⟩
    intro delete hDeletes
    exact of_decide_eq_true hAlive
      ((hTombstoned entry.1.key (List.mem_map_of_mem hRow)).mpr ⟨delete, hDeletes⟩)
  · rintro ⟨hName, row, hEvent, hOwner, ⟨hCollection, body, ⟨content, hContent, hDigest, hCarried⟩,
      hTarget⟩, hAlive⟩
    have hRow : (row, content) ∈ db.graphRows caller :=
      mem_graphRows.mpr ⟨hEvent, hCollection, hOwner, hContent, hDigest⟩
    refine ⟨(row, content), List.mem_filter.mpr ⟨hRow, ?_⟩, ?_⟩
    · rw [decide_eq_true_eq, hTombstoned row.key (List.mem_map_of_mem hRow), not_exists]
      exact hAlive
    · exact Option.filter_eq_some_iff.mpr
        ⟨Option.bind_eq_some_iff.mpr ⟨body, hCarried, hTarget⟩, decide_eq_true hName⟩

end Carrying

/-! ### The tables, event by event -/

section Update

variable {runtime : Runtime} {now : Int} {db : Database} {eventId : Nat} {identity : String}
  {derived : DerivedTables}

/-- What an update does to the rows: it removes those of a deleted event of the
social graph, and adds that of a new one. -/
def RowsUpdated (db : Database) (eventId : Nat) (identity : String) (body : ContentBody)
    (table : GraphTable) (derived : DerivedTables) : Prop :=
  ∀ row, row ∈ table.rows derived ↔
    (row ∈ table.rows db.derived ∧ ∀ key, deletedKey body = some key →
      key.collection = collectionSocial → row.1 ∉ (db.selectEvent key).map EventRow.id) ∨
    ∃ target, table.target body = some target ∧ row = (eventId, identity, target)

theorem rowsUpdated_of_same {body : ContentBody} {table : GraphTable}
    (hRows : table.rows derived = table.rows db.derived) (hTarget : table.target body = none)
    (hDeleted : ∀ key, deletedKey body = some key → key.collection ≠ collectionSocial) :
    RowsUpdated db eventId identity body table derived := by
  intro row
  rw [hRows, hTarget]
  constructor
  · exact fun hRow => Or.inl ⟨hRow, fun key hKey hSocial => absurd hSocial (hDeleted key hKey)⟩
  · rintro (⟨hRow, -⟩ | ⟨_, hNone, -⟩)
    · exact hRow
    · cases hNone

theorem rowsUpdated_of_other {body : ContentBody} {table : GraphTable}
    (hRows : table.rows derived = table.rows db.derived) (hTarget : table.target body = none)
    (hDeleted : deletedKey body = none) : RowsUpdated db eventId identity body table derived := by
  refine rowsUpdated_of_same hRows hTarget fun key hKey => ?_
  rw [hDeleted] at hKey
  cases hKey

theorem rows_congr {derived' : DerivedTables} (hFollow : derived.follow = derived'.follow)
    (hBlock : derived.block = derived'.block) (table : GraphTable) :
    table.rows derived = table.rows derived' := by
  cases table
  · rw [GraphTable.rows, GraphTable.rows, hFollow]
  · rw [GraphTable.rows, GraphTable.rows, hBlock]

/-- Clearing the tables of the social graph. -/
theorem mem_rows_deleteSocial (ids : List Nat) (table : GraphTable) (row : Nat × String × String) :
    row ∈ table.rows (deleteSocial db ids) ↔ row ∈ table.rows db.derived ∧ row.1 ∉ ids := by
  cases table <;> simp only [GraphTable.rows, deleteSocial, List.mem_map, List.mem_filter,
    decide_eq_true_eq]
  all_goals
    constructor
    · rintro ⟨r, ⟨hRow, hKept⟩, rfl⟩
      exact ⟨⟨r, hRow, rfl⟩, hKept⟩
    · rintro ⟨⟨r, hRow, rfl⟩, hKept⟩
      exact ⟨r, ⟨hRow, hKept⟩, rfl⟩

/-- Of the collections that a `Delete` knows, only the social graph has rows here. -/
theorem rows_deleteQuery {eventKey : Option EventKey} (table : GraphTable)
    (h : updateCache runtime now db eventId identity (.delete eventKey) = .ok derived) :
    RowsUpdated db eventId identity (.delete eventKey) table derived := by
  simp only [updateCache, deleteQuery, bind_eq_ok_iff, splitEventKey_eq_ok_iff, pure, Except.pure,
    Except.ok.injEq] at h
  obtain ⟨key, hKey, rfl⟩ := h
  have hTarget : table.target (.delete eventKey) = none := by cases table <;> rfl
  have hDeleted : ∀ key', deletedKey (.delete eventKey) = some key' → key' = key :=
    fun key' hKey' => Option.some.inj (hKey'.symm.trans hKey)
  by_cases hSocial : key.collection = collectionSocial
  · have hOthers : ¬collectionSocial = collectionFeed ∧ ¬collectionSocial = collectionProfile := by
      decide
    intro row
    rw [hSocial, if_neg hOthers.1, if_neg hOthers.2, if_pos rfl, mem_rows_deleteSocial, hTarget]
    simp [deletedKey, hKey, hSocial]
  · refine rowsUpdated_of_same ?_ hTarget fun key' hKey' => hDeleted key' hKey' ▸ hSocial
    split_ifs
    · exact rows_congr rfl rfl table
    · exact rows_congr rfl rfl table
    · exact rows_congr rfl rfl table
    · rfl

/-- An update adds the row of its target, or takes that of its deletion. -/
theorem rows_updateCache {body : ContentBody} (table : GraphTable)
    (h : updateCache runtime now db eventId identity body = .ok derived) :
    RowsUpdated db eventId identity body table derived := by
  cases body with
  | post post =>
      simp only [updateCache, postQuery, bind_eq_ok_iff, pure, Except.pure, Except.ok.injEq] at h
      obtain ⟨quotes, -, replies, -, rfl⟩ := h
      exact rowsUpdated_of_other (rows_congr rfl rfl table) (by cases table <;> rfl) rfl
  | follow followee =>
      obtain rfl := Except.ok.inj h
      intro row
      cases table <;>
        simp [GraphTable.rows, GraphTable.target, followQuery, deletedKey]
  | block blocked =>
      obtain rfl := Except.ok.inj h
      intro row
      cases table <;>
        simp [GraphTable.rows, GraphTable.target, blockQuery, deletedKey]
  | reaction reaction =>
      simp only [updateCache, reactionQuery, bind_eq_ok_iff, pure, Except.pure,
        Except.ok.injEq] at h
      obtain ⟨parts, -, rfl⟩ := h
      exact rowsUpdated_of_other (rows_congr rfl rfl table) (by cases table <;> rfl) rfl
  | repost post =>
      simp only [updateCache, repostQuery, bind_eq_ok_iff, pure, Except.pure, Except.ok.injEq] at h
      obtain ⟨reposts, -, rfl⟩ := h
      exact rowsUpdated_of_other (rows_congr rfl rfl table) (by cases table <;> rfl) rfl
  | profileUpdate update =>
      obtain rfl := Except.ok.inj h
      exact rowsUpdated_of_other (rows_congr rfl rfl table) (by cases table <;> rfl) rfl
  | delete eventKey => exact rows_deleteQuery table h
  | _ =>
      obtain rfl := Except.ok.inj h
      exact rowsUpdated_of_other rfl (by cases table <;> rfl) rfl

end Update

/-! ### Events that the tables keep up with -/

/-- A new event brings its content along, and no other content is stored under the
digest of its own. A follow or a block names an identity, and no stored `Delete`
names it already. -/
structure ArrivesWhole (db : Database) (incoming : IncomingEvent) : Prop where
  complete : ∀ digest, incoming.event.contentDigest = some digest → incoming.decoded.isSome
  genuine : ∀ d, incoming.decoded = some d → ∀ content ∈ db.content, content.digest = d.digest →
    content.serializedBytes = d.bytes
  named : ∀ table target, incoming.body.bind (GraphTable.target table) = some target → target ≠ ""
  alive : ∀ table target, incoming.body.bind (GraphTable.target table) = some target →
    ∀ delete, ¬db.Deletes delete (.of incoming.key incoming.signedBy)

/-- An event of the social graph, or an update of an identity. -/
structure GraphEvent (db : Database) (incoming : IncomingEvent) : Prop where
  stream : incoming.key.collection = Collections.socialGraph ∨
    incoming.key.collection = Collections.identity ∧
      ∀ body, incoming.body = some body → updatesDerived body = false
  arrives : db.NewKey incoming → ArrivesWhole db incoming

/-- The content of every stored event is stored. -/
def Database.Complete (db : Database) : Prop :=
  ∀ row ∈ db.event, ∀ digest, row.contentDigest = some digest → db.hasContent digest = true

section Storing

variable {P} {runtime : Runtime} {db : Database} {bundle : EventBundle} {incoming : IncomingEvent}
  {now : Int} {id : Nat} {derived : DerivedTables} {tombstones : List ContentDeleteRow}

/-- New content is that of no event that is stored already. -/
theorem digest_ne_fresh (hComplete : db.Complete) {decoded : Option DecodedContent}
    {d : DecodedContent} (hFresh : freshContent db decoded = some d) {e : EventRow}
    (he : e ∈ db.event) : e.contentDigest ≠ some d.digest := by
  intro hDigest
  have hHas := hComplete e he d.digest hDigest
  rw [(freshContent_eq_some_iff.mp hFresh).2] at hHas
  cases hHas

/-- Storing adds the content that came along, if it is new. -/
theorem mem_content_stored {row : EventRow} {decoded : Option DecodedContent} {content : ContentRow} :
    content ∈ (stored db row decoded derived tombstones).content ↔ content ∈ db.content ∨
      ∃ d, freshContent db decoded = some d ∧ content = ⟨d.digest, d.bytes⟩ := by
  cases hFresh : freshContent db decoded <;> simp [stored, hFresh]

/-- Stored events carry what they carried before. -/
theorem carries_stored_old (hComplete : db.Complete) {row : EventRow}
    {decoded : Option DecodedContent} {e : EventRow} (he : e ∈ db.event) {body : ContentBody} :
    (stored db row decoded derived tombstones).Carries P e body ↔ db.Carries P e body := by
  unfold Database.Carries
  constructor
  · rintro ⟨content, hContent, hDigest, hBody⟩
    rcases mem_content_stored.mp hContent with hOld | ⟨d, hFresh, rfl⟩
    · exact ⟨content, hOld, hDigest, hBody⟩
    · exact absurd hDigest (digest_ne_fresh hComplete hFresh he)
  · rintro ⟨content, hContent, hDigest, hBody⟩
    exact ⟨content, mem_content_stored.mpr (Or.inl hContent), hDigest, hBody⟩

/-- The new event carries the body it arrived with. -/
theorem carries_stored_new (hIncoming : incomingEvent P bundle = some incoming)
    (hArrives : ArrivesWhole db incoming) {body : ContentBody} :
    (stored db (incoming.row runtime now id) incoming.decoded derived tombstones).Carries P
      (incoming.row runtime now id) body ↔ incoming.body = some body := by
  obtain ⟨-, -, -, hDecoded⟩ := incomingEvent_opened hIncoming
  have hBodyOf : ∀ d, incoming.decoded = some d → ∀ content : ContentRow,
      content.serializedBytes = d.bytes → content.body P = incoming.body := by
    intro d hSome content hBytes
    rw [ContentRow.body, hBytes, (hDecoded d hSome).1, IncomingEvent.body, hSome]
    rfl
  constructor
  · rintro ⟨content, hContent, hDigest, hBody⟩
    obtain ⟨d, hSome⟩ := Option.isSome_iff_exists.mp (hArrives.complete content.digest hDigest)
    have hSame : content.digest = d.digest :=
      Option.some.inj (hDigest.symm.trans (hDecoded d hSome).2)
    rcases mem_content_stored.mp hContent with hOld | ⟨d', hFresh, rfl⟩
    · rw [← hBodyOf d hSome content (hArrives.genuine d hSome content hOld hSame), hBody]
    · obtain rfl : d' = d :=
        Option.some.inj ((freshContent_eq_some_iff.mp hFresh).1.symm.trans hSome)
      rw [← hBodyOf d' hSome ⟨d'.digest, d'.bytes⟩ rfl, hBody]
  · intro hBody
    obtain ⟨d, hSome, -⟩ := Option.bind_eq_some_iff.mp hBody
    have hDigest : (incoming.row runtime now id).contentDigest = some d.digest := (hDecoded d hSome).2
    cases hHas : db.hasContent d.digest with
    | true =>
        obtain ⟨content, hContent, hSame⟩ := List.any_eq_true.mp hHas
        have hEq : content.digest = d.digest := of_decide_eq_true hSame
        refine ⟨content, mem_content_stored.mpr (Or.inl hContent), hEq ▸ hDigest, ?_⟩
        rw [hBodyOf d hSome content (hArrives.genuine d hSome content hContent hEq), hBody]
    | false =>
        refine ⟨⟨d.digest, d.bytes⟩, mem_content_stored.mpr (Or.inr ⟨d,
          freshContent_eq_some_iff.mpr ⟨hSome, hHas⟩, rfl⟩), hDigest, ?_⟩
        rw [hBodyOf d hSome ⟨d.digest, d.bytes⟩ rfl, hBody]

/-- An event that arrives whole leaves no event without its content. -/
theorem complete_stored (hComplete : db.Complete) (hIncoming : incomingEvent P bundle = some incoming)
    (hArrives : ArrivesWhole db incoming) :
    (stored db (incoming.row runtime now id) incoming.decoded derived tombstones).Complete := by
  intro row hRow digest hDigest
  rw [hasContent_stored, Bool.or_eq_true]
  rcases List.mem_append.mp hRow with hOld | hNew
  · exact Or.inl (hComplete row hOld digest hDigest)
  · obtain rfl := List.mem_singleton.mp hNew
    obtain ⟨d, hSome⟩ := Option.isSome_iff_exists.mp (hArrives.complete digest hDigest)
    have hSame : d.digest = digest := Option.some.inj
      (((incomingEvent_opened hIncoming).2.2.2 d hSome).2.symm.trans hDigest)
    cases hHas : db.hasContent digest with
    | true => exact Or.inl rfl
    | false =>
        right
        rw [freshContent_eq_some_iff.mpr ⟨hSome, hSame ▸ hHas⟩]
        simpa using hSame

/-- The new event adds the deletion that it carries, of an event of its own identity. -/
theorem deletes_stored_iff (hComplete : db.Complete) (hRecorded : db.DeletesRecorded P)
    (hRecorded' : (stored db (incoming.row runtime now id) incoming.decoded derived
      tombstones).DeletesRecorded P)
    (hIncoming : incomingEvent P bundle = some incoming) (hArrives : ArrivesWhole db incoming)
    {key : EventKeyParts} :
    (∃ delete, (stored db (incoming.row runtime now id) incoming.decoded derived
        tombstones).Deletes delete key) ↔
      (∃ delete, db.Deletes delete key) ∨
        incoming.key.identity = key.identity ∧ incoming.body.bind deletedKey = some key := by
  simp only [deletes_iff hRecorded, deletes_iff hRecorded', Option.bind_eq_some_iff]
  constructor
  · rintro ⟨delete, hDelete, hOwner, body, hCarries, hKey⟩
    rcases List.mem_append.mp hDelete with hOld | hNew
    · exact Or.inl ⟨delete, hOld, hOwner, body, (carries_stored_old hComplete hOld).mp hCarries, hKey⟩
    · obtain rfl := List.mem_singleton.mp hNew
      exact Or.inr ⟨hOwner, body, (carries_stored_new hIncoming hArrives).mp hCarries, hKey⟩
  · rintro (⟨delete, hDelete, hOwner, body, hCarries, hKey⟩ | ⟨hOwner, body, hBody, hKey⟩)
    · exact ⟨delete, List.mem_append_left _ hDelete, hOwner, body,
        (carries_stored_old hComplete hDelete).mpr hCarries, hKey⟩
    · exact ⟨incoming.row runtime now id, List.mem_append_right _ (List.mem_singleton_self _), hOwner,
        body, (carries_stored_new hIncoming hArrives).mpr hBody, hKey⟩

end Storing

/-! ### The tables beside the events -/

/-- The tables hold what the events of the social graph show that no stored `Delete`
names. -/
structure GraphCached (db : Database) : Prop where
  rows : ∀ table id owner target, (id, owner, target) ∈ GraphTable.rows table db.derived ↔
    ∃ row ∈ db.event, row.id = id ∧ row.key.identity = owner ∧ db.Shows P table row target ∧
      ∀ delete, ¬db.Deletes delete row.key
  named : ∀ table, ∀ row ∈ db.event, ∀ target, db.Shows P table row target → target ≠ ""

section Cached

variable {P} {runtime : Runtime} {db : Database} {bundle : EventBundle} {incoming : IncomingEvent}
  {now : Int} {id : Nat} {derived : DerivedTables} {tombstones : List ContentDeleteRow}

theorem updatesDerived_of_target {table : GraphTable} {body : ContentBody} {target : String}
    (h : table.target body = some target) : updatesDerived body = true := by
  cases table <;> cases body <;> first | rfl | cases h

/-- Follows and blocks are always authorised. -/
theorem authorisedBody_of_target {table : GraphTable} {body : ContentBody} {target : String}
    (hBody : incoming.body = some body) (h : table.target body = some target) :
    (incoming.addStep runtime now id).authorisedBody = some body := by
  refine AddStep.authorisedBody_eq_some_iff.mpr ⟨hBody, ?_⟩
  have hContent : ((incoming.addStep runtime now id).decoded.map DecodedContent.content).bind
      Content.contentBody = some body := contentBody_eq_body.trans hBody
  unfold eventIsAuthorised
  rw [hContent]
  cases table <;> cases body <;> first | rfl | cases h

/-- A `Delete` is authorised if the key it names is of its own identity. -/
theorem authorisedBody_of_deletedKey {body : ContentBody} {key : EventKeyParts}
    (hBody : incoming.body = some body) (hKey : deletedKey body = some key) :
    (incoming.addStep runtime now id).authorisedBody = some body ↔
      incoming.key.identity = key.identity := by
  obtain ⟨eventKey, rfl, hParts⟩ := deletedKey_eq_some hKey
  have hContent : ((incoming.addStep runtime now id).decoded.map DecodedContent.content).bind
      Content.contentBody = some (.delete eventKey) := contentBody_eq_body.trans hBody
  rw [AddStep.authorisedBody_eq_some_iff, eventIsAuthorised, hContent]
  cases eventKey with
  | none => cases hParts
  | some eventKey =>
      simp only [partsOf, Option.bind_eq_bind, Option.bind_some, Option.bind_eq_some_iff, pure,
        Option.some.injEq] at hParts
      obtain ⟨signedBy, -, rfl⟩ := hParts
      simp only [beq_iff_eq]
      exact ⟨fun h => h.2.symm, fun h => ⟨hBody, h.symm⟩⟩

/-- The rows after the event, by its authorised body. -/
theorem mem_rows_stored
    (hStores : (incoming.addStep runtime now id).Stores runtime db derived tombstones)
    (table : GraphTable) (row : Nat × String × String) :
    row ∈ table.rows derived ↔
      (row ∈ table.rows db.derived ∧ ∀ key,
        (incoming.addStep runtime now id).authorisedBody.bind deletedKey = some key →
          key.collection = collectionSocial → row.1 ∉ (db.selectEvent key).map EventRow.id) ∨
      ∃ target, (incoming.addStep runtime now id).authorisedBody.bind table.target = some target ∧
        row = (id, incoming.key.identity, target) := by
  rcases hStores.derived with ⟨hNone, rfl⟩ | ⟨body, hBody, hUpdate⟩
  · simp [hNone]
  · rw [hBody]
    exact rows_updateCache table hUpdate row

/-- What the events show after the event was stored. -/
theorem shows_stored_iff (hComplete : db.Complete)
    (hIncoming : incomingEvent P bundle = some incoming) (hArrives : ArrivesWhole db incoming)
    (hNew : ∀ e ∈ db.event, e.key ≠ (incoming.row runtime now id).key) {table : GraphTable}
    {e : EventRow} {target : String}
    (he : e ∈ (stored db (incoming.row runtime now id) incoming.decoded derived tombstones).event) :
    (stored db (incoming.row runtime now id) incoming.decoded derived tombstones).Shows P table e
        target ↔
      e ∈ db.event ∧ db.Shows P table e target ∨
        e = incoming.row runtime now id ∧
          (incoming.row runtime now id).key.collection = collectionSocial ∧
          incoming.body.bind table.target = some target := by
  unfold Database.Shows
  rcases List.mem_append.mp he with hOld | hLast
  · have hOther : e ≠ incoming.row runtime now id := fun hEq => hNew e hOld (hEq ▸ rfl)
    simp only [carries_stored_old hComplete hOld, hOld, hOther, true_and, false_and, or_false]
  · obtain rfl := List.mem_singleton.mp hLast
    have hAbsent : incoming.row runtime now id ∉ db.event := fun hMem => hNew _ hMem rfl
    simp only [carries_stored_new hIncoming hArrives, hAbsent, false_and, true_and, false_or,
      Option.bind_eq_some_iff]

theorem deletedKey_of_target {table : GraphTable} {body : ContentBody} {target : String}
    (h : table.target body = some target) : deletedKey body = none := by
  cases table <;> cases body <;> first | rfl | cases h

/-- A `Delete` removes the rows of a stored event exactly if it names this event and
is of its identity. -/
theorem spared_iff (hRegular : db.Regular) {row : EventRow} (hRow : row ∈ db.event)
    (hSocial : row.key.collection = collectionSocial) :
    (∀ key, (incoming.addStep runtime now id).authorisedBody.bind deletedKey = some key →
        key.collection = collectionSocial → row.id ∉ (db.selectEvent key).map EventRow.id) ↔
      ¬(incoming.key.identity = row.key.identity ∧ incoming.body.bind deletedKey = some row.key) := by
  constructor
  · rintro hSpared ⟨hOwner, hDeleted⟩
    obtain ⟨body, hBody, hKey⟩ := Option.bind_eq_some_iff.mp hDeleted
    have hAuthorised : (incoming.addStep runtime now id).authorisedBody = some body :=
      (authorisedBody_of_deletedKey hBody hKey).mpr hOwner
    refine hSpared row.key (Option.bind_eq_some_iff.mpr ⟨body, hAuthorised, hKey⟩) hSocial ?_
    exact List.mem_map_of_mem (List.mem_filter.mpr ⟨hRow, decide_eq_true rfl⟩)
  · intro hOther key hDeleted _ hMem
    obtain ⟨body, hAuthorised, hKey⟩ := Option.bind_eq_some_iff.mp hDeleted
    obtain ⟨named, hNamed, hId⟩ := List.mem_map.mp hMem
    obtain ⟨hStored, hSame⟩ := List.mem_filter.mp hNamed
    obtain rfl : named = row := eq_of_column_eq hRegular.ids hStored hRow hId
    have hBody : incoming.body = some body := (AddStep.authorisedBody_eq_some_iff.mp hAuthorised).1
    have hEq : named.key = key := of_decide_eq_true hSame
    refine hOther ⟨?_, ?_⟩
    · rw [hEq]
      exact (authorisedBody_of_deletedKey hBody hKey).mp hAuthorised
    · rw [hBody, hEq]
      exact hKey

/-- A new row is that of a follow or a block in the social graph, and no `Delete`
names its event. -/
theorem added_iff (hEvent : GraphEvent db incoming) (hArrives : ArrivesWhole db incoming)
    {table : GraphTable} {target : String} :
    (incoming.addStep runtime now id).authorisedBody.bind table.target = some target ↔
      (incoming.row runtime now id).key.collection = collectionSocial ∧
        incoming.body.bind table.target = some target ∧
        ¬((∃ delete, db.Deletes delete (incoming.row runtime now id).key) ∨
          incoming.key.identity = (incoming.row runtime now id).key.identity ∧
            incoming.body.bind deletedKey = some (incoming.row runtime now id).key) := by
  constructor
  · intro hAdded
    obtain ⟨body, hAuthorised, hTarget⟩ := Option.bind_eq_some_iff.mp hAdded
    have hBody : incoming.body = some body := (AddStep.authorisedBody_eq_some_iff.mp hAuthorised).1
    have hShown : incoming.body.bind table.target = some target := by rw [hBody]; exact hTarget
    refine ⟨?_, hShown, ?_⟩
    · rcases hEvent.stream with hSocial | ⟨-, hIdle⟩
      · show incoming.key.collection.toInt16 = collectionSocial
        rw [hSocial]
        rfl
      · have hUpdates := hIdle body hBody
        rw [updatesDerived_of_target hTarget] at hUpdates
        cases hUpdates
    · rintro (⟨delete, hDeletes⟩ | ⟨-, hDeleted⟩)
      · exact hArrives.alive table target hShown delete hDeletes
      · rw [hBody, Option.bind_some, deletedKey_of_target hTarget] at hDeleted
        cases hDeleted
  · rintro ⟨-, hShown, -⟩
    obtain ⟨body, hBody, hTarget⟩ := Option.bind_eq_some_iff.mp hShown
    exact Option.bind_eq_some_iff.mpr ⟨body, authorisedBody_of_target hBody hTarget, hTarget⟩

/-- One event keeps the tables and the stored events together. -/
theorem graphCached_stored (h : GraphCached P db) (hRegular : db.Regular) (hComplete : db.Complete)
    (hRecorded : db.DeletesRecorded P)
    (hRecorded' : (stored db (incoming.row runtime now id) incoming.decoded derived
      tombstones).DeletesRecorded P)
    (hIncoming : incomingEvent P bundle = some incoming) (hEvent : GraphEvent db incoming)
    (hArrives : ArrivesWhole db incoming)
    (hStores : (incoming.addStep runtime now id).Stores runtime db derived tombstones) :
    GraphCached P (stored db (incoming.row runtime now id) incoming.decoded derived tombstones) := by
  have hNew : ∀ e ∈ db.event, e.key ≠ (incoming.row runtime now id).key := hStores.newKey
  have hAlive : ∀ key, (∀ delete, ¬(stored db (incoming.row runtime now id) incoming.decoded derived
      tombstones).Deletes delete key) ↔ ¬((∃ delete, db.Deletes delete key) ∨
        incoming.key.identity = key.identity ∧ incoming.body.bind deletedKey = some key) := by
    intro key
    rw [← not_exists, deletes_stored_iff hComplete hRecorded hRecorded' hIncoming hArrives]
  refine ⟨fun table id' owner target => ?_, fun table row hRow target hShows => ?_⟩
  · have hRows : (id', owner, target) ∈ table.rows derived ↔ _ :=
      mem_rows_stored hStores table (id', owner, target)
    show (id', owner, target) ∈ table.rows derived ↔ _
    rw [hRows, h.rows]
    constructor
    · rintro (⟨⟨row, hRow, rfl, hOwner, hShows, hAliveOld⟩, hSpared⟩ | ⟨_, hAdded, hEq⟩)
      · have hStill := (spared_iff hRegular hRow hShows.1).mp hSpared
        have hMem := List.mem_append_left [incoming.row runtime now id] hRow
        refine ⟨row, hMem, rfl, hOwner,
          (shows_stored_iff hComplete hIncoming hArrives hNew hMem).mpr (Or.inl ⟨hRow, hShows⟩), ?_⟩
        rw [hAlive row.key, not_or, not_exists]
        exact ⟨hAliveOld, hStill⟩
      · obtain ⟨rfl, rfl, rfl⟩ : id' = id ∧ owner = incoming.key.identity ∧ target = _ := by
          simpa using hEq
        obtain ⟨hSocial, hShown, hAliveNew⟩ := (added_iff hEvent hArrives).mp hAdded
        have hMem := List.mem_append_right db.event
          (List.mem_singleton_self (incoming.row runtime now id'))
        refine ⟨incoming.row runtime now id', hMem, rfl, rfl,
          (shows_stored_iff hComplete hIncoming hArrives hNew hMem).mpr
            (Or.inr ⟨rfl, hSocial, hShown⟩), ?_⟩
        exact (hAlive _).mpr hAliveNew
    · rintro ⟨row, hRow, rfl, rfl, hShows, hAliveNew⟩
      rw [hAlive row.key] at hAliveNew
      rcases (shows_stored_iff hComplete hIncoming hArrives hNew hRow).mp hShows with
        ⟨hOld, hShowsOld⟩ | ⟨rfl, hSocial, hShown⟩
      · rw [not_or, not_exists] at hAliveNew
        exact Or.inl ⟨⟨row, hOld, rfl, rfl, hShowsOld, hAliveNew.1⟩,
          (spared_iff hRegular hOld hShowsOld.1).mpr hAliveNew.2⟩
      · exact Or.inr ⟨target, (added_iff hEvent hArrives).mpr ⟨hSocial, hShown, hAliveNew⟩, rfl⟩
  · rcases (shows_stored_iff hComplete hIncoming hArrives hNew hRow).mp hShows with
      ⟨hOld, hShowsOld⟩ | ⟨-, -, hShown⟩
    · exact h.named table row hOld target hShowsOld
    · exact hArrives.named table target hShown

end Cached

/-! ### Runs -/

/-- The action brings an event of the social graph, or an update of an identity. -/
def IngestsGraph (P : Primitives) (server : ServiceContext) (action : Action) : Prop :=
  ∀ arrival incoming, action = .bundle arrival → incomingEvent P arrival.bundle = some incoming →
    GraphEvent server.db incoming

/-- What holds of a server that ingests graph events. -/
structure GraphServer (P : Primitives) (server : ServiceContext) : Prop where
  synced : Synced P server.db server.proofCache
  regular : server.db.Regular
  kept : server.db.Kept P
  complete : server.db.Complete
  cached : GraphCached P server.db

section Serving

variable {P : Primitives} {runtime : Runtime} {server : ServiceContext}

theorem GraphEvent.narrow {db : Database} {incoming : IncomingEvent}
    (h : GraphEvent db incoming) : Narrow incoming.key.collection := by
  rcases h.stream with hSocial | ⟨hIdentity, -⟩
  · rw [hSocial]
    decide
  · rw [hIdentity]
    decide

/-- All content is stored with its event, so no content is late. -/
theorem GraphEvent.regular {db : Database} {incoming : IncomingEvent} (h : GraphEvent db incoming)
    (hComplete : db.Complete) : RegularEvent db incoming where
  narrow := h.narrow
  body hIdentity := by
    rcases h.stream with hSocial | ⟨-, hIdle⟩
    · rw [hSocial] at hIdentity
      exact absurd hIdentity (by decide)
    · exact hIdle
  content _ hFresh _ he _ hDigest := absurd hDigest (digest_ne_fresh hComplete hFresh he)

/-- At the start there is no event that a cache or a table could be behind. -/
theorem graphServer_start (bans : List String) : GraphServer P (start bans) where
  synced := ⟨ProofCache.coherent_empty, Table.coherent_nil⟩
  regular := ⟨.nil, .nil, by simp [start, Database.empty, DerivedTables.mentioned,
    DerivedTables.rows], .nil, .nil⟩
  kept := kept_start bans
  complete := nofun
  cached := ⟨fun table _ _ _ => by cases table <;> simp [start, Database.empty, GraphTable.rows],
    fun _ _ hRow => nomatch hRow⟩

/-- A bundle whose event is a graph event, and arrives whole, keeps the tables and the caches in
step with the events. -/
theorem graphServer_step (h : GraphServer P server) {action : Action}
    (hStep : NewIds server action ∧ IngestsGraph P server action) :
    GraphServer P (step P runtime server action) := by
  have hKept : (step P runtime server action).db.Kept P := kept_step h.kept action
  cases action with
  | request => exact ⟨h.synced, h.regular, h.kept, h.complete, h.cached⟩
  | bundle arrival =>
      have hOutcome := processEvent_outcome P runtime arrival.now arrival.id server arrival.bundle
      change ((processEvent P runtime arrival.now arrival.id server arrival.bundle).2.db).Kept P at hKept
      suffices hAll : Synced P (processEvent P runtime arrival.now arrival.id server arrival.bundle).2.db
          (processEvent P runtime arrival.now arrival.id server arrival.bundle).2.proofCache ∧
          (processEvent P runtime arrival.now arrival.id server arrival.bundle).2.db.Regular ∧
          (processEvent P runtime arrival.now arrival.id server arrival.bundle).2.db.Complete ∧
          GraphCached P (processEvent P runtime arrival.now arrival.id server arrival.bundle).2.db from
        ⟨hAll.1, hAll.2.1, hKept, hAll.2.2.1, hAll.2.2.2⟩
      generalize (processEvent P runtime arrival.now arrival.id server arrival.bundle).2.db = db',
        (processEvent P runtime arrival.now arrival.id server arrival.bundle).2.proofCache = cache'
        at hOutcome hKept ⊢
      cases hOutcome with
      | rejected => exact ⟨h.synced, h.regular, h.complete, h.cached⟩
      | checked incoming hIncoming =>
          have hEvent := hStep.2 arrival incoming rfl hIncoming
          exact ⟨h.synced.authorize hEvent.narrow, h.regular, h.complete, h.cached⟩
      | stored incoming hIncoming _ _ hAdded =>
          have hEvent := hStep.2 arrival incoming rfl hIncoming
          obtain ⟨derived, tombstones, hDerived, hTombstones, hRefuses, hResult⟩ :=
            addEvent_eq_ok_iff.mp hAdded
          obtain ⟨hSingle, -, rfl⟩ := hResult.resolve_left fun hOld => nomatch hOld.2.1
          have hStores : (incoming.addStep runtime arrival.now arrival.id).Stores runtime server.db
              derived tombstones :=
            ⟨AddStep.derivedAfter_eq_ok_iff.mp hDerived, hTombstones, hRefuses, hSingle⟩
          have hFresh : (incoming.addStep runtime arrival.now arrival.id).FreshId server.db :=
            (hStep.1 arrival rfl).event
          have hArrives := hEvent.arrives hStores.newKey
          exact ⟨(h.synced.authorize hEvent.narrow).stored (hEvent.regular h.complete) rfl,
            h.regular.stored hFresh hStores, complete_stored h.complete hIncoming hArrives,
            graphCached_stored h.cached h.regular h.complete h.kept.recorded hKept.recorded hIncoming
              hEvent hArrives hStores⟩

/-- The rows of the caller, by the events. -/
theorem mem_cached_iff (h : GraphCached P server.db) {table : GraphTable} {caller target : String} :
    target ∈ table.cached server.db.derived caller ↔ target ≠ "" ∧ ∃ row ∈ server.db.event,
      row.key.identity = caller ∧ server.db.Shows P table row target ∧
        ∀ delete, ¬server.db.Deletes delete row.key := by
  simp only [GraphTable.cached, List.mem_map, List.mem_filter, decide_eq_true_eq]
  constructor
  · rintro ⟨⟨id, owner, _⟩, ⟨hRow, rfl⟩, rfl⟩
    obtain ⟨row, hEvent, -, hOwner, hShows, hAlive⟩ := (h.rows _ _ _ _).mp hRow
    exact ⟨h.named table row hEvent _ hShows, row, hEvent, hOwner, hShows, hAlive⟩
  · rintro ⟨-, row, hEvent, hOwner, hShows, hAlive⟩
    exact ⟨(row.id, caller, target),
      ⟨(h.rows _ _ _ _).mpr ⟨row, hEvent, rfl, hOwner, hShows, hAlive⟩, rfl⟩, rfl⟩

end Serving

/-- The tables and the slow path agree after every run of graph events that arrive
whole, wherever all stored tombstones are by authorised signers. -/
theorem graph_tables_agree {P : Primitives} {runtime : Runtime} (bans : List String)
    (actions : List Action)
    (hRun : Along (step P runtime) (fun server action => NewIds server action ∧
      IngestsGraph P server action) (start bans) actions)
    (hStand : DeletesStand P (run (step P runtime) (start bans) actions).db) (table : GraphTable)
    (caller : String) :
    ∃ targets cache', listGraphTargets P (run (step P runtime) (start bans) actions).db
        (run (step P runtime) (start bans) actions).proofCache caller (table.decode P) =
          (.ok targets, cache') ∧
      ∀ target, target ∈ table.cached (run (step P runtime) (start bans) actions).db.derived caller ↔
        target ∈ targets := by
  have hServer : GraphServer P (run (step P runtime) (start bans) actions) :=
    run_invariant (fun h hStep => graphServer_step h hStep) (graphServer_start bans) hRun
  obtain ⟨targets, cache', hListed, hTargets⟩ := listGraphTargets_spec hServer.synced.coherent
    hServer.kept.filed hStand table caller
  refine ⟨targets, cache', hListed, fun target => ?_⟩
  rw [mem_cached_iff hServer.cached, hTargets target]

end Polycentric.Server

namespace Polycentric.TableInstance

open Proto Server Runs

/-! Alice blocks another identity, follows it, and takes the block back. -/

def blockKey : Proto.EventKey := ⟨Collections.socialGraph, aliceIdentity, some (key 2), 1⟩

def graphPrimitives : Primitives := primitives
  [([1], event Collections.identity aliceIdentity (key 1) 1 [] [11]),
    ([3], event Collections.socialGraph aliceIdentity (key 2) 1 [0, 1] [13]),
    ([4], event Collections.socialGraph aliceIdentity (key 2) 2 [0, 2] [14]),
    ([5], event Collections.socialGraph aliceIdentity (key 2) 3 [0, 3] [15])]
  [([11], ⟨some (.identity genesis)⟩), ([13], ⟨some (.block reactorIdentity)⟩),
    ([14], ⟨some (.follow reactorIdentity)⟩), ([15], ⟨some (.delete (some blockKey))⟩)]

/-- Event `[n]`, with its content. -/
def graphIncoming (collection : Int32) (signer : PublicKey) (sequence : UInt64)
    (vectorClock : List UInt64) (n : UInt8) (body : ContentBody) : IncomingEvent where
  signed := ⟨sign signer.key [n], [n]⟩
  event := event collection aliceIdentity signer sequence vectorClock [10 + n]
  key := ⟨collection, aliceIdentity, some signer, sequence⟩
  signedBy := signer
  decoded := some ⟨[10 + n], ⟨some body⟩, ⟨contentDigestTypeSha256, (digest [10 + n]).val⟩⟩

def graphRun : List Server.Action :=
  [.request, .bundle (arrival 1 (key 1)), .bundle (arrival 3 (key 2)), .bundle (arrival 4 (key 2)),
    .bundle (arrival 5 (key 2))]

/-- The `Delete` of the block arrives before the block. -/
def unblockFirst : ServiceContext :=
  run (step graphPrimitives runtime) (start []) [.request, .bundle (arrival 1 (key 1)),
    .bundle (arrival 5 (key 2)), .bundle (arrival 3 (key 2))]

/-- The row of the `Delete`. -/
def unblockRow : EventRow :=
  IncomingEvent.row runtime (graphIncoming Collections.socialGraph (key 2) 3 [0, 3] 5
    (.delete (some blockKey))) 0 5

end Polycentric.TableInstance

namespace Polycentric.Server

open Proto Result Memo Runs TableInstance

theorem ingestsGraph_bundle {P : Primitives} {server : ServiceContext} {arrival : Arrival}
    (incoming : IncomingEvent) (hIncoming : incomingEvent P arrival.bundle = some incoming)
    (h : GraphEvent server.db incoming) : IngestsGraph P server (.bundle arrival) := by
  rintro _ incoming' ⟨⟩ hIncoming'
  rwa [← Option.some.inj (hIncoming.symm.trans hIncoming')]

/-- New content, in a database without tombstones or of a body without a row. -/
theorem arrivesWhole_of_new {db : Database} {incoming : IncomingEvent} {d : DecodedContent}
    (hDecoded : incoming.decoded = some d) (hNew : ∀ content ∈ db.content, content.digest ≠ d.digest)
    (hNamed : ∀ table target, incoming.body.bind (GraphTable.target table) = some target → target ≠ "")
    (hAlive : db.contentDelete = [] ∨ ∀ table, incoming.body.bind (GraphTable.target table) = none) :
    ArrivesWhole db incoming where
  complete _ _ := by rw [hDecoded]; rfl
  genuine d' hSome content hContent hDigest := by
    obtain rfl : d = d' := Option.some.inj (hDecoded.symm.trans hSome)
    exact absurd hDigest (hNew content hContent)
  named := hNamed
  alive table target hTarget delete hDeletes := by
    rcases hAlive with hNone | hBody
    · obtain ⟨content, -, -, hDelete⟩ := hDeletes.content
      rw [hNone] at hDelete
      cases hDelete
    · rw [hBody table] at hTarget
      cases hTarget

theorem graphRun_newIds :
    Along (step graphPrimitives TableInstance.runtime) NewIds (start []) graphRun :=
  ⟨nofun, newIds_bundle ⟨by decide +kernel, by decide +kernel⟩,
    newIds_bundle ⟨by decide +kernel, by decide +kernel⟩,
    newIds_bundle ⟨by decide +kernel, by decide +kernel⟩,
    newIds_bundle ⟨by decide +kernel, by decide +kernel⟩, trivial⟩

theorem graphRun_ingests :
    Along (step graphPrimitives TableInstance.runtime) (IngestsGraph graphPrimitives) (start [])
      graphRun := by
  refine ⟨(fun _ _ h => nomatch h), ?_, ?_, ?_, ?_, trivial⟩
  · refine ingestsGraph_bundle
      (graphIncoming Collections.identity (key 1) 1 [] 1 (.identity genesis)) (by decide +kernel)
      ⟨Or.inr ⟨rfl, ?_⟩, fun _ => arrivesWhole_of_new rfl (by decide +kernel) ?_ (Or.inl rfl)⟩
    · rintro _ ⟨⟩
      rfl
    · intro table target hTarget
      cases table <;> cases hTarget
  · refine ingestsGraph_bundle (graphIncoming Collections.socialGraph (key 2) 1 [0, 1] 3
      (.block reactorIdentity)) (by decide +kernel)
      ⟨Or.inl rfl, fun _ => arrivesWhole_of_new rfl (by decide +kernel) ?_
        (Or.inl (by decide +kernel))⟩
    intro table target hTarget
    cases table <;> cases hTarget
    decide +kernel
  · refine ingestsGraph_bundle (graphIncoming Collections.socialGraph (key 2) 2 [0, 2] 4
      (.follow reactorIdentity)) (by decide +kernel)
      ⟨Or.inl rfl, fun _ => arrivesWhole_of_new rfl (by decide +kernel) ?_
        (Or.inl (by decide +kernel))⟩
    intro table target hTarget
    cases table <;> cases hTarget
    decide +kernel
  · refine ingestsGraph_bundle (graphIncoming Collections.socialGraph (key 2) 3 [0, 3] 5
      (.delete (some blockKey))) (by decide +kernel)
      ⟨Or.inl rfl, fun _ => arrivesWhole_of_new rfl (by decide +kernel) ?_ (Or.inr ?_)⟩
    · intro table target hTarget
      cases table <;> cases hTarget
    · intro table
      cases table <;> rfl

/-- The one `Delete` is signed by alice's key. -/
theorem graphRun_stands :
    DeletesStand graphPrimitives (run (step graphPrimitives TableInstance.runtime) (start [])
      graphRun).db := by
  intro row key hDeletes _
  obtain ⟨content, -, hDigest, hDelete⟩ := hDeletes.content
  have hOnly : ∀ delete ∈ (run (step graphPrimitives TableInstance.runtime) (start [])
      graphRun).db.contentDelete, ∀ row ∈ (run (step graphPrimitives TableInstance.runtime) (start [])
      graphRun).db.event, row.contentDigest = some delete.content → row = unblockRow := by
    decide +kernel
  obtain rfl : row = unblockRow := hOnly _ hDelete row hDeletes.stored hDigest
  exact ⟨event Collections.socialGraph aliceIdentity (TableInstance.key 2) 3 [0, 3] [15],
    ⟨Collections.socialGraph, aliceIdentity, some (TableInstance.key 2), 3⟩, TableInstance.key 2, genesis,
    by decide +kernel, rfl, rfl, by decide +kernel, Or.inl (by decide +kernel)⟩

/-- Alice's follow is there. -/
theorem graph_tables_agree_follow :
    ∃ targets cache', listGraphTargets graphPrimitives
        (run (step graphPrimitives TableInstance.runtime) (start []) graphRun).db
        (run (step graphPrimitives TableInstance.runtime) (start []) graphRun).proofCache aliceIdentity
        (GraphTable.follow.decode graphPrimitives) = (.ok targets, cache') ∧
      reactorIdentity ∈ targets := by
  obtain ⟨targets, cache', hListed, hTargets⟩ := graph_tables_agree [] graphRun
    (graphRun_newIds.and graphRun_ingests) graphRun_stands .follow aliceIdentity
  exact ⟨targets, cache', hListed, (hTargets reactorIdentity).mp (by decide +kernel)⟩

/-- The table keeps the row of a block whose `Delete` came before it, and the slow
path leaves the block out. -/
theorem graph_tables_disagree_block :
    listBlockedIdentities unblockFirst.db aliceIdentity = [reactorIdentity] ∧
      GraphTable.block.cached unblockFirst.db.derived aliceIdentity = [reactorIdentity] ∧
      (listGraphTargets graphPrimitives unblockFirst.db unblockFirst.proofCache aliceIdentity
        (decodeBlockedIdentity graphPrimitives)).1.toOption = some [] := by
  decide +kernel

end Polycentric.Server
