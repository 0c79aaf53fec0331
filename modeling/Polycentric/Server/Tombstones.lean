import Polycentric.Library.Result
import Polycentric.Server.Ingestion
import Polycentric.Server.Provenance

/-! Tombstones, `events/tombstone.rs`: the `Delete` events that name an event, and
which of them count. Listing joins three tables; then every `Delete` found has its
signer checked against the identity as it is now. -/
namespace Polycentric.Server

open Proto Result Memo Runs Gathering

variable (P : Primitives)

/-- The bundle of a stored `Delete`. -/
def tombstoneBundle (event : EventRow) (content : ContentRow) : EventBundle where
  signedEvent := some ⟨event.signature, event.eventBytes⟩
  serializedContent := some ⟨content.serializedBytes⟩
  eventProofs := []
  metadata := none

/-- `content_delete` joined with its content and with the events that carry this
content. The event and the key that it names have one identity. -/
def Database.tombstoneRows (db : Database) (keys : List EventKeyParts) :
    List (EventKeyParts × EventBundle) :=
  (db.contentDelete.filter fun row => row.eventKey ∈ keys).flatMap fun row =>
    (db.content.filter fun content => content.digest = row.content).flatMap fun content =>
      (db.event.filter fun event => event.contentDigest = some content.digest ∧
        event.key.identity = row.eventKey.identity).map fun event =>
          (row.eventKey, tombstoneBundle event content)

/-- The rows of each key. A hash map has its keys in no particular order; nothing
below depends on it. -/
def groupByTarget (rows : List (EventKeyParts × EventBundle)) :
    List (EventKeyParts × List EventBundle) :=
  (rows.map Prod.fst).dedup.map fun key =>
    (key, (rows.filter fun row => row.1 = key).map Prod.snd)

/-- List all tombstone events. They are not validated. -/
def Database.listTombstonesForEventKeys (db : Database) (keys : List EventKeyParts) :
    List (EventKeyParts × List EventBundle) :=
  if keys.isEmpty then [] else groupByTarget (db.tombstoneRows keys)

/-- The signed event of a bundle with its key and its signer. -/
def tombstoneSigner (bundle : EventBundle) : Option (SignedEvent × EventKey × PublicKey) := do
  let signed ← bundle.signedEvent
  let event ← (P.decodeEvent signed.eventBytes).toOption
  let key ← event.key
  let signer ← key.signedBy
  return (signed, key, signer)

/-- Whether the signer of a `Delete` may still remove the target. -/
def isTombstoneAuthorized (db : Database) (target : EventKeyParts) (cache : ProofCache)
    (bundle : EventBundle) : Except Status Bool × ProofCache :=
  match tombstoneSigner P bundle with
  | none => (.ok false, cache)
  | some (signed, key, signer) =>
      if key.identity ≠ target.identity then (.ok false, cache)
      else
        match authorizeEventSigner P db cache key.identity signer key.collection
            signed.signature with
        | (.ok (), cache) => (.ok true, cache)
        | (.error status, cache) =>
            if status.code = .permissionDenied then (.ok false, cache)
            else (.error status, cache)

/-- One round of the loop over the bundles of a target. -/
def keepBundle (db : Database) (target : EventKeyParts) (cache : ProofCache)
    (bundle : EventBundle) : Except Status (Option EventBundle) × ProofCache :=
  match isTombstoneAuthorized P db target cache bundle with
  | (.ok authorized, cache) => (.ok (if authorized then some bundle else none), cache)
  | (.error status, cache) => (.error status, cache)

/-- One round of the loop over the targets: its bundles that are allowed to remove
it, if there are any. -/
def keepTarget (db : Database) (cache : ProofCache) (entry : EventKeyParts × List EventBundle) :
    Except Status (Option (EventKeyParts × List EventBundle)) × ProofCache :=
  match gather (keepBundle P db entry.1) cache entry.2 with
  | (.ok kept, cache) => (.ok (if kept.isEmpty then none else some (entry.1, kept)), cache)
  | (.error status, cache) => (.error status, cache)

/-- Keep only tombstone bundles whose `Delete` is allowed to remove its target. -/
def validateTombstones (db : Database) (cache : ProofCache)
    (deletesByTarget : List (EventKeyParts × List EventBundle)) :
    Except Status (List (EventKeyParts × List EventBundle)) × ProofCache :=
  gather (keepTarget P db) cache deletesByTarget

/-- The valid tombstones for the keys, by tombstoned key. -/
def validatedTombstones (db : Database) (cache : ProofCache) (keys : List EventKeyParts) :
    Except Status (List (EventKeyParts × List EventBundle)) × ProofCache :=
  validateTombstones P db cache (db.listTombstonesForEventKeys keys)

/-! ### Which tombstones count -/

/-- The stored event carries a `Delete` of the key, which is of its own identity. -/
structure Database.Deletes (db : Database) (event : EventRow) (key : EventKeyParts) : Prop where
  stored : event ∈ db.event
  owner : event.key.identity = key.identity
  content : ∃ content ∈ db.content, event.contentDigest = some content.digest ∧
    ⟨content.digest, key⟩ ∈ db.contentDelete

/-- The bundle is of the identity, and the identity authorises its signer now. -/
def BundleAuthorised (db : Database) (identity : String) (bundle : EventBundle) :
    Prop :=
  ∃ signed key signer document, tombstoneSigner P bundle = some (signed, key, signer) ∧
    key.identity = identity ∧ db.latestValidIdentityContent P identity = some document ∧
    Authorises P db document identity signer key.collection signed.signature

section Specification

variable {P} {db : Database} {cache : ProofCache} {keys : List EventKeyParts}

theorem mem_tombstoneRows {row : EventKeyParts × EventBundle} :
    row ∈ db.tombstoneRows keys ↔ row.1 ∈ keys ∧ ∃ event ∈ db.event, ∃ content ∈ db.content,
      event.key.identity = row.1.identity ∧ event.contentDigest = some content.digest ∧
        ⟨content.digest, row.1⟩ ∈ db.contentDelete ∧ row.2 = tombstoneBundle event content := by
  simp only [Database.tombstoneRows, List.mem_flatMap, List.mem_filter, List.mem_map,
    decide_eq_true_eq]
  constructor
  · rintro ⟨⟨digest, key⟩, ⟨hDelete, hKey⟩, content, ⟨hContent, rfl⟩, event,
      ⟨hEvent, hDigest, hOwner⟩, rfl⟩
    exact ⟨hKey, event, hEvent, content, hContent, hOwner, hDigest, hDelete, rfl⟩
  · rintro ⟨hKey, event, hEvent, content, hContent, hOwner, hDigest, hDelete, hBundle⟩
    exact ⟨⟨content.digest, row.1⟩, ⟨hDelete, hKey⟩, content, ⟨hContent, rfl⟩, event,
      ⟨hEvent, hDigest, hOwner⟩, Prod.ext rfl hBundle.symm⟩

theorem mem_groupByTarget {rows : List (EventKeyParts × EventBundle)}
    {entry : EventKeyParts × List EventBundle} :
    entry ∈ groupByTarget rows ↔ entry.1 ∈ rows.map Prod.fst ∧
      entry.2 = (rows.filter fun row => row.1 = entry.1).map Prod.snd := by
  simp only [groupByTarget, List.mem_map, List.mem_dedup]
  constructor
  · rintro ⟨key, hKey, rfl⟩
    exact ⟨hKey, rfl⟩
  · rintro ⟨hKey, hBundles⟩
    exact ⟨entry.1, hKey, Prod.ext rfl hBundles.symm⟩

/-- A key is listed with the bundles of its rows. -/
theorem mem_listTombstones {key : EventKeyParts} {bundle : EventBundle} :
    (∃ bundles, (key, bundles) ∈ db.listTombstonesForEventKeys keys ∧ bundle ∈ bundles) ↔
      (key, bundle) ∈ db.tombstoneRows keys := by
  unfold Database.listTombstonesForEventKeys
  cases keys with
  | nil => simp [mem_tombstoneRows]
  | cons first rest =>
      simp only [List.isEmpty_cons, Bool.false_eq_true, if_false, mem_groupByTarget]
      generalize db.tombstoneRows (first :: rest) = rows
      constructor
      · rintro ⟨bundles, ⟨-, hBundles⟩, hBundle⟩
        rw [hBundles] at hBundle
        obtain ⟨row, hRow, rfl⟩ := List.mem_map.mp hBundle
        obtain ⟨hMem, hKey⟩ := List.mem_filter.mp hRow
        rwa [← of_decide_eq_true hKey]
      · intro hRow
        refine ⟨(rows.filter fun row => row.1 = key).map Prod.snd,
          ⟨List.mem_map_of_mem hRow, rfl⟩, ?_⟩
        exact List.mem_map.mpr ⟨(key, bundle), List.mem_filter.mpr ⟨hRow, by simp⟩, rfl⟩

/-- A signer that the document does not authorise is denied; any other failure is
about the document. -/
theorem authorizeEventSigner_denied (h : cache.Coherent P db) {identity : String}
    {document : Identity} (hLatest : db.latestValidIdentityContent P identity = some document)
    {signer : PublicKey} {collection : Int32} {signature : Bytes} {status : Status}
    (hError : (authorizeEventSigner P db cache identity signer collection signature).1 =
      .error status) :
    status.code = .permissionDenied := by
  rcases cachedIdentityContent_spec h identity with
    ⟨document', cache', -, hCached, -, -⟩ | ⟨hNone, -⟩
  · simp only [authorizeEventSigner, hCached] at hError
    split_ifs at hError
    split at hError
    · cases hError
      rfl
    · split_ifs at hError
      cases hError
      rfl
  · simp [hNone] at hLatest

theorem tombstoneSigner_eq_some_iff {bundle : EventBundle} {signed : SignedEvent} {key : EventKey}
    {signer : PublicKey} :
    tombstoneSigner P bundle = some (signed, key, signer) ↔ bundle.signedEvent = some signed ∧
      ∃ event, P.decodeEvent signed.eventBytes = .ok event ∧ event.key = some key ∧
        key.signedBy = some signer := by
  simp only [tombstoneSigner, Option.bind_eq_bind, Option.bind_eq_some_iff, toOption_eq_some_iff,
    pure, Option.some.injEq, Prod.mk.injEq]
  constructor
  · rintro ⟨_, hSigned, event, hDecoded, _, hKey, _, hSigner, rfl, rfl, rfl⟩
    exact ⟨hSigned, event, hDecoded, hKey, hSigner⟩
  · rintro ⟨hSigned, event, hDecoded, hKey, hSigner⟩
    exact ⟨signed, hSigned, event, hDecoded, key, hKey, signer, hSigner, rfl, rfl, rfl⟩

open Classical in
/-- A `Delete` of an identity that has a document is decided by that document. -/
theorem isTombstoneAuthorized_spec (h : cache.Coherent P db) {target : EventKeyParts}
    {document : Identity} (hLatest : db.latestValidIdentityContent P target.identity = some document)
    (bundle : EventBundle) :
    ∃ cache', isTombstoneAuthorized P db target cache bundle =
      (.ok (decide (BundleAuthorised P db target.identity bundle)), cache') ∧
        cache'.Coherent P db := by
  unfold isTombstoneAuthorized
  cases hSigner : tombstoneSigner P bundle with
  | none =>
      refine ⟨cache, ?_, h⟩
      simp [BundleAuthorised, hSigner]
  | some parts =>
      obtain ⟨signed, key, signer⟩ := parts
      dsimp only
      split_ifs with hOwner
      · refine ⟨cache, ?_, h⟩
        simp [BundleAuthorised, hSigner, hOwner]
      · rw [not_not] at hOwner
        have hVerdict : (authorizeEventSigner P db cache target.identity signer key.collection
            signed.signature).1 = .ok () ↔ BundleAuthorised P db target.identity bundle := by
          rw [authorizeEventSigner_eq_ok_iff h]
          simp [BundleAuthorised, hSigner, hOwner]
        have hCoherent : (authorizeEventSigner P db cache target.identity signer key.collection
            signed.signature).2.Coherent P db := authorizeEventSigner_coherent h
        have hDenied : ∀ status, (authorizeEventSigner P db cache target.identity signer
            key.collection signed.signature).1 = .error status → status.code = .permissionDenied :=
          fun status => authorizeEventSigner_denied h hLatest
        rw [hOwner]
        cases hAuthorize : authorizeEventSigner P db cache target.identity signer key.collection
            signed.signature with
        | mk verdict cache' =>
            rw [hAuthorize] at hVerdict hCoherent hDenied
            cases verdict with
            | ok _ => exact ⟨cache', by simp [hVerdict.mp rfl], hCoherent⟩
            | error status =>
                have hNot : ¬BundleAuthorised P db target.identity bundle :=
                  fun hIs => nomatch hVerdict.mpr hIs
                exact ⟨cache', by simp [hDenied status rfl, hNot], hCoherent⟩

/-- The loops keep the keys that have a row whose bundle is authorised, if the cache
stays good and does not decide. -/
theorem validatedTombstones_of_answers {Good : ProofCache → Prop}
    {Kept : EventKeyParts → EventBundle → Prop} [∀ key bundle, Decidable (Kept key bundle)]
    (hRow : ∀ row ∈ db.tombstoneRows keys, ∀ cache, Good cache → ∃ cache',
      isTombstoneAuthorized P db row.1 cache row.2 = (.ok (decide (Kept row.1 row.2)), cache') ∧
        Good cache')
    (h : Good cache) :
    ∃ validated cache', validatedTombstones P db cache keys = (.ok validated, cache') ∧
      Good cache' ∧ ∀ key, key ∈ validated.map Prod.fst ↔
        ∃ bundle, (key, bundle) ∈ db.tombstoneRows keys ∧ Kept key bundle := by
  have hBundles : ∀ entry ∈ db.listTombstonesForEventKeys keys, ∀ bundle ∈ entry.2,
      Answers Good (keepBundle P db entry.1) bundle
        (if Kept entry.1 bundle then some bundle else none) := by
    intro entry hEntry bundle hBundle cache hGood
    obtain ⟨cache', hVerdict, hGood'⟩ := hRow (entry.1, bundle)
      (mem_listTombstones.mp ⟨entry.2, hEntry, hBundle⟩) cache hGood
    exact ⟨cache', by simp [keepBundle, hVerdict], hGood'⟩
  have hTargets : ∀ entry ∈ db.listTombstonesForEventKeys keys, Answers Good (keepTarget P db) entry
      (if (entry.2.filter fun b => Kept entry.1 b).isEmpty then none
        else some (entry.1, entry.2.filter fun b => Kept entry.1 b)) := by
    intro entry hEntry cache hGood
    obtain ⟨cache', hKept, hGood'⟩ := gather_eq (hBundles entry hEntry) hGood
    refine ⟨cache', ?_, hGood'⟩
    have hFilter : (entry.2.filterMap fun bundle => if Kept entry.1 bundle then some bundle else none) =
        entry.2.filter fun b => Kept entry.1 b := by
      rw [← List.filterMap_eq_filter]
      simp [Option.guard]
    rw [hFilter] at hKept
    simp only [keepTarget, hKept]
  obtain ⟨cache', hGathered, hGood'⟩ := gather_eq hTargets h
  refine ⟨_, cache', hGathered, hGood', fun key => ?_⟩
  have hNonempty : ∀ entry : EventKeyParts × List EventBundle,
      (entry.2.filter fun b => Kept entry.1 b).isEmpty = false ↔
        ∃ bundle ∈ entry.2, Kept entry.1 bundle := by
    intro entry
    rw [List.isEmpty_eq_false_iff_exists_mem]
    simp
  constructor
  · intro hMem
    obtain ⟨kept, hKept, rfl⟩ := List.mem_map.mp hMem
    obtain ⟨entry, hEntry, hAnswer⟩ := List.mem_filterMap.mp hKept
    split_ifs at hAnswer with hEmpty
    obtain rfl := Option.some.inj hAnswer
    obtain ⟨bundle, hBundle, hAuthorised⟩ := (hNonempty entry).mp (by simpa using hEmpty)
    exact ⟨bundle, mem_listTombstones.mp ⟨entry.2, hEntry, hBundle⟩, hAuthorised⟩
  · rintro ⟨bundle, hRow, hAuthorised⟩
    obtain ⟨bundles, hEntry, hBundle⟩ := mem_listTombstones.mpr hRow
    have hKept := (hNonempty (key, bundles)).mpr ⟨bundle, hBundle, hAuthorised⟩
    refine List.mem_map.mpr ⟨(key, bundles.filter fun b => Kept key b), ?_, rfl⟩
    refine List.mem_filterMap.mpr ⟨(key, bundles), hEntry, ?_⟩
    rw [if_neg (by simpa using hKept)]

/-- A key of an identity with a document is tombstoned exactly if the bundle of one
of its rows is authorised. -/
theorem validatedTombstones_spec (h : cache.Coherent P db)
    (hLatest : ∀ row ∈ db.tombstoneRows keys, ∃ document,
      db.latestValidIdentityContent P row.1.identity = some document) :
    ∃ validated cache', validatedTombstones P db cache keys = (.ok validated, cache') ∧
      cache'.Coherent P db ∧ ∀ key, key ∈ validated.map Prod.fst ↔
        ∃ bundle, (key, bundle) ∈ db.tombstoneRows keys ∧
          BundleAuthorised P db key.identity bundle := by
  classical
  refine validatedTombstones_of_answers ?_ h
  intro row hRow cache hCoherent
  obtain ⟨document, hDocument⟩ := hLatest row hRow
  exact isTombstoneAuthorized_spec hCoherent hDocument row.2

end Specification

/-! ### What the tables of a reachable server hold -/

/-- Every row holds the key and the digest that its event carries. -/
def Database.Filed (db : Database) : Prop :=
  ∀ row ∈ db.event, ∃ event key signer, P.decodeEvent row.eventBytes = .ok event ∧
    event.key = some key ∧ key.signedBy = some signer ∧ row.key = .of key signer ∧
    row.contentDigest = event.contentDigest

/-- The decoded body of stored content. -/
def ContentRow.body (row : ContentRow) : Option ContentBody :=
  (P.decodeContent row.serializedBytes).toOption.bind Content.contentBody

/-- The stored content of the event has this body. -/
def Database.Carries (db : Database) (row : EventRow) (body : ContentBody) : Prop :=
  ∃ content ∈ db.content, row.contentDigest = some content.digest ∧
    content.body P = some body

/-- The key that stored content deletes. -/
def ContentRow.deletes (row : ContentRow) : Option EventKeyParts :=
  (P.decodeContent row.serializedBytes).toOption.bind fun content =>
    content.contentBody.bind deletedKey

/-- `content_delete` has a row for every stored `Delete`, and no other row. -/
def Database.DeletesRecorded (db : Database) : Prop :=
  ∀ digest key, ⟨digest, key⟩ ∈ db.contentDelete ↔
    ∃ row ∈ db.content, row.digest = digest ∧ row.deletes P = some key

section Reachable

variable {P} {runtime : Runtime} {db : Database} {bundle : EventBundle} {incoming : IncomingEvent}

/-- What an event shows that passed the checks. -/
theorem incomingEvent_opened (h : incomingEvent P bundle = some incoming) :
    P.decodeEvent incoming.signed.eventBytes = .ok incoming.event ∧
      incoming.event.key = some incoming.key ∧ incoming.key.signedBy = some incoming.signedBy ∧
      ∀ d, incoming.decoded = some d → P.decodeContent d.bytes = .ok d.content ∧
        incoming.event.contentDigest = some d.digest := by
  unfold incomingEvent at h
  cases hOpen : openBundle P bundle with
  | error status => simp [hOpen] at h
  | ok parts =>
      obtain ⟨signed, event, key⟩ := parts
      simp only [hOpen, toOption_eq_some_iff] at h
      simp only [openBundle, bind_eq_ok_iff, okOr_eq_ok_iff, mapError_eq_ok_iff, pure, Except.pure,
        Except.ok.injEq, Prod.mk.injEq] at hOpen
      obtain ⟨_, -, _, hDecoded, _, hKey, rfl, rfl, rfl⟩ := hOpen
      simp only [checkEvent, bind_eq_ok_iff, okOr_eq_ok_iff, ensure_eq_ok_iff, pure, Except.pure,
        Except.ok.injEq] at h
      obtain ⟨signedBy, hSigner, -, -, decoded, hContent, rfl⟩ := h
      refine ⟨hDecoded, hKey, hSigner, ?_⟩
      rintro d rfl
      unfold decodeContent at hContent
      split at hContent
      · next digest _ hDigest =>
          simp only [bind_eq_ok_iff, mapError_eq_ok_iff, pure, Except.pure, Except.ok.injEq,
            Option.some.injEq] at hContent
          obtain ⟨-, -, content, hDecode, rfl⟩ := hContent
          exact ⟨hDecode, hDigest⟩
      · cases hContent

theorem filed_stored (h : db.Filed P) (hIncoming : incomingEvent P bundle = some incoming)
    {now : Int} {id : Nat} {derived : DerivedTables} {tombstones : List ContentDeleteRow} :
    (stored db (incoming.row runtime now id) incoming.decoded derived tombstones).Filed P := by
  intro row hRow
  rcases List.mem_append.mp hRow with hOld | hNew
  · exact h row hOld
  · obtain rfl := List.mem_singleton.mp hNew
    obtain ⟨hDecoded, hKey, hSigner, -⟩ := incomingEvent_opened hIncoming
    exact ⟨incoming.event, incoming.key, incoming.signedBy, hDecoded, hKey, hSigner, rfl, rfl⟩

theorem deletesRecorded_stored (h : db.DeletesRecorded P)
    (hIncoming : incomingEvent P bundle = some incoming) {row : EventRow} {derived : DerivedTables}
    {tombstones : List ContentDeleteRow} (hTombstones : tombstonesOf incoming.decoded = .ok tombstones) :
    (stored db row incoming.decoded derived tombstones).DeletesRecorded P := by
  intro digest key
  cases hFresh : freshContent db incoming.decoded with
  | none => simpa [stored, hFresh] using h digest key
  | some d =>
      have hDecoded := (freshContent_eq_some_iff.mp hFresh).1
      rw [hDecoded] at hTombstones
      have hDecode := ((incomingEvent_opened hIncoming).2.2.2 d hDecoded).1
      have hNew : (⟨digest, key⟩ : ContentDeleteRow) ∈ tombstones ↔
          d.digest = digest ∧ (ContentRow.mk d.digest d.bytes).deletes P = some key := by
        rw [tombstonesOf_eq hTombstones]
        simp [ContentRow.deletes, hDecode, Except.toOption, and_comm]
      simp only [stored, hFresh, Option.isSome_some, if_true, Option.map_some, Option.toList_some,
        List.mem_append, h digest key, hNew, List.mem_singleton, or_and_right, exists_or,
        exists_eq_left]

theorem deletes_eq_bind (content : ContentRow) :
    content.deletes P = (content.body P).bind deletedKey := by
  unfold ContentRow.deletes ContentRow.body
  cases (P.decodeContent content.serializedBytes).toOption <;> rfl

/-- A `Delete` by the body of its content. -/
theorem deletes_iff (h : db.DeletesRecorded P) {row : EventRow} {key : EventKeyParts} :
    db.Deletes row key ↔ row ∈ db.event ∧ row.key.identity = key.identity ∧
      ∃ body, db.Carries P row body ∧ deletedKey body = some key := by
  constructor
  · rintro ⟨hRow, hOwner, content, -, hDigest, hDelete⟩
    obtain ⟨content', hContent', hSame, hDeletes⟩ := (h content.digest key).mp hDelete
    rw [deletes_eq_bind] at hDeletes
    obtain ⟨body, hBody, hKey⟩ := Option.bind_eq_some_iff.mp hDeletes
    exact ⟨hRow, hOwner, body, ⟨content', hContent', hSame ▸ hDigest, hBody⟩, hKey⟩
  · rintro ⟨hRow, hOwner, body, ⟨content, hContent, hDigest, hBody⟩, hKey⟩
    refine ⟨hRow, hOwner, content, hContent, hDigest, (h content.digest key).mpr ?_⟩
    refine ⟨content, hContent, rfl, ?_⟩
    rw [deletes_eq_bind, hBody]
    exact hKey

/-- The identity of the stored event authorises its signer now. -/
def Database.Stands (P : Primitives) (db : Database) (row : EventRow) : Prop :=
  ∃ event key signer document, P.decodeEvent row.eventBytes = .ok event ∧ event.key = some key ∧
    key.signedBy = some signer ∧
    db.latestValidIdentityContent P row.key.identity = some document ∧
    Authorises P db document row.key.identity signer key.collection row.signature

theorem bundleAuthorised_iff (hFiled : db.Filed P) {row : EventRow} (hRow : row ∈ db.event)
    (content : ContentRow) :
    BundleAuthorised P db row.key.identity (tombstoneBundle row content) ↔ db.Stands P row := by
  obtain ⟨event, key, signer, hDecoded, hKey, hSigner, hColumns, -⟩ := hFiled row hRow
  have hOwner : key.identity = row.key.identity := by rw [hColumns]; rfl
  have hParts : tombstoneSigner P (tombstoneBundle row content) =
      some (⟨row.signature, row.eventBytes⟩, key, signer) :=
    tombstoneSigner_eq_some_iff.mpr ⟨rfl, event, hDecoded, hKey, hSigner⟩
  simp [BundleAuthorised, Database.Stands, hParts, hDecoded, hKey, hSigner, hOwner]

/-- A key is tombstoned exactly if a stored `Delete` of its own identity names it and
the signer of this `Delete` is authorised now. -/
theorem tombstoned_iff {cache : ProofCache} {keys : List EventKeyParts} (h : cache.Coherent P db)
    (hFiled : db.Filed P)
    (hLatest : ∀ key ∈ keys, ∀ row, db.Deletes row key → ∃ document,
      db.latestValidIdentityContent P key.identity = some document) :
    ∃ validated cache', validatedTombstones P db cache keys = (.ok validated, cache') ∧
      cache'.Coherent P db ∧ ∀ key, key ∈ validated.map Prod.fst ↔
        key ∈ keys ∧ ∃ row, db.Deletes row key ∧ db.Stands P row := by
  have hDocuments : ∀ row ∈ db.tombstoneRows keys, ∃ document,
      db.latestValidIdentityContent P row.1.identity = some document := by
    intro row hRow
    obtain ⟨hKey, event, hEvent, content, hContent, hOwner, hDigest, hDelete, -⟩ :=
      mem_tombstoneRows.mp hRow
    exact hLatest row.1 hKey event ⟨hEvent, hOwner, content, hContent, hDigest, hDelete⟩
  obtain ⟨validated, cache', hValidated, hCoherent, hKeys⟩ := validatedTombstones_spec h hDocuments
  refine ⟨validated, cache', hValidated, hCoherent, fun key => ?_⟩
  rw [hKeys key]
  constructor
  · rintro ⟨bundle, hRow, hAuthorised⟩
    obtain ⟨hKey, event, hEvent, content, hContent, hOwner, hDigest, hDelete, hBundle⟩ :=
      mem_tombstoneRows.mp hRow
    rw [show bundle = tombstoneBundle event content from hBundle, ← hOwner,
      bundleAuthorised_iff hFiled hEvent] at hAuthorised
    exact ⟨hKey, event, ⟨hEvent, hOwner, content, hContent, hDigest, hDelete⟩, hAuthorised⟩
  · rintro ⟨hKey, event, ⟨hEvent, hOwner, content, hContent, hDigest, hDelete⟩, hStands⟩
    refine ⟨tombstoneBundle event content, mem_tombstoneRows.mpr
      ⟨hKey, event, hEvent, content, hContent, hOwner, hDigest, hDelete, rfl⟩, ?_⟩
    rwa [← hOwner, bundleAuthorised_iff hFiled hEvent]

/-- Every reachable database files its events and records its deletions. -/
structure Database.Kept (P : Primitives) (db : Database) : Prop where
  filed : db.Filed P
  recorded : db.DeletesRecorded P

theorem kept_step {server : ServiceContext} (h : server.db.Kept P) (action : Action) :
    (step P runtime server action).db.Kept P := by
  cases action with
  | request => exact h
  | bundle arrival =>
      have hOutcome := processEvent_outcome P runtime arrival.now arrival.id server arrival.bundle
      change (processEvent P runtime arrival.now arrival.id server arrival.bundle).2.db.Kept P
      generalize (processEvent P runtime arrival.now arrival.id server arrival.bundle).2.db = db',
        (processEvent P runtime arrival.now arrival.id server arrival.bundle).2.proofCache = cache'
        at hOutcome ⊢
      cases hOutcome with
      | rejected => exact h
      | checked _ _ => exact h
      | stored incoming hIncoming _ _ hAdded =>
          obtain ⟨derived, tombstones, -, hTombstones, -, hResult⟩ := addEvent_eq_ok_iff.mp hAdded
          obtain ⟨-, -, rfl⟩ := hResult.resolve_left fun hOld => nomatch hOld.2.1
          exact ⟨filed_stored h.filed hIncoming,
            deletesRecorded_stored h.recorded hIncoming hTombstones⟩

theorem kept_start (bans : List String) : (start bans).db.Kept P where
  filed _ hRow := nomatch hRow
  recorded _ _ := by simp [start, Database.empty]

theorem kept_run (bans : List String) (actions : List Action) :
    (run (step P runtime) (start bans) actions).db.Kept P := by
  have hStep : ∀ {server : ServiceContext} {action : Action}, server.db.Kept P → True →
      (step P runtime server action).db.Kept P := fun h _ => kept_step h _
  let Invariant (server : ServiceContext) : Prop := server.db.Kept P
  have hRun : Invariant (run (step P runtime) (start bans) actions) :=
    run_invariant hStep (kept_start bans) (along_true (start bans) actions)
  exact hRun

end Reachable

end Polycentric.Server
