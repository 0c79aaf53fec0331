import Polycentric.Client.ValidEvents
import Polycentric.Server.Acknowledgement
import Polycentric.Server.Tombstones

/-! Two readings of the same deletions. The server looks up the `Delete` events that
name a key, wherever they are; the client reads one collection and leaves out what
the `Delete` events in it name. -/
namespace Polycentric.Sync

open Proto Result Client Server Runs SortedEntries

variable (P : Primitives)

/-! ### The client -/

/-- Every stored event is filed under its own key. -/
def Filed (client : PolycentricClient) : Prop :=
  ∀ entry ∈ client.eventStore.entries, EventKey.fromSignedEvent P entry.2 = .ok entry.1

/-- The key that a stored event deletes. -/
def deletesKey (client : PolycentricClient) (entry : Client.EventKey × SignedEvent) :
    Option Client.EventKey :=
  (client.bundleFor P entry.1 entry.2 true).toOption.bind (deleteTarget P)

section Client

variable {P} {client : PolycentricClient}

theorem Filed.of_eventStore_eq {client' : PolycentricClient} (h : Filed P client)
    (hStore : client'.eventStore = client.eventStore) : Filed P client' := by
  unfold Filed
  rw [hStore]
  exact h

theorem Filed.copyEvent (h : Filed P client) (signed : SignedEvent) :
    Filed P (client.copyEvent P signed).2 := by
  have hCopied : EventCopied P client signed (client.copyEvent P signed).2 := eventCopied client signed
  generalize (client.copyEvent P signed).2 = client' at hCopied ⊢
  cases hCopied with
  | kept => exact h.of_eventStore_eq rfl
  | inserted key hKey _ =>
      intro entry hEntry
      rcases mem_insertEntry hEntry with rfl | hOld
      · exact hKey
      · exact h entry hOld

theorem eventStore_copyContent (client : PolycentricClient) (digest : ContentDigest)
    (contentBytes : Bytes) :
    (client.copyContent P digest contentBytes).2.eventStore = client.eventStore := by
  have hCopied : ContentCopied P client digest contentBytes
      (client.copyContent P digest contentBytes).2 := contentCopied client digest contentBytes
  generalize (client.copyContent P digest contentBytes).2 = client' at hCopied ⊢
  cases hCopied <;> rfl

theorem Filed.copyBundle (h : Filed P client) (entry : Event × EventBundle) :
    Filed P (client.copyBundle P entry) := by
  have hContent : Filed P (client.copyBundleContent P entry.1 entry.2) := by
    apply h.of_eventStore_eq
    unfold PolycentricClient.copyBundleContent
    split
    · exact eventStore_copyContent client _ _
    · rfl
  have hProofs : Filed P ((client.copyBundleContent P entry.1 entry.2).copyBundleProofs entry.1
      entry.2) := by
    apply hContent.of_eventStore_eq
    unfold PolycentricClient.copyBundleProofs
    split
    · rfl
    · dsimp only
      split <;> rfl
  unfold PolycentricClient.copyBundle
  dsimp only
  split
  · exact hProofs.copyEvent _
  · exact hProofs

theorem Filed.copyEntries (h : Filed P client) (entries : List (Event × EventBundle)) :
    Filed P (entries.foldl (fun client entry => client.copyBundle P entry) client) := by
  induction entries generalizing client with
  | nil => exact h
  | cons entry rest ih => exact ih (h.copyBundle entry)

theorem eventStore_readChain (client : PolycentricClient) (identity : String) :
    (client.readChain P identity).eventStore = client.eventStore := by
  unfold PolycentricClient.readChain
  split <;> rfl

theorem eventStore_readChains (identities : List String) (client : PolycentricClient) :
    (identities.foldl (PolycentricClient.readChain P) client).eventStore = client.eventStore := by
  induction identities generalizing client with
  | nil => rfl
  | cons identity rest ih =>
      exact (ih (client.readChain P identity)).trans (eventStore_readChain client identity)

theorem eventStore_readBlocked (client : PolycentricClient) :
    (client.readBlocked P).eventStore = client.eventStore := by
  unfold PolycentricClient.readBlocked
  split
  · rfl
  · dsimp only
    split
    · rfl
    · exact eventStore_readChains _ client

theorem Filed.call (h : Filed P client) (call : PolycentricClient.Call) :
    Filed P (client.call P call) := by
  cases call with
  | copyEvent signed => exact h.copyEvent signed
  | copyContent digest contentBytes => exact h.of_eventStore_eq (eventStore_copyContent client _ _)
  | copyBundles bundles => exact h.copyEntries _
  | setActiveIdentity identity => exact h.of_eventStore_eq rfl
  | readChain identity => exact h.of_eventStore_eq (eventStore_readChain client identity)
  | readBlocked => exact h.of_eventStore_eq (eventStore_readBlocked client)

theorem filed_run (calls : List PolycentricClient.Call) :
    Filed P (run (PolycentricClient.call P) PolycentricClient.new calls) :=
  run_invariant (fun h _ => Filed.call h _) (fun _ hEntry => nomatch hEntry)
    (along_true PolycentricClient.new calls)

/-- Among valid events, a key is tombstoned if one of the collection deletes it. -/
theorem tombstoned_iff_deletesKey {identity : String} {collection : Int32} {key : Client.EventKey}
    (hValid : ∀ entry ∈ client.eventStore.entries, entry.1.identity = identity →
      client.isValid P entry = true) :
    client.Tombstoned P identity collection key ↔
      ∃ other ∈ client.eventStore.entries, other.1.identity = identity ∧
        other.1.collection = collection ∧ deletesKey P client other = some key := by
  refine exists_congr fun other => and_congr_right fun hOther => and_congr_right fun hOwner =>
    and_congr_right fun _ => ?_
  rw [deletesKey, bundleFor_of_isValid (hValid other hOther hOwner), and_iff_right (hValid other hOther hOwner),
    ← deleteTarget_storedBundle]
  rfl

/-- An event of a collection that is valid as a whole is listed unless a `Delete` in
this collection names it. -/
theorem listValidEvents_spec (hFiled : Filed P client) {identity : String} (collection : Int32)
    (hValid : ∀ entry ∈ client.eventStore.entries, entry.1.identity = identity →
      client.isValid P entry = true) :
    ∃ bundles, client.listValidEvents P identity collection = .ok bundles ∧
      ∀ entry ∈ client.eventStore.entries, entry.1.identity = identity →
        entry.1.collection = collection →
        ((∃ bundle ∈ bundles, bundle.signedEvent = some entry.2) ↔
          ¬∃ other ∈ client.eventStore.entries, other.1.identity = identity ∧
            other.1.collection = collection ∧ deletesKey P client other = some entry.1) := by
  classical
  refine ⟨_, listValidEvents_exact P client identity collection, fun entry hEntry hOwner hCollection => ?_⟩
  rw [← tombstoned_iff_deletesKey hValid]
  constructor
  · rintro ⟨bundle, hBundle, hSigned⟩
    obtain ⟨entry', hListed, rfl⟩ := List.mem_map.mp hBundle
    obtain ⟨hEntry', hShown⟩ := List.mem_filter.mp hListed
    have hSame : entry'.2 = entry.2 := Option.some.inj hSigned
    have hKeys : entry'.1 = entry.1 := by
      have hFrom := hFiled entry' hEntry'
      rw [hSame, hFiled entry hEntry] at hFrom
      exact (Except.ok.inj hFrom).symm
    rw [← hKeys]
    exact (of_decide_eq_true hShown).2.2.2
  · intro hAlive
    exact ⟨client.storedBundle P entry, List.mem_map_of_mem (List.mem_filter.mpr ⟨hEntry,
      decide_eq_true ⟨hOwner, hCollection, hValid entry hEntry hOwner, hAlive⟩⟩), rfl⟩

end Client

/-! ### The server -/

section Server

variable {P} {db : Database} {cache : ProofCache} {identity : String} {document : Identity}
  {keys : List EventKeyParts}

/-- The document that the server goes by is cached from the first lookup on. -/
theorem cachedIdentityContent_again
    (h : (cachedIdentityContent P db cache identity).1 = .ok document) :
    (cachedIdentityContent P db (cachedIdentityContent P db cache identity).2 identity).1 =
      .ok document := by
  have hPair : cachedIdentityContent P db cache identity =
      (.ok document, (cachedIdentityContent P db cache identity).2) := Prod.ext h rfl
  rw [cachedIdentityContent_hit (cachedIdentityContent_remembered hPair)]

/-- The key that the stored event is signed with. -/
def rowSigner (P : Primitives) (row : EventRow) : Option PublicKey :=
  ((P.decodeEvent row.eventBytes).toOption.bind Event.key).bind EventKey.signedBy

/-- The document authorises all signers of stored events of the identity. -/
def AllAuthorised (P : Primitives) (db : Database) (identity : String) (document : Identity) : Prop :=
  ∀ row ∈ db.event, row.key.identity = identity → ∀ signer ∈ rowSigner P row,
    document.authorizesSigner signer = true

/-- Every tombstone counts if the document that the server goes by authorises all
signers of the identity. -/
theorem tombstoned_of_authorised (hFiled : db.Filed P)
    (hDocument : (cachedIdentityContent P db cache identity).1 = .ok document)
    (hSigned : AllAuthorised P db identity document) (hKeys : ∀ key ∈ keys, key.identity = identity) :
    ∃ validated cache', validatedTombstones P db cache keys = (.ok validated, cache') ∧
      ∀ key ∈ keys, (key ∈ validated.map Prod.fst ↔ ∃ row, db.Deletes row key) := by
  let Good (cache : ProofCache) : Prop := (cachedIdentityContent P db cache identity).1 = .ok document
  let Kept (_ : EventKeyParts) (_ : EventBundle) : Prop := True
  have : ∀ key bundle, Decidable (Kept key bundle) := fun _ _ => inferInstanceAs (Decidable True)
  have hRow : ∀ row ∈ db.tombstoneRows keys, ∀ cache, Good cache → ∃ cache',
      isTombstoneAuthorized P db row.1 cache row.2 = (.ok (decide (Kept row.1 row.2)), cache') ∧
        Good cache' := by
    intro row hRow cache hGood
    obtain ⟨hKey, event, hEvent, content, -, hOwner, -, -, hBundle⟩ := mem_tombstoneRows.mp hRow
    obtain ⟨decoded, key, signer, hDecoded, hEventKey, hSigner, hColumns, -⟩ := hFiled event hEvent
    have hIdentity : event.key.identity = identity := hOwner.trans (hKeys row.1 hKey)
    have hName : key.identity = identity := by
      rw [← hIdentity, hColumns]
      rfl
    have hRowSigner : signer ∈ rowSigner P event := by
      simp [rowSigner, hDecoded, hEventKey, hSigner, Except.toOption]
    have hAuthorised := hSigned event hEvent hIdentity signer hRowSigner
    have hParts : tombstoneSigner P row.2 = some (⟨event.signature, event.eventBytes⟩, key, signer) := by
      rw [hBundle]
      exact tombstoneSigner_eq_some_iff.mpr ⟨rfl, decoded, hDecoded, hEventKey, hSigner⟩
    have hPair : cachedIdentityContent P db cache identity =
        (.ok document, (cachedIdentityContent P db cache identity).2) := Prod.ext hGood rfl
    refine ⟨(cachedIdentityContent P db cache identity).2, ?_, cachedIdentityContent_again hGood⟩
    have hTarget : ¬key.identity ≠ row.1.identity := not_not.mpr (hName.trans (hKeys row.1 hKey).symm)
    rw [isTombstoneAuthorized, hParts]
    dsimp only
    rw [if_neg hTarget, authorizeEventSigner, hName, hPair]
    simp only [hAuthorised, if_true, Kept, decide_true]
  obtain ⟨validated, cache', hValidated, -, hMem⟩ := validatedTombstones_of_answers hRow hDocument
  refine ⟨validated, cache', hValidated, fun key hKey => ?_⟩
  rw [hMem key]
  constructor
  · rintro ⟨bundle, hRow, -⟩
    obtain ⟨-, event, hEvent, content, hContent, hOwner, hDigest, hDelete, -⟩ :=
      mem_tombstoneRows.mp hRow
    exact ⟨event, hEvent, hOwner, content, hContent, hDigest, hDelete⟩
  · rintro ⟨event, hEvent, hOwner, content, hContent, hDigest, hDelete⟩
    exact ⟨tombstoneBundle event content, mem_tombstoneRows.mpr
      ⟨hKey, event, hEvent, content, hContent, hOwner, hDigest, hDelete, rfl⟩, trivial⟩

end Server

/-! ### Both sides -/

/-- The columns of a store key. -/
def columns (key : Client.EventKey) : EventKeyParts where
  collection := key.collection.toInt16
  identity := key.identity
  publicKeyType := key.signedByKeyType.toInt16
  publicKey := key.signedByKey
  sequence := key.sequence.toInt64

/-- Both sides hold the same events of the identity, with the same content. -/
structure HeldByBoth (client : PolycentricClient) (db : Database) (identity : String) : Prop where
  onServer : ∀ entry ∈ client.eventStore.entries, entry.1.identity = identity →
    ∃ row ∈ db.event, row.key.identity = identity ∧
      entry.2.signature = row.signature ∧ entry.2.eventBytes = row.eventBytes
  onClient : ∀ row ∈ db.event, row.key.identity = identity →
    ∃ entry ∈ client.eventStore.entries, entry.1.identity = identity ∧
      entry.2.signature = row.signature ∧ entry.2.eventBytes = row.eventBytes
  contentOnServer : ∀ row ∈ db.event, row.key.identity = identity → ∀ digest ∈ row.contentDigest,
    ∀ bytes ∈ client.contentStore.get digest, ⟨digest, bytes⟩ ∈ db.content
  contentOnClient : ∀ row ∈ db.event, row.key.identity = identity → ∀ content ∈ db.content,
    row.contentDigest = some content.digest →
      client.contentStore.get content.digest = some content.serializedBytes

/-- Events of the identity that both sides hold, that are valid on the client, and
whose signers are authorised by the document that the server goes by. -/
structure SharedEvents (P : Primitives) (client : PolycentricClient) (server : ServiceContext)
    (identity : String) (document : Identity) : Prop where
  held : HeldByBoth client server.db identity
  valid : ∀ entry ∈ client.eventStore.entries, entry.1.identity = identity →
    client.isValid P entry = true
  head : (cachedIdentityContent P server.db server.proofCache identity).1 = .ok document
  signers : AllAuthorised P server.db identity document

section Both

variable {P} {client : PolycentricClient} {db : Database} {identity : String}

/-- The key that a `Delete` names is the same on both sides, up to its columns. -/
theorem deleteTarget_columns (bundle : EventBundle) :
    (deleteTarget P bundle).map columns = (contentBody P bundle).bind deletedKey := by
  unfold deleteTarget
  cases hBody : contentBody P bundle with
  | none => rfl
  | some body =>
      cases body with
      | delete eventKey =>
          cases eventKey with
          | none => rfl
          | some target =>
              cases hSigner : target.signedBy with
              | none => simp [deletedKey, partsOf, hSigner]
              | some signer => simp [deletedKey, partsOf, hSigner, columns, EventKeyParts.of]
      | _ => rfl

/-- What a filed event decodes to. -/
theorem fromSignedEvent_eq_ok_iff {signed : SignedEvent} {key : Client.EventKey} :
    EventKey.fromSignedEvent P signed = .ok key ↔ ∃ event eventKey signer,
      P.decodeEvent signed.eventBytes = .ok event ∧ event.key = some eventKey ∧
        eventKey.signedBy = some signer ∧ key = ⟨eventKey.identity, eventKey.collection,
          signer.keyType, signer.key, eventKey.sequence⟩ := by
  simp only [EventKey.fromSignedEvent, bind_eq_ok_iff, mapError_eq_ok_iff]
  refine exists_congr fun event => ?_
  unfold EventKey.fromEvent
  cases event.key with
  | none => simp [throw, throwThe, MonadExceptOf.throw]
  | some eventKey =>
      cases hSigner : eventKey.signedBy with
      | none => simp [hSigner, throw, throwThe, MonadExceptOf.throw]
      | some signer => simp [hSigner, pure, Except.pure, eq_comm]

/-- The row of an event that the client has filed. -/
theorem row_key_eq (hFiled : Filed P client) (hRows : db.Filed P)
    {entry : Client.EventKey × SignedEvent} (hEntry : entry ∈ client.eventStore.entries)
    {row : EventRow} (hRow : row ∈ db.event) (hBytes : entry.2.eventBytes = row.eventBytes) :
    row.key = columns entry.1 ∧ ∃ event, P.decodeEvent entry.2.eventBytes = .ok event ∧
      row.contentDigest = event.contentDigest := by
  obtain ⟨event, key, signer, hDecoded, hKey, hSigner, hColumns, hDigest⟩ := hRows row hRow
  obtain ⟨event', key', signer', hDecoded', hKey', hSigner', hEq⟩ :=
    fromSignedEvent_eq_ok_iff.mp (hFiled entry hEntry)
  rw [hBytes, hDecoded] at hDecoded'
  obtain rfl := Except.ok.inj hDecoded'
  obtain rfl := Option.some.inj (hKey.symm.trans hKey')
  obtain rfl := Option.some.inj (hSigner.symm.trans hSigner')
  refine ⟨?_, event, hBytes ▸ hDecoded, hDigest⟩
  rw [hColumns, hEq]
  rfl

/-- The body that the event of a row carries, read by the client. -/
theorem carries_iff (hHeld : HeldByBoth client db identity)
    {entry : Client.EventKey × SignedEvent} {row : EventRow} (hRow : row ∈ db.event)
    (hOwner : row.key.identity = identity) {event : Event}
    (hDecoded : P.decodeEvent entry.2.eventBytes = .ok event)
    (hDigest : row.contentDigest = event.contentDigest) {body : ContentBody} :
    db.Carries P row body ↔
      ∃ bundle, client.bundleFor P entry.1 entry.2 true = .ok bundle ∧
        contentBody P bundle = some body := by
  have hBundle : ∀ bundle, client.bundleFor P entry.1 entry.2 true = .ok bundle ↔ bundle =
      ⟨some entry.2, (row.contentDigest.bind client.contentStore.get).map fun bytes => ⟨bytes⟩,
        client.eventProofsStore.get entry.1, client.metaStore.get entry.1⟩ := by
    intro bundle
    rw [hDigest, PolycentricClient.bundleFor, hDecoded]
    simp [pure, Except.pure, bind, Except.bind, Except.mapError, eq_comm]
  have hRead : (∃ bundle, client.bundleFor P entry.1 entry.2 true = .ok bundle ∧
      contentBody P bundle = some body) ↔ ∃ digest bytes, row.contentDigest = some digest ∧
        client.contentStore.get digest = some bytes ∧
        (ContentRow.mk digest bytes).body P = some body := by
    simp only [hBundle, exists_eq_left, contentBody, ContentRow.body, Option.bind_eq_bind,
      Option.bind_eq_some_iff, Option.map_eq_some_iff]
    constructor
    · rintro ⟨_, ⟨bytes, ⟨digest, hSome, hGet⟩, rfl⟩, hBody⟩
      exact ⟨digest, bytes, hSome, hGet, hBody⟩
    · rintro ⟨digest, bytes, hSome, hGet, hBody⟩
      exact ⟨_, ⟨bytes, ⟨digest, hSome, hGet⟩, rfl⟩, hBody⟩
  rw [hRead]
  constructor
  · rintro ⟨content, hContent, hSome, hBody⟩
    exact ⟨content.digest, content.serializedBytes, hSome,
      hHeld.contentOnClient row hRow hOwner content hContent hSome, hBody⟩
  · rintro ⟨digest, bytes, hSome, hGet, hBody⟩
    exact ⟨⟨digest, bytes⟩, hHeld.contentOnServer row hRow hOwner digest hSome bytes hGet, hSome, hBody⟩

/-- A key is named by a `Delete` on the server exactly if the client holds an event
that deletes a key with these columns. -/
theorem deletes_iff_deletesKey (hHeld : HeldByBoth client db identity) (hFiled : Filed P client)
    (hRows : db.Kept P) {key : Client.EventKey} (hKey : key.identity = identity) :
    (∃ row, db.Deletes row (columns key)) ↔
      ∃ other ∈ client.eventStore.entries, other.1.identity = identity ∧
        ∃ target, deletesKey P client other = some target ∧ columns target = columns key := by
  have hNamed : ∀ other, (∃ target, deletesKey P client other = some target ∧
      columns target = columns key) ↔ ∃ body, (∃ bundle, client.bundleFor P other.1 other.2 true =
        .ok bundle ∧ contentBody P bundle = some body) ∧ deletedKey body = some (columns key) := by
    intro other
    have hColumns : ∀ bundle, (∃ target, deleteTarget P bundle = some target ∧
        columns target = columns key) ↔ ∃ body, contentBody P bundle = some body ∧
          deletedKey body = some (columns key) := by
      intro bundle
      rw [← Option.bind_eq_some_iff, ← deleteTarget_columns, Option.map_eq_some_iff]
    simp only [deletesKey, Option.bind_eq_some_iff, toOption_eq_some_iff]
    constructor
    · rintro ⟨target, ⟨bundle, hBundle, hTarget⟩, hEq⟩
      obtain ⟨body, hBody, hDeleted⟩ := (hColumns bundle).mp ⟨target, hTarget, hEq⟩
      exact ⟨body, ⟨bundle, hBundle, hBody⟩, hDeleted⟩
    · rintro ⟨body, ⟨bundle, hBundle, hBody⟩, hDeleted⟩
      obtain ⟨target, hTarget, hEq⟩ := (hColumns bundle).mpr ⟨body, hBody, hDeleted⟩
      exact ⟨target, ⟨bundle, hBundle, hTarget⟩, hEq⟩
  constructor
  · rintro ⟨row, hDeletes⟩
    obtain ⟨hRow, hOwner, body, hCarries, hDeleted⟩ := (deletes_iff hRows.recorded).mp hDeletes
    have hOwner : row.key.identity = identity := hOwner.trans hKey
    obtain ⟨other, hOther, hName, -, hBytes⟩ := hHeld.onClient row hRow hOwner
    obtain ⟨-, event, hDecoded, hDigest⟩ := row_key_eq hFiled hRows.filed hOther hRow hBytes
    refine ⟨other, hOther, hName, (hNamed other).mpr ⟨body, ?_, hDeleted⟩⟩
    exact (carries_iff hHeld hRow hOwner hDecoded hDigest).mp hCarries
  · rintro ⟨other, hOther, hName, hTarget⟩
    obtain ⟨row, hRow, hOwner, -, hBytes⟩ := hHeld.onServer other hOther hName
    obtain ⟨-, event, hDecoded, hDigest⟩ := row_key_eq hFiled hRows.filed hOther hRow hBytes
    obtain ⟨body, hBundle, hDeleted⟩ := (hNamed other).mp hTarget
    refine ⟨row, (deletes_iff hRows.recorded).mpr ⟨hRow, hOwner.trans hKey.symm, body, ?_, hDeleted⟩⟩
    exact (carries_iff hHeld hRow hOwner hDecoded hDigest).mpr hBundle

end Both

/-- The server hides an event exactly if any `Delete` of the identity names its columns,
and the client leaves it out exactly if a `Delete` in the event's own collection names
its key. So they agree on an event exactly if, being named at all, it is named in its
own collection. -/
theorem tombstones_agree_iff {P : Primitives} {runtime : Runtime}
    (calls : List PolycentricClient.Call) (bans : List String) (actions : List Server.Action)
    {client : PolycentricClient} {server : ServiceContext}
    (hClient : client = run (PolycentricClient.call P) PolycentricClient.new calls)
    (hServer : server = run (step P runtime) (start bans) actions)
    {identity : String} {document : Identity}
    (hShared : SharedEvents P client server identity document)
    {entry : Client.EventKey × SignedEvent} (hEntry : entry ∈ client.eventStore.entries)
    (hOwner : entry.1.identity = identity)
    {keys : List EventKeyParts} (hKeys : ∀ key ∈ keys, key.identity = identity)
    (hListed : columns entry.1 ∈ keys) :
    ∃ validated cache' bundles,
      validatedTombstones P server.db server.proofCache keys = (.ok validated, cache') ∧
      client.listValidEvents P identity entry.1.collection = .ok bundles ∧
      (columns entry.1 ∈ validated.map Prod.fst ↔
        ∃ other ∈ client.eventStore.entries, other.1.identity = identity ∧
          ∃ target, deletesKey P client other = some target ∧ columns target = columns entry.1) ∧
      ((¬∃ bundle ∈ bundles, bundle.signedEvent = some entry.2) ↔
        ∃ other ∈ client.eventStore.entries, other.1.identity = identity ∧
          other.1.collection = entry.1.collection ∧ deletesKey P client other = some entry.1) ∧
      ((columns entry.1 ∈ validated.map Prod.fst ↔
          ¬∃ bundle ∈ bundles, bundle.signedEvent = some entry.2) ↔
        ((∃ other ∈ client.eventStore.entries, other.1.identity = identity ∧
          ∃ target, deletesKey P client other = some target ∧ columns target = columns entry.1) →
        ∃ other ∈ client.eventStore.entries, other.1.identity = identity ∧
          other.1.collection = entry.1.collection ∧ deletesKey P client other = some entry.1)) := by
  have hFiled : Filed P client := hClient ▸ filed_run calls
  have hKept : server.db.Kept P := hServer ▸ kept_run bans actions
  obtain ⟨validated, cache', hValidated, hHidden⟩ :=
    tombstoned_of_authorised hKept.filed hShared.head hShared.signers hKeys
  obtain ⟨bundles, hBundles, hShown⟩ :=
    listValidEvents_spec hFiled entry.1.collection hShared.valid
  refine ⟨validated, cache', bundles, hValidated, hBundles, ?_⟩
  rw [hHidden _ hListed, deletes_iff_deletesKey hShared.held hFiled hKept hOwner,
    hShown entry hEntry hOwner rfl, not_not]
  refine ⟨Iff.rfl, Iff.rfl, ?_⟩
  constructor
  · exact fun hIff => hIff.mp
  · refine fun hSame => ⟨hSame, ?_⟩
    rintro ⟨other, hOther, hName, -, hTarget⟩
    exact ⟨other, hOther, hName, entry.1, hTarget, rfl⟩

end Polycentric.Sync

namespace Polycentric.TableInstance

open Proto Client Server Sync Runs

/-! Alice deletes her post, in the feed or in another collection. -/

/-- Event `[n]` has the content `[10 + n]`. -/
def retractPrimitives : Primitives := primitives
  [([1], event Collections.identity aliceIdentity (key 1) 1 [] [11]),
    ([3], event Collections.feed aliceIdentity (key 2) 1 [0, 1] [13]),
    ([5], event Collections.feed aliceIdentity (key 2) 2 [0, 2] [15]),
    ([6], event Collections.interactions aliceIdentity (key 2) 1 [0, 1] [15])]
  [([11], ⟨some (.identity genesis)⟩), ([13], ⟨some (.post ⟨"hello", none, [], none, []⟩)⟩),
    ([15], ⟨some (.delete (some postKey))⟩)]

/-- Event `[n]`, signed, with content of its own. -/
def retractBundle (n content : UInt8) (signer : PublicKey) : EventBundle :=
  ⟨some ⟨sign signer.key [n], [n]⟩, some ⟨[content]⟩, [], none⟩

/-- The post, and its `Delete` with the given event. -/
def retraction (n : UInt8) : List EventBundle :=
  [retractBundle 1 11 (key 1), retractBundle 3 13 (key 2), retractBundle n 15 (key 2)]

def retractCalls (n : UInt8) : List PolycentricClient.Call := [.copyBundles (retraction n)]

def retractActions (n : UInt8) : List Server.Action :=
  [.request, .bundle ⟨0, 1, retractBundle 1 11 (key 1)⟩, .bundle ⟨0, 3, retractBundle 3 13 (key 2)⟩,
    .bundle ⟨0, 5, retractBundle n 15 (key 2)⟩]

def retractClient (n : UInt8) : PolycentricClient :=
  run (PolycentricClient.call retractPrimitives) PolycentricClient.new (retractCalls n)

def retractServer (n : UInt8) : ServiceContext :=
  run (step retractPrimitives runtime) (start []) (retractActions n)

/-- The entry of the post. -/
def postEntry : Client.EventKey × SignedEvent :=
  (⟨aliceIdentity, Collections.feed, keyTypeEd25519, (key 2).key, 1⟩, ⟨sign (key 2).key [3], [3]⟩)

end Polycentric.TableInstance

namespace Polycentric.Sync

open Proto Result Client Server Runs TableInstance

/-- Alice's events are the same on both sides, and key 2 is still authorised. -/
theorem retraction_shared {n : UInt8} (h : n = 5 ∨ n = 6) :
    SharedEvents retractPrimitives (retractClient n) (retractServer n) aliceIdentity genesis := by
  rcases h with rfl | rfl
  · exact ⟨⟨by decide +kernel, by decide +kernel, by decide +kernel, by decide +kernel⟩,
      by decide +kernel, by decide +kernel, by unfold AllAuthorised; decide +kernel⟩
  · exact ⟨⟨by decide +kernel, by decide +kernel, by decide +kernel, by decide +kernel⟩,
      by decide +kernel, by decide +kernel, by unfold AllAuthorised; decide +kernel⟩

/-- A post that is deleted in the feed is hidden on both sides. -/
theorem tombstones_agree_feed :
    ∃ validated cache' bundles,
      validatedTombstones retractPrimitives (retractServer 5).db (retractServer 5).proofCache
        [columns postEntry.1] = (.ok validated, cache') ∧
      (retractClient 5).listValidEvents retractPrimitives aliceIdentity Collections.feed =
        .ok bundles ∧
      (columns postEntry.1 ∈ validated.map Prod.fst ↔
        ¬∃ bundle ∈ bundles, bundle.signedEvent = some postEntry.2) := by
  obtain ⟨validated, cache', bundles, hValidated, hBundles, -, -, hIff⟩ :=
    tombstones_agree_iff (retractCalls 5) [] (retractActions 5) rfl rfl
      (retraction_shared (Or.inl rfl)) (show postEntry ∈ _ by decide +kernel) rfl
      (show ∀ key ∈ [columns postEntry.1], _ by decide +kernel) (List.mem_singleton_self _)
  refine ⟨validated, cache', bundles, hValidated, hBundles, hIff.mpr fun _ => ?_⟩
  decide +kernel

/-- A post that is deleted in another collection is hidden on the server only. -/
theorem tombstones_disagree_interactions :
    SharedEvents retractPrimitives (retractClient 6) (retractServer 6) aliceIdentity genesis ∧
      postEntry ∈ (retractClient 6).eventStore.entries ∧
      ((validatedTombstones retractPrimitives (retractServer 6).db (retractServer 6).proofCache
        [columns postEntry.1]).1.toOption.map (List.map Prod.fst)) = some [columns postEntry.1] ∧
      ((retractClient 6).listValidEvents retractPrimitives aliceIdentity Collections.feed).toOption.map
        (List.map EventBundle.signedEvent) = some [some postEntry.2] := by
  refine ⟨retraction_shared (Or.inr rfl), ?_⟩
  decide +kernel

end Polycentric.Sync
