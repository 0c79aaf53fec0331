import Polycentric.Client.Pulling
import Polycentric.Common.Identity
import Polycentric.Library.HeadPaging
import Polycentric.Library.SortedEntries

/-! Repeated partial pulls from one server. The client asks by the head of every
stream, the server cuts its answer at 200 events, the greatest sequences first, and the
client keeps what it finds valid. -/
namespace Polycentric.Sync

open Proto Result Client Server HeadPaging SortedEntries KeyedMerge

variable (P : Primitives)

/-! ### Rows and keys -/

/-- The key that a client reads in the bytes of a row. -/
def rowKey (row : EventRow) : Option Proto.EventKey :=
  (P.decodeEvent row.eventBytes).toOption.bind Event.key

def rowSigned (row : EventRow) : SignedEvent := ⟨row.signature, row.eventBytes⟩

/-- A key that survives the widths of its columns. -/
structure FitsColumns (key : Proto.EventKey) (signedBy : PublicKey) : Prop where
  collection : key.collection.toInt16.toInt32 = key.collection
  keyType : signedBy.keyType.toInt16.toInt32 = signedBy.keyType
  sequence : key.sequence.toNat < 2 ^ 63

/-- A server as ingestion leaves it: one row for a key, with the columns of the
signed event that it stores. -/
structure Serves (db : Database) : Prop where
  keys : (db.event.map EventRow.key).Nodup
  rows : ∀ row ∈ db.event, ∃ key signedBy, rowKey P row = some key ∧
    key.signedBy = some signedBy ∧ row.key = .of key signedBy
  signed : ∀ row ∈ db.event, row.signature ≠ [] ∧ row.eventBytes ≠ []

/-- All keys of the server fit their columns. -/
def ServesNarrow (db : Database) : Prop :=
  ∀ row ∈ db.event, ∀ key signedBy, rowKey P row = some key → key.signedBy = some signedBy →
    FitsColumns key signedBy

/-- The storage holds events of the server only. -/
structure HoldsSubset (db : Database) (repository : EventRepository) : Prop where
  keys : (repository.map Prod.fst).Nodup
  rows : ∀ entry ∈ repository, ∃ row ∈ db.event, rowKey P row = some entry.1 ∧
    rowSigned row = entry.2

/-- The storage holds the event of the row. -/
def HoldsRow (repository : EventRepository) (row : EventRow) : Prop :=
  ∃ key, rowKey P row = some key ∧ repository.getByEventKey key = some (rowSigned row)

/-! ### Pulling again and again -/

/-- The content that is listed with a row. -/
def rowContent (db : Database) (row : EventRow) : Option ContentRow :=
  row.contentDigest.bind fun digest => db.content.find? fun content => content.digest = digest

section Pulls

variable (hydrate : Hydrate) (db : Database) (identity : String)

/-- One partial pull of the identity. -/
def pullOnce (order : List EventRow → List EventRow) (client : LocalClient) : ℕ × LocalClient :=
  pull P (handleListEvents order hydrate db) identity true client

/-- The client after `n` pulls. Every answer may be sorted in its own way. -/
def pulls (orders : ℕ → List EventRow → List EventRow) : ℕ → LocalClient → LocalClient
  | 0, client => client
  | n + 1, client => (pullOnce P hydrate db identity (orders n) (pulls orders n client)).2

/-- How the database sorts: by descending sequence. -/
structure SortsDescending (order : List EventRow → List EventRow) : Prop where
  perm : ∀ rows, (order rows).Perm rows
  descending : ∀ rows, (order rows).Pairwise fun a b => b.key.sequence ≤ a.key.sequence

/-- Pulling until a round brings nothing new ends, and then the client holds every
event of the identity that the server holds. -/
def PullsEverything (orders : ℕ → List EventRow → List EventRow) (client : LocalClient) : Prop :=
  (∃ n, (pullOnce P hydrate db identity (orders n)
      (pulls P hydrate db identity orders n client)).1 = 0) ∧
    ∀ n, (pullOnce P hydrate db identity (orders n)
        (pulls P hydrate db identity orders n client)).1 = 0 →
      ∀ row ∈ db.event, row.key.identity = identity →
        HoldsRow P (pulls P hydrate db identity orders n client).events row

end Pulls

/-! ### When every event is reached -/

/-- The collection and the signer of a row. -/
def rowStream (row : EventRow) : Int16 × Int16 × Bytes :=
  (row.key.collection, row.key.publicKeyType, row.key.publicKey)

/-- No event of the identity is missing at or below one that the client holds of
the same stream. -/
def NoGap (db : Database) (identity : String) (repository : EventRepository) : Prop :=
  ∀ row ∈ db.event, row.key.identity = identity → ¬HoldsRow P repository row →
    ∀ head ∈ db.event, head.key.identity = identity → HoldsRow P repository head →
      rowStream head = rowStream row → head.key.sequence < row.key.sequence

/-- However the missing events of the identity are sorted by descending sequence,
cutting them into pages of 200 separates no two events of one stream. -/
def PagesKeepStreams (db : Database) (identity : String) (repository : EventRepository) : Prop :=
  ∀ listed : List EventRow, listed.Nodup →
    (∀ row, row ∈ listed ↔ row ∈ db.event ∧ row.key.identity = identity ∧ ¬HoldsRow P repository row) →
    listed.Pairwise (fun a b => b.key.sequence ≤ a.key.sequence) →
    ∀ i j a b, listed[i]? = some a → listed[j]? = some b → rowStream a = rowStream b →
      i / 200 = j / 200

section Answers

variable (hydrate : Hydrate) (db : Database) (identity : String)
  (order : List EventRow → List EventRow) (client : LocalClient)

/-- The rows of the answer to a partial pull. -/
def listedRows : List EventRow :=
  (order (db.event.filter (ListEventsFilters.admits
    ⟨none, some identity, none, none, none, client.events.heads identity⟩))).take 200

/-- What is gathered for the rows of the answer. -/
def gathered : ListEventsHydration :=
  hydrate ((listedRows db identity order client).map fun row => (row, rowContent db row))

def listedBundle (row : EventRow) : EventBundle :=
  assembleBundle (gathered hydrate db identity order client) (row, rowContent db row)

/-- The core once it has copied what the answer brings: the hints, and the rows. -/
def coreAfter : PolycentricClient :=
  (client.core.copyBundles P ((gathered hydrate db identity order client).eventHints.filterMap
    EventHint.eventBundle)).copyBundles P
      ((listedRows db identity order client).map (listedBundle hydrate db identity order client))

/-- The client finds the event of a listed row valid. -/
def accepts (row : EventRow) : Bool :=
  isValidated P (coreAfter P hydrate db identity order client)
    (listedBundle hydrate db identity order client row)

/-- The rows of the answer that the client saves. -/
def keptRows : List EventRow :=
  (listedRows db identity order client).filter (accepts P hydrate db identity order client)

/-- The client accepts something of an answer that is not empty, and together with an
event all missing events of its stream with a lower sequence. -/
structure KeepsStreams : Prop where
  some : listedRows db identity order client ≠ [] →
    ∃ row ∈ listedRows db identity order client, accepts P hydrate db identity order client row = true
  below : ∀ head ∈ listedRows db identity order client,
    accepts P hydrate db identity order client head = true →
    ∀ row ∈ db.event, row.key.identity = identity → ¬HoldsRow P client.events row →
      rowStream head = rowStream row → row.key.sequence ≤ head.key.sequence →
      row ∈ listedRows db identity order client ∧ accepts P hydrate db identity order client row = true

/-- The client accepts the whole answer. -/
def AcceptsAll : Prop :=
  ∀ row ∈ listedRows db identity order client, accepts P hydrate db identity order client row = true

end Answers

section Keys

variable {P} {db : Database} {identity : String} {repository : EventRepository} {row : EventRow}

theorem toInt_toInt64 {x : UInt64} (h : x.toNat < 2 ^ 63) : x.toInt64.toInt = x.toNat := by
  show x.toBitVec.toInt = _
  rw [BitVec.toInt_eq_toNat_of_lt]
  · rfl
  · show 2 * x.toNat < 2 ^ 64
    omega

/-- Below the half of the range the comparison of the table is the one of the events. -/
theorem toInt64_le_iff {a b : UInt64} (ha : a.toNat < 2 ^ 63) (hb : b.toNat < 2 ^ 63) :
    a.toInt64 ≤ b.toInt64 ↔ a ≤ b := by
  rw [Int64.le_iff_toInt_le, toInt_toInt64 ha, toInt_toInt64 hb, UInt64.le_iff_toNat_le]
  exact Int.ofNat_le

/-- Rows are told apart by their keys. -/
theorem Serves.eq_of_key (h : Serves P db) {other : EventRow} (hRow : row ∈ db.event)
    (hOther : other ∈ db.event) (hKey : row.key = other.key) : row = other :=
  List.inj_on_of_nodup_map h.keys hRow hOther hKey

/-- The rows of a serving database are told apart by their keys. -/
theorem Serves.eq_of_rowKey (h : Serves P db) {other : EventRow} (hRow : row ∈ db.event)
    (hOther : other ∈ db.event) (hKey : rowKey P row = rowKey P other) : row = other := by
  obtain ⟨key, signedBy, hRowKey, hSigner, hColumns⟩ := h.rows row hRow
  obtain ⟨key', signedBy', hRowKey', hSigner', hColumns'⟩ := h.rows other hOther
  rw [hRowKey, hRowKey', Option.some_inj] at hKey
  subst hKey
  rw [hSigner, Option.some_inj] at hSigner'
  subst hSigner'
  exact h.eq_of_key hRow hOther (hColumns.trans hColumns'.symm)

theorem HoldsSubset.holdsRow_iff (h : HoldsSubset P db repository) :
    HoldsRow P repository row ↔ ∃ key, rowKey P row = some key ∧ (key, rowSigned row) ∈ repository := by
  unfold HoldsRow EventRepository.getByEventKey
  simp only [lookup_eq_some_iff_mem h.keys]

/-- A key in the storage is that of a held row. -/
theorem HoldsSubset.holdsRow (h : HoldsSubset P db repository) (hServes : Serves P db)
    (hRow : row ∈ db.event) {key : Proto.EventKey} {signed : SignedEvent}
    (hKey : rowKey P row = some key) (hEntry : (key, signed) ∈ repository) :
    HoldsRow P repository row := by
  obtain ⟨other, hOther, hOtherKey, hSigned⟩ := h.rows _ hEntry
  have hSame : other = row := hServes.eq_of_rowKey hOther hRow (hOtherKey.trans hKey.symm)
  rw [h.holdsRow_iff]
  refine ⟨key, hKey, ?_⟩
  rw [← hSame, hSigned]
  exact hEntry

end Keys

/-! ### Paging by heads -/

instance (repository : EventRepository) (row : EventRow) : Decidable (HoldsRow P repository row) :=
  match hKey : rowKey P row with
  | none => isFalse (by simp [HoldsRow, hKey])
  | some key => decidable_of_iff (repository.getByEventKey key = some (rowSigned row))
      (by simp [HoldsRow, hKey])

/-- The rows of an identity, as items that are fetched in pages. -/
def servedRows {P : Primitives} {db : Database} (h : Serves P db) (identity : String) :
    HeadPaging.Server EventRow (Int16 × Int16 × Bytes) where
  items := db.event.filter fun row => row.key.identity = identity
  nodup := (List.Nodup.of_map EventRow.key h.keys).filter _
  stream := rowStream
  rank := fun row => row.key.sequence.toInt

/-- The rows of an identity that the storage holds. -/
def heldRows (db : Database) (identity : String) (repository : EventRepository) : Finset EventRow :=
  (db.event.filter fun row => row.key.identity = identity ∧ HoldsRow P repository row).toFinset

section Paging

variable {P} {db : Database} {identity : String} {repository : EventRepository} {row : EventRow}

/-- The rows of an identity that a client holds. -/
theorem mem_heldRows : row ∈ heldRows P db identity repository ↔
    row ∈ db.event ∧ row.key.identity = identity ∧ HoldsRow P repository row := by
  simp [heldRows]

/-- The stream of a key, in columns. -/
def keyStream (key : Proto.EventKey) (signedBy : PublicKey) : Int16 × Int16 × Bytes :=
  (key.collection.toInt16, signedBy.keyType.toInt16, signedBy.key)

/-- A head passes over the rows of its stream that are not above it. -/
theorem passesHead_iff {head : Proto.EventKey} {signedBy : PublicKey}
    (hSigner : head.signedBy = some signedBy) : passesHead row head = true ↔
      (head.identity = row.key.identity → keyStream head signedBy = rowStream row →
        head.sequence.toInt64 < row.key.sequence) := by
  simp only [passesHead, hSigner, Bool.or_eq_true, bne_iff_ne, ne_eq, decide_eq_true_eq, keyStream,
    rowStream, Prod.mk.injEq, eq_comm (a := head.identity), eq_comm (a := head.collection.toInt16),
    eq_comm (a := signedBy.keyType.toInt16), eq_comm (a := signedBy.key)]
  tauto

/-- The greatest sequence of a stream is among the heads. -/
theorem exists_head {entry : Proto.EventKey × SignedEvent} (hEntry : entry ∈ repository) :
    ∃ head ∈ repository.heads entry.1.identity, head.collection = entry.1.collection ∧
      head.signedBy = entry.1.signedBy ∧ entry.1.sequence ≤ head.sequence := by
  let stream := repository.toFinset.filter fun other => other.1.identity = entry.1.identity ∧
    other.1.collection = entry.1.collection ∧ other.1.signedBy = entry.1.signedBy
  have hOwn : entry ∈ stream := by simp [stream, hEntry]
  obtain ⟨greatest, hGreatest, hMax⟩ :=
    stream.exists_max_image (fun other => other.1.sequence.toNat) ⟨entry, hOwn⟩
  obtain ⟨hMem, hIdentity, hCollection, hSigner⟩ : greatest ∈ repository ∧
      greatest.1.identity = entry.1.identity ∧ greatest.1.collection = entry.1.collection ∧
        greatest.1.signedBy = entry.1.signedBy := by
    simpa [stream] using hGreatest
  refine ⟨greatest.1, ?_, hCollection, hSigner, UInt64.le_iff_toNat_le.mpr (hMax entry hOwn)⟩
  unfold EventRepository.heads
  rw [List.mem_filter, decide_eq_true_eq]
  refine ⟨List.mem_map.mpr ⟨greatest, hMem, rfl⟩, hIdentity, ?_⟩
  intro other hOther hOtherIdentity hOtherCollection hOtherSigner
  apply UInt64.le_iff_toNat_le.mpr
  apply hMax
  simp [stream, hOther, hOtherIdentity, hOtherCollection.trans hCollection,
    hOtherSigner.trans hSigner]

/-- The heads admit the rows above everything that is held of their stream. -/
theorem passesHeads_iff (hServes : Serves P db) (hNarrow : ServesNarrow P db)
    (hSubset : HoldsSubset P db repository) (hIdentity : row.key.identity = identity) :
    (∀ head ∈ repository.heads identity, passesHead row head = true) ↔
      ∀ head ∈ heldRows P db identity repository, rowStream head = rowStream row →
        head.key.sequence < row.key.sequence := by
  constructor
  · intro hPasses headRow hHeadRow hStream
    obtain ⟨hStored, hHeadIdentity, hHolds⟩ := mem_heldRows.mp hHeadRow
    obtain ⟨key, signedBy, hKey, hSigner, hColumns⟩ := hServes.rows headRow hStored
    obtain ⟨key', hKey', hEntry⟩ := hSubset.holdsRow_iff.mp hHolds
    obtain rfl : key = key' := Option.some.inj (hKey.symm.trans hKey')
    have hKeyIdentity : key.identity = identity := by
      rw [← hHeadIdentity, hColumns]
      rfl
    obtain ⟨head, hHead, hHeadCollection, hHeadSigner, hLe⟩ := exists_head hEntry
    rw [hKeyIdentity] at hHead
    -- The head of the stream is a row of the server, too.
    obtain ⟨hHeadMem, hHeadIs, -⟩ : head ∈ repository.map Prod.fst ∧ head.identity = identity ∧ _ := by
      simpa [EventRepository.heads] using hHead
    obtain ⟨headEntry, hHeadEntry, rfl⟩ := List.mem_map.mp hHeadMem
    obtain ⟨other, hOther, hOtherKey, -⟩ := hSubset.rows headEntry hHeadEntry
    rw [hSigner] at hHeadSigner
    have hFits := hNarrow headRow hStored key signedBy hKey hSigner
    have hHeadFits := hNarrow other hOther headEntry.1 signedBy hOtherKey hHeadSigner
    have hAbove : headEntry.1.sequence.toInt64 < row.key.sequence := by
      apply (passesHead_iff hHeadSigner).mp (hPasses _ hHead)
      · rw [hHeadIs, hIdentity]
      · rw [← hStream, keyStream, hHeadCollection, rowStream, hColumns]
        rfl
    have hSequence : headRow.key.sequence = key.sequence.toInt64 := by
      rw [hColumns]
      rfl
    rw [hSequence]
    exact Int64.lt_of_le_of_lt ((toInt64_le_iff hFits.sequence hHeadFits.sequence).mpr hLe) hAbove
  · intro hAbove head hHead
    obtain ⟨hHeadMem, hHeadIs, -⟩ : head ∈ repository.map Prod.fst ∧ head.identity = identity ∧ _ := by
      simpa [EventRepository.heads] using hHead
    obtain ⟨entry, hEntry, rfl⟩ := List.mem_map.mp hHeadMem
    obtain ⟨headRow, hStored, hKey, hSigned⟩ := hSubset.rows entry hEntry
    obtain ⟨key, signedBy, hKey', hSigner, hColumns⟩ := hServes.rows headRow hStored
    obtain rfl : entry.1 = key := Option.some.inj (hKey.symm.trans hKey')
    rw [passesHead_iff hSigner]
    intro _ hStream
    have hHolds : HoldsRow P repository headRow := hSubset.holdsRow hServes hStored hKey hEntry
    have hHeld : headRow ∈ heldRows P db identity repository := by
      refine mem_heldRows.mpr ⟨hStored, ?_, hHolds⟩
      rw [hColumns]
      exact hHeadIs
    have hLess := hAbove headRow hHeld (by rw [← hStream, rowStream, hColumns]; rfl)
    rw [hColumns] at hLess
    exact hLess

/-- What the server selects is what is beyond the held rows. -/
theorem filter_admits_eq (hServes : Serves P db) (hNarrow : ServesNarrow P db)
    (hSubset : HoldsSubset P db repository) :
    db.event.filter (ListEventsFilters.admits
      ⟨none, some identity, none, none, none, repository.heads identity⟩) =
      (servedRows hServes identity).beyond (heldRows P db identity repository) := by
  unfold HeadPaging.Server.beyond servedRows
  rw [List.filter_filter]
  apply List.filter_congr
  intro row _
  by_cases hIdentity : row.key.identity = identity
  · have hPasses := passesHeads_iff hServes hNarrow hSubset hIdentity
    simp only [ListEventsFilters.admits, Option.all_none, Option.all_some, hIdentity,
      beq_self_eq_true, Bool.true_and, decide_true, Bool.and_true]
    rw [Bool.eq_iff_iff, List.all_eq_true, hPasses, decide_eq_true_eq]
    simp only [Int64.lt_iff_toInt_lt]
  · simp [ListEventsFilters.admits, hIdentity]

/-! ### Saving a page -/

/-- A row that is not held is saved. -/
theorem trySaveBundle_row (hServes : Serves P db) (hSubset : HoldsSubset P db repository)
    (hRow : row ∈ db.event) (hNew : ¬HoldsRow P repository row) {bundle : EventBundle}
    (hBundle : bundle.signedEvent = some (rowSigned row)) :
    ∃ key, rowKey P row = some key ∧ key ∉ repository.map Prod.fst ∧
      trySaveBundle P repository bundle = (true, repository ++ [(key, rowSigned row)]) := by
  obtain ⟨key, signedBy, hKey, hSigner, -⟩ := hServes.rows row hRow
  obtain ⟨hSignature, hBytes⟩ := hServes.signed row hRow
  have hAbsent : ∀ signed, (key, signed) ∉ repository := by
    intro signed hEntry
    exact hNew (hSubset.holdsRow hServes hRow hKey hEntry)
  have hLookup : repository.getByEventKey key = none := by
    rw [Option.eq_none_iff_forall_ne_some]
    intro signed hStored
    exact hAbsent signed ((lookup_eq_some_iff_mem hSubset.keys).mp hStored)
  have hSave : repository.save key (rowSigned row) = .ok (repository ++ [(key, rowSigned row)]) := by
    have hSet : repository.set key (rowSigned row) = repository ++ [(key, rowSigned row)] := by
      unfold EventRepository.set
      rw [if_neg]
      simpa using hAbsent
    unfold EventRepository.save
    rw [hSet]
    simp only [rowSigned, List.isEmpty_eq_false_iff.mpr hSignature,
      List.isEmpty_eq_false_iff.mpr hBytes]
    rfl
  obtain ⟨event, hEvent, hEventKey⟩ : ∃ event, P.decodeEvent row.eventBytes = .ok event ∧
      event.key = some key := by
    simpa [rowKey, Option.bind_eq_some_iff, toOption_eq_some_iff] using hKey
  refine ⟨key, hKey, by simpa using hAbsent, ?_⟩
  unfold rowSigned at hSave hBundle
  simp [trySaveBundle, hBundle, hEvent, hEventKey, hSigner, hLookup, hSave, rowSigned]

/-- A client that stores a row under its own key holds what the server has. -/
theorem HoldsSubset.append (h : HoldsSubset P db repository) (hRow : row ∈ db.event)
    {key : Proto.EventKey} (hKey : rowKey P row = some key) (hNew : key ∉ repository.map Prod.fst) :
    HoldsSubset P db (repository ++ [(key, rowSigned row)]) where
  keys := by
    rw [List.map_append, List.nodup_append_comm]
    exact List.nodup_cons.mpr ⟨hNew, h.keys⟩
  rows := by
    intro entry hEntry
    rcases List.mem_append.mp hEntry with hOld | hLast
    · exact h.rows entry hOld
    · obtain rfl := List.mem_singleton.mp hLast
      exact ⟨row, hRow, hKey, rfl⟩

/-- Storing a row stores that row and no other. -/
theorem holdsRow_append (hServes : Serves P db) (hSubset : HoldsSubset P db repository)
    {key : Proto.EventKey} {other : EventRow} (hRow : row ∈ db.event) (hOther : other ∈ db.event)
    (hKey : rowKey P row = some key) (hNew : key ∉ repository.map Prod.fst) :
    HoldsRow P (repository ++ [(key, rowSigned row)]) other ↔
      HoldsRow P repository other ∨ other = row := by
  rw [(hSubset.append hRow hKey hNew).holdsRow_iff, hSubset.holdsRow_iff]
  simp only [List.mem_append, List.mem_singleton, Prod.mk.injEq, and_or_left, exists_or]
  apply or_congr_right
  constructor
  · rintro ⟨_, hOtherKey, rfl, -⟩
    exact hServes.eq_of_rowKey hOther hRow (hOtherKey.trans hKey.symm)
  · rintro rfl
    exact ⟨key, hKey, rfl, rfl⟩

/-- Saving distinct rows that are not held saves them all. -/
theorem saveBundles_rows (hServes : Serves P db) {page : List EventRow}
    {bundle : EventRow → EventBundle} (hBundle : ∀ row, (bundle row).signedEvent = some (rowSigned row))
    (hSubset : HoldsSubset P db repository) (hNodup : page.Nodup)
    (hPage : ∀ row ∈ page, row ∈ db.event ∧ ¬HoldsRow P repository row) (count : ℕ) :
    ∃ repository', (page.map bundle).foldl
        (fun saved bundle => ((if (trySaveBundle P saved.2 bundle).1 then saved.1 + 1 else saved.1),
          (trySaveBundle P saved.2 bundle).2)) (count, repository) =
        (count + page.length, repository') ∧
      HoldsSubset P db repository' ∧
      ∀ other ∈ db.event, HoldsRow P repository' other ↔ HoldsRow P repository other ∨ other ∈ page := by
  induction page generalizing repository count with
  | nil => exact ⟨repository, rfl, hSubset, by simp⟩
  | cons row rest ih =>
      obtain ⟨hRow, hNew⟩ := hPage row List.mem_cons_self
      obtain ⟨hFirst, hRest⟩ := List.nodup_cons.mp hNodup
      obtain ⟨key, hKey, hAbsent, hSaved⟩ := trySaveBundle_row hServes hSubset hRow hNew (hBundle row)
      have hHolds : ∀ other ∈ db.event, HoldsRow P (repository ++ [(key, rowSigned row)]) other ↔
          HoldsRow P repository other ∨ other = row :=
        fun other hOther => holdsRow_append hServes hSubset hRow hOther hKey hAbsent
      obtain ⟨repository', hFold, hSubset', hHolds'⟩ :=
        ih (hSubset.append hRow hKey hAbsent) hRest (by
          intro other hOther
          obtain ⟨hStored, hUnheld⟩ := hPage other (List.mem_cons_of_mem _ hOther)
          refine ⟨hStored, ?_⟩
          rw [hHolds other hStored, not_or]
          exact ⟨hUnheld, fun hSame => hFirst (hSame ▸ hOther)⟩) (count + 1)
      refine ⟨repository', ?_, hSubset', ?_⟩
      · rw [List.map_cons, List.foldl_cons, hSaved, List.length_cons]
        simp only [if_true]
        rw [hFold]
        congr 1
        omega
      · intro other hOther
        rw [hHolds' other hOther, hHolds other hOther, List.mem_cons, or_assoc]

/-! ### Pulling is paging by heads -/

variable {hydrate : Hydrate} {order : List EventRow → List EventRow} {orders : ℕ → List EventRow → List EventRow}
  {client : LocalClient}

/-- The server is asked by the heads of the client, and answers with its first page. -/
theorem handleListEvents_heads :
    handleListEvents order hydrate db none
        ⟨none, some identity, none, none, none, client.events.heads identity⟩ =
      ⟨(listedRows db identity order client).map (listedBundle hydrate db identity order client),
        (gathered hydrate db identity order client).eventHints⟩ := by
  have hSize : (min ((none : Option Int32).getD 200) 200).toInt64.toUInt64.toNat = 200 := by decide
  unfold handleListEvents Database.listEvents
  rw [hSize]
  dsimp only
  rw [if_neg (lt_irrefl 200), List.map_map]
  rfl

/-- A pull stores what the client lists of the answer. -/
theorem pullOnce_core :
    (pullOnce P hydrate db identity order client).2.core = coreAfter P hydrate db identity order client := by
  unfold pullOnce pull
  dsimp only
  rw [if_pos rfl, handleListEvents_heads]
  rfl

/-- The order of the query lists the streams from their ends. -/
theorem SortsDescending.lists (h : SortsDescending order) (hServes : Serves P db) :
    (servedRows hServes identity).Lists order where
  perm := h.perm
  descending := by
    intro rows
    refine (h.descending rows).imp ?_
    intro a b hLe
    exact Int64.le_iff_toInt_le.mp hLe

/-- Rows of the server have different dedup keys. -/
theorem nodup_dedupKeys (hServes : Serves P db) {page : List EventRow} (hNodup : page.Nodup)
    (hPage : ∀ row ∈ page, row ∈ db.event) {bundle : EventRow → EventBundle}
    (hBundle : ∀ row, (bundle row).signedEvent = some (rowSigned row)) :
    ((page.map bundle).filterMap (eventDedupKey P)).Nodup := by
  have hKey : ∀ row, eventDedupKey P (bundle row) = (rowKey P row).bind fun key =>
      key.signedBy.map fun signedBy =>
        (key.collection, key.identity, signedBy.keyType, signedBy.key, key.sequence) := by
    intro row
    unfold eventDedupKey decodeEvent rowKey dedupKey
    rw [hBundle]
    simp [rowSigned, Option.bind_assoc, Option.map_eq_bind]
  rw [List.filterMap_map, List.Nodup, List.pairwise_filterMap]
  refine hNodup.imp_of_mem ?_
  intro row other hRow hOther hNe k hk k' hk' hSame
  simp only [Function.comp_apply, hKey] at hk hk'
  obtain ⟨key, signedBy, hRowKey, hSigner, -⟩ := hServes.rows row (hPage row hRow)
  obtain ⟨key', signedBy', hRowKey', hSigner', -⟩ := hServes.rows other (hPage other hOther)
  simp only [hRowKey, hSigner, Option.bind_some, Option.map_some, Option.some.injEq] at hk
  simp only [hRowKey', hSigner', Option.bind_some, Option.map_some, Option.some.injEq] at hk'
  rw [hSame, ← hk'] at hk
  simp only [Prod.mk.injEq] at hk
  obtain ⟨hCollection, hIdentity, hType, hBytes, hSequence⟩ := hk
  have hSignedBy : signedBy = signedBy' := by
    cases signedBy
    cases signedBy'
    simp_all
  have hKeys : key = key' := by
    cases key
    cases key'
    simp_all
  exact hNe (hServes.eq_of_rowKey (hPage row hRow) (hPage other hOther)
    (hRowKey.trans (hKeys ▸ hRowKey'.symm)))

theorem mem_servedRows (hServes : Serves P db) :
    row ∈ (servedRows hServes identity).items ↔ row ∈ db.event ∧ row.key.identity = identity := by
  simp [servedRows]

/-- The answer is the first page of what lies beyond the heads. -/
theorem listedRows_eq (hServes : Serves P db) (hNarrow : ServesNarrow P db)
    (hSubset : HoldsSubset P db client.events) :
    listedRows db identity order client =
      (order ((servedRows hServes identity).beyond (heldRows P db identity client.events))).take 200 := by
  unfold listedRows
  rw [filter_admits_eq hServes hNarrow hSubset]

/-- Only what lies beyond the heads is listed. -/
theorem listedRows_subset (hServes : Serves P db) (hNarrow : ServesNarrow P db)
    (hSubset : HoldsSubset P db client.events) (hOrder : SortsDescending order) :
    listedRows db identity order client ⊆
      (servedRows hServes identity).beyond (heldRows P db identity client.events) := by
  intro row hRow
  rw [listedRows_eq hServes hNarrow hSubset] at hRow
  have hLists : (servedRows hServes identity).Lists order := hOrder.lists hServes
  exact hLists.page_subset hRow

/-- No row is listed twice. -/
theorem nodup_listedRows (hServes : Serves P db) (hNarrow : ServesNarrow P db)
    (hSubset : HoldsSubset P db client.events) (hOrder : SortsDescending order) :
    (listedRows db identity order client).Nodup := by
  have hAll : ((servedRows hServes identity).beyond (heldRows P db identity client.events)).Nodup :=
    (servedRows hServes identity).nodup.filter _
  rw [listedRows_eq hServes hNarrow hSubset]
  exact ((hOrder.perm _).nodup_iff.mpr hAll).sublist (List.take_sublist _ _)

/-- Every row of the answer is one of the identity that the client does not hold yet. -/
theorem of_mem_listedRows (hServes : Serves P db) (hNarrow : ServesNarrow P db)
    (hSubset : HoldsSubset P db client.events) (hOrder : SortsDescending order)
    (hRow : row ∈ listedRows db identity order client) :
    row ∈ db.event ∧ row.key.identity = identity ∧ ¬HoldsRow P client.events row := by
  have hBeyond := listedRows_subset hServes hNarrow hSubset hOrder hRow
  obtain ⟨hEvent, hIdentity⟩ :=
    (mem_servedRows hServes).mp (HeadPaging.Server.mem_beyond.mp hBeyond).1
  refine ⟨hEvent, hIdentity, ?_⟩
  intro hHolds
  exact HeadPaging.Server.notMem_of_mem_beyond hBeyond (mem_heldRows.mpr ⟨hEvent, hIdentity, hHolds⟩)

/-- What the core makes of the answer is the bundles of the rows that the client accepts. -/
theorem listEvents_listed (hydrate : Hydrate) (hServes : Serves P db) (hNarrow : ServesNarrow P db)
    (hSubset : HoldsSubset P db client.events) (hOrder : SortsDescending order) :
    (listEvents P client.core (handleListEvents order hydrate db none
      ⟨none, some identity, none, none, none, client.events.heads identity⟩)).1 =
        (keptRows P hydrate db identity order client).map (listedBundle hydrate db identity order client) := by
  have hStored : ∀ row ∈ listedRows db identity order client, row ∈ db.event :=
    fun row hRow => (of_mem_listedRows hServes hNarrow hSubset hOrder hRow).1
  have hSigned : ∀ row, (listedBundle hydrate db identity order client row).signedEvent =
      some (rowSigned row) := fun _ => rfl
  have hDistinct := nodup_dedupKeys hServes (nodup_listedRows hServes hNarrow hSubset hOrder) hStored hSigned
  rw [handleListEvents_heads]
  unfold listEvents
  dsimp only
  rw [mergeEventBundles, mergeByKey_of_nodup hDistinct, retainValidatedBundles, List.filter_map]
  rfl

/-- A pull fetches one page and keeps what the client accepts of it. -/
theorem pullOnce_spec (hydrate : Hydrate) (identity : String) (hServes : Serves P db) (hNarrow : ServesNarrow P db)
    (hSubset : HoldsSubset P db client.events) (hOrder : SortsDescending order) :
    let page := listedRows db identity order client
    let kept := keptRows P hydrate db identity order client
    let after := pullOnce P hydrate db identity order client
    page = (order ((servedRows hServes identity).beyond (heldRows P db identity client.events))).take 200 ∧
      HoldsSubset P db after.2.events ∧ after.1 = kept.length ∧
      (servedRows hServes identity).Keeps (heldRows P db identity client.events) page kept
        (heldRows P db identity after.2.events) := by
  intro page kept after
  have hPage : page = _ := listedRows_eq hServes hNarrow hSubset
  have hItem : ∀ row ∈ kept, row ∈ db.event ∧ row.key.identity = identity ∧ ¬HoldsRow P client.events row :=
    fun row hRow => of_mem_listedRows hServes hNarrow hSubset hOrder (List.mem_filter.mp hRow).1
  have hNodup : kept.Nodup := (nodup_listedRows hServes hNarrow hSubset hOrder).filter _
  have hSigned : ∀ row, (listedBundle hydrate db identity order client row).signedEvent =
      some (rowSigned row) := fun _ => rfl
  obtain ⟨repository', hSaved, hSubset', hHolds⟩ := saveBundles_rows hServes hSigned hSubset hNodup
    (fun row hRow => ⟨(hItem row hRow).1, (hItem row hRow).2.2⟩) 0
  rw [Nat.zero_add] at hSaved
  have hEvents : after.1 = kept.length ∧ after.2.events = repository' := by
    have hPull : saveBundles P (kept.map (listedBundle hydrate db identity order client)) client.events =
        (kept.length, repository') := hSaved
    unfold after pullOnce pull
    dsimp only
    rw [if_pos rfl, listEvents_listed hydrate hServes hNarrow hSubset hOrder, hPull]
    exact ⟨rfl, rfl⟩
  refine ⟨hPage, hEvents.2 ▸ hSubset', hEvents.1, ?_⟩
  constructor
  case asked => exact listedRows_subset hServes hNarrow hSubset hOrder
  case ended =>
    intro hNil
    rw [hPage, List.take_eq_nil_iff] at hNil
    have hPerm := hOrder.perm ((servedRows hServes identity).beyond (heldRows P db identity client.events))
    rw [hNil.resolve_left (by norm_num)] at hPerm
    exact hPerm.nil_eq.symm
  case part => exact List.filter_subset_self _
  case union =>
    rw [hEvents.2]
    ext row
    rw [mem_heldRows, Finset.mem_union, List.mem_toFinset, mem_heldRows]
    constructor
    · rintro ⟨hRow, hIdentity, hRowHeld⟩
      rcases (hHolds row hRow).mp hRowHeld with hOld | hNew
      · exact Or.inl ⟨hRow, hIdentity, hOld⟩
      · exact Or.inr hNew
    · rintro (⟨hRow, hIdentity, hOld⟩ | hNew)
      · exact ⟨hRow, hIdentity, (hHolds row hRow).mpr (Or.inl hOld)⟩
      · obtain ⟨hRow, hIdentity, -⟩ := hItem row hNew
        exact ⟨hRow, hIdentity, (hHolds row hRow).mpr (Or.inr hNew)⟩

/-- After every pull the client holds only rows of the server. -/
theorem pulls_holdsSubset (hydrate : Hydrate) (identity : String) (hServes : Serves P db) (hNarrow : ServesNarrow P db)
    (hSubset : HoldsSubset P db client.events) (hOrders : ∀ n, SortsDescending (orders n)) (n : ℕ) :
    HoldsSubset P db (pulls P hydrate db identity orders n client).events := by
  induction n with
  | zero => exact hSubset
  | succ n ih => exact (pullOnce_spec hydrate identity hServes hNarrow ih (hOrders n)).2.1

/-- The pages and what is kept of them. -/
theorem pulls_keeps (hydrate : Hydrate) (identity : String) (hServes : Serves P db) (hNarrow : ServesNarrow P db)
    (hSubset : HoldsSubset P db client.events) (hOrders : ∀ n, SortsDescending (orders n)) (n : ℕ) :
    let before := pulls P hydrate db identity orders n client
    (servedRows hServes identity).Keeps (heldRows P db identity before.events)
      (listedRows db identity (orders n) before) (keptRows P hydrate db identity (orders n) before)
      (heldRows P db identity (pulls P hydrate db identity orders (n + 1) client).events) :=
  (pullOnce_spec hydrate identity hServes hNarrow (pulls_holdsSubset hydrate identity hServes hNarrow hSubset hOrders n) (hOrders n)).2.2.2

/-- Pulling ends with everything exactly if the rounds of the reader do. -/
theorem pullsEverything_iff_kept (hServes : Serves P db) (hNarrow : ServesNarrow P db)
    (hSubset : HoldsSubset P db client.events) (hOrders : ∀ n, SortsDescending (orders n)) :
    PullsEverything P hydrate db identity orders client ↔
      (∃ n, keptRows P hydrate db identity (orders n) (pulls P hydrate db identity orders n client) = []) ∧
        ∀ n, keptRows P hydrate db identity (orders n) (pulls P hydrate db identity orders n client) = [] →
          ∀ row ∈ (servedRows hServes identity).items,
            row ∈ heldRows P db identity (pulls P hydrate db identity orders n client).events := by
  have hZero : ∀ n, (pullOnce P hydrate db identity (orders n)
      (pulls P hydrate db identity orders n client)).1 = 0 ↔
        keptRows P hydrate db identity (orders n) (pulls P hydrate db identity orders n client) = [] := by
    intro n
    have hCount := (pullOnce_spec hydrate identity hServes hNarrow
      (pulls_holdsSubset hydrate identity hServes hNarrow hSubset hOrders n)
      (hOrders n)).2.2.1
    rw [hCount, List.length_eq_zero_iff]
  unfold PullsEverything
  simp only [hZero, mem_servedRows, mem_heldRows]
  apply and_congr_right
  intro _
  apply forall_congr'
  intro n
  apply imp_congr_right
  intro _
  constructor
  · rintro h row ⟨hRow, hIdentity⟩
    exact ⟨hRow, hIdentity, h row hRow hIdentity⟩
  · intro h row hRow hIdentity
    exact (h row ⟨hRow, hIdentity⟩).2.2

/-- A round keeps its streams. -/
theorem keepsStreams_iff (hServes : Serves P db) :
    KeepsStreams P hydrate db identity order client ↔
      (servedRows hServes identity).KeepsStreams (heldRows P db identity client.events)
        (listedRows db identity order client) (keptRows P hydrate db identity order client) := by
  have hSome : keptRows P hydrate db identity order client ≠ [] ↔
      ∃ row ∈ listedRows db identity order client,
        accepts P hydrate db identity order client row = true := by
    rw [keptRows, ne_eq, List.filter_eq_nil_iff]
    push Not
    rfl
  have hMissing : ∀ row, row ∈ db.event → row.key.identity = identity →
      (row ∉ heldRows P db identity client.events ↔ ¬HoldsRow P client.events row) := by
    intro row hRow hIdentity
    rw [mem_heldRows]
    tauto
  constructor
  · intro h
    constructor
    case some => exact fun hPage => hSome.mpr (h.some hPage)
    case below =>
      intro head hHead row hRow hNot hStream hRank
      obtain ⟨hStored, hIdentity⟩ := (mem_servedRows hServes).mp hRow
      obtain ⟨hListed, hAccepted⟩ := List.mem_filter.mp hHead
      exact List.mem_filter.mpr (h.below head hListed hAccepted row hStored hIdentity
        ((hMissing row hStored hIdentity).mp hNot) hStream (Int64.le_iff_toInt_le.mpr hRank))
  · intro h
    constructor
    case some => exact fun hPage => hSome.mp (h.some hPage)
    case below =>
      intro head hListed hAccepted row hStored hIdentity hNot hStream hSequence
      exact List.mem_filter.mp (h.below head (List.mem_filter.mpr ⟨hListed, hAccepted⟩) row
        ((mem_servedRows hServes).mpr ⟨hStored, hIdentity⟩)
        ((hMissing row hStored hIdentity).mpr hNot) hStream (Int64.le_iff_toInt_le.mp hSequence))

/-- A client that accepts whole answers holds page after page. -/
theorem heldRows_pulls (hServes : Serves P db) (hNarrow : ServesNarrow P db)
    (hSubset : HoldsSubset P db client.events) (hOrders : ∀ n, SortsDescending (orders n))
    (hAll : ∀ n, AcceptsAll P hydrate db identity (orders n) (pulls P hydrate db identity orders n client))
    (n : ℕ) : heldRows P db identity (pulls P hydrate db identity orders n client).events =
      (servedRows hServes identity).rounds 200 orders n (heldRows P db identity client.events) := by
  induction n with
  | zero => rfl
  | succ n ih =>
      have hBefore := pulls_holdsSubset hydrate identity hServes hNarrow
        hSubset hOrders n
      obtain ⟨hPage, -, -, hKeeps⟩ := pullOnce_spec hydrate identity hServes
        hNarrow hBefore (hOrders n)
      have hHeld := hKeeps.union
      rw [keptRows, List.filter_eq_self.mpr (hAll n), hPage, ih] at hHeld
      rw [HeadPaging.Server.rounds_last]
      exact hHeld

/-- Where every page is accepted, pulls go on until everything is held just when the rounds do. -/
theorem pullsEverything_iff (hServes : Serves P db) (hNarrow : ServesNarrow P db)
    (hSubset : HoldsSubset P db client.events) (hOrders : ∀ n, SortsDescending (orders n))
    (hAll : ∀ n, AcceptsAll P hydrate db identity (orders n) (pulls P hydrate db identity orders n client)) :
    PullsEverything P hydrate db identity orders client ↔
      (servedRows hServes identity).Completes 200 orders (heldRows P db identity client.events) := by
  rw [pullsEverything_iff_kept hServes hNarrow hSubset hOrders]
  have hSettled : ∀ n,
      keptRows P hydrate db identity (orders n) (pulls P hydrate db identity orders n client) = [] ↔
        (servedRows hServes identity).Settled 200 orders (heldRows P db identity client.events) n := by
    intro n
    have hLists : (servedRows hServes identity).Lists (orders n) := (hOrders n).lists hServes
    have hBefore := pulls_holdsSubset hydrate identity hServes hNarrow
      hSubset hOrders n
    obtain ⟨hPage, -, -, hKeeps⟩ := pullOnce_spec hydrate identity hServes
      hNarrow hBefore (hOrders n)
    have hWhole : keptRows P hydrate db identity (orders n) (pulls P hydrate db identity orders n client) =
        listedRows db identity (orders n) (pulls P hydrate db identity orders n client) :=
      List.filter_eq_self.mpr (hAll n)
    unfold HeadPaging.Server.Settled
    rw [hWhole, ← heldRows_pulls hServes hNarrow hSubset hOrders hAll,
      HeadPaging.Server.round_eq_self_iff (by norm_num) hLists]
    refine ⟨hKeeps.ended, ?_⟩
    intro hNil
    rw [List.eq_nil_iff_forall_not_mem]
    intro row hRow
    have hBeyond := hKeeps.asked hRow
    rw [hNil] at hBeyond
    cases hBeyond
  unfold HeadPaging.Server.Completes
  simp only [hSettled, heldRows_pulls hServes hNarrow hSubset hOrders hAll]

theorem mem_missing_served (hServes : Serves P db) :
    row ∈ (servedRows hServes identity).missing (heldRows P db identity repository) ↔
      row ∈ db.event ∧ row.key.identity = identity ∧ ¬HoldsRow P repository row := by
  rw [HeadPaging.Server.mem_missing, mem_heldRows]
  simp only [servedRows, List.mem_filter, decide_eq_true_eq]
  tauto

/-- A gap of a stream is a gap of the paged server. -/
theorem noGap_iff (hServes : Serves P db) :
    NoGap P db identity repository ↔
      (servedRows hServes identity).GapFree (heldRows P db identity repository) := by
  unfold NoGap HeadPaging.Server.GapFree
  simp only [mem_heldRows, servedRows, List.mem_filter, decide_eq_true_eq, Int64.lt_iff_toInt_lt]
  constructor
  · rintro h row ⟨hRow, hIdentity⟩ hNot head ⟨hHead, hHeadIdentity, hHolds⟩
    exact h row hRow hIdentity (fun hHeld => hNot ⟨hRow, hIdentity, hHeld⟩) head hHead hHeadIdentity
      hHolds
  · intro h row hRow hIdentity hNot head hHead hHeadIdentity hHolds
    exact h row ⟨hRow, hIdentity⟩ (fun hHeld => hNot hHeld.2.2) head ⟨hHead, hHeadIdentity, hHolds⟩

/-- Pages cut no stream of the table just when they cut none of the paged server. -/
theorem pagesKeepStreams_iff (hServes : Serves P db) :
    PagesKeepStreams P db identity repository ↔
      (servedRows hServes identity).Unsplit 200 (heldRows P db identity repository) := by
  have hPerm : ∀ listed : List EventRow,
      listed.Perm ((servedRows hServes identity).missing (heldRows P db identity repository)) ↔
        listed.Nodup ∧ ∀ row, row ∈ listed ↔ row ∈ db.event ∧ row.key.identity = identity ∧
          ¬HoldsRow P repository row := by
    intro listed
    have hNodup : ((servedRows hServes identity).missing (heldRows P db identity repository)).Nodup :=
      HeadPaging.Server.nodup_missing _
    constructor
    · intro hListed
      refine ⟨hListed.nodup_iff.mpr hNodup, ?_⟩
      intro row
      rw [hListed.mem_iff, mem_missing_served]
    · rintro ⟨hListedNodup, hMem⟩
      rw [List.perm_ext_iff_of_nodup hListedNodup hNodup]
      intro row
      rw [hMem, mem_missing_served]
  have hDescending : ∀ listed : List EventRow, (servedRows hServes identity).Descending listed ↔
      listed.Pairwise fun a b => b.key.sequence ≤ a.key.sequence := by
    intro listed
    unfold HeadPaging.Server.Descending servedRows
    simp only [Int64.le_iff_toInt_le]
  unfold PagesKeepStreams HeadPaging.Server.Unsplit
  simp only [hPerm, hDescending, and_imp]
  rfl

/-- An order of the paged server is one of the query. -/
theorem Lists.sortsDescending (hServes : Serves P db)
    (h : (servedRows hServes identity).Lists order) : SortsDescending order where
  perm := h.perm
  descending := by
    intro rows
    refine (h.descending rows).imp ?_
    intro a b hLe
    exact Int64.le_iff_toInt_le.mpr hLe

/-- Pulling whole answers reaches everything in all orders if paging by heads does. -/
theorem pullsEverything_all_iff (hServes : Serves P db) (hNarrow : ServesNarrow P db)
    (hSubset : HoldsSubset P db client.events)
    (hAll : ∀ orders : ℕ → List EventRow → List EventRow, (∀ n, SortsDescending (orders n)) →
      ∀ n, AcceptsAll P hydrate db identity (orders n) (pulls P hydrate db identity orders n client)) :
    (∀ orders : ℕ → List EventRow → List EventRow, (∀ n, SortsDescending (orders n)) →
        PullsEverything P hydrate db identity orders client) ↔
      ∀ orders, (∀ n, (servedRows hServes identity).Lists (orders n)) →
        (servedRows hServes identity).Completes 200 orders (heldRows P db identity client.events) := by
  constructor
  · intro h orders hOrders
    have hSorted : ∀ n, SortsDescending (orders n) := fun n => Lists.sortsDescending hServes (hOrders n)
    exact (pullsEverything_iff hServes hNarrow hSubset hSorted (hAll orders hSorted)).mp
      (h orders hSorted)
  · intro h orders hOrders
    exact (pullsEverything_iff hServes hNarrow hSubset hOrders (hAll orders hOrders)).mpr
      (h orders fun n => (hOrders n).lists hServes)

end Paging

end Polycentric.Sync
