import Polycentric.Sync.PullRounds

/-! When repeated partial pulls reach every event of an identity, and a stream that is
one event too long for them. -/
namespace Polycentric.Sync

open Proto Client Server HeadPaging

variable (P : Primitives)

/-- Partial pulls reach everything exactly if the storage has no gap and every round keeps
its streams. A client that accepts whole answers reaches everything, however the server
sorts equal sequences, exactly if no page boundary falls inside a stream. -/
theorem partialPull_complete_iff (hydrate : Hydrate) (db : Database) (identity : String) (client : LocalClient) (hServes : Serves P db)
    (hNarrow : ServesNarrow P db) (hSubset : HoldsSubset P db client.events) :
    (∀ orders : ℕ → List EventRow → List EventRow, (∀ n, SortsDescending (orders n)) →
      (PullsEverything P hydrate db identity orders client ↔
        NoGap P db identity client.events ∧
          ∀ n, KeepsStreams P hydrate db identity (orders n)
            (pulls P hydrate db identity orders n client))) ∧
      ((∀ orders : ℕ → List EventRow → List EventRow, (∀ n, SortsDescending (orders n)) →
          ∀ n, AcceptsAll P hydrate db identity (orders n)
            (pulls P hydrate db identity orders n client)) →
        ((∀ orders : ℕ → List EventRow → List EventRow, (∀ n, SortsDescending (orders n)) →
            PullsEverything P hydrate db identity orders client) ↔
          NoGap P db identity client.events ∧ PagesKeepStreams P db identity client.events)) := by
  constructor
  · intro orders hOrders
    rw [pullsEverything_iff_kept hServes hNarrow hSubset hOrders,
      HeadPaging.Server.keeps_all_iff (pulls_keeps hydrate identity hServes hNarrow hSubset hOrders), noGap_iff hServes]
    simp only [keepsStreams_iff hServes]
    rfl
  · intro hAll
    rw [pullsEverything_all_iff hServes hNarrow hSubset hAll,
      HeadPaging.Server.completes_iff (by norm_num), ← noGap_iff hServes, ← pagesKeepStreams_iff hServes]

end Polycentric.Sync

namespace Polycentric.TableInstance

open Proto Result Client Server Sync

/-! Alice's identity event and one stream of her posts. Two bytes are a post with their
number as its sequence. -/

def streamPost (sequence : UInt64) : Event :=
  event Collections.feed aliceIdentity (key 2) sequence [0, sequence] []

def streamPrimitives : Primitives :=
  { alicePrimitives with
    decodeEvent := fun bytes =>
      match bytes with
      | [high, low] => .ok (streamPost (UInt64.ofNat (high.toNat * 256 + low.toNat)))
      | bytes => alicePrimitives.decodeEvent bytes }

def streamKey (n : ℕ) : Proto.EventKey :=
  ⟨Collections.feed, aliceIdentity, some (key 2), UInt64.ofNat n⟩

def streamBytes (n : ℕ) : Bytes := [UInt8.ofNat (n / 256), UInt8.ofNat n]

def streamRow (n : ℕ) : EventRow where
  id := n
  key := .of (streamKey n) (key 2)
  contentDigest := some ⟨contentDigestTypeSha256, (digest []).val⟩
  signature := sign (key 2).key (streamBytes n)
  eventBytes := streamBytes n
  createdAt := 0

def identityKey : Proto.EventKey := ⟨Collections.identity, aliceIdentity, some (key 1), 1⟩

def identityRow : EventRow where
  id := 0
  key := .of identityKey (key 1)
  contentDigest := some ⟨contentDigestTypeSha256, (digest [11]).val⟩
  signature := sign (key 1).key [1]
  eventBytes := [1]
  createdAt := 0

def streamDatabase (length : ℕ) : Database :=
  { Database.empty with
    event := identityRow :: (List.range length).map fun i => streamRow (i + 1)
    content := [⟨⟨contentDigestTypeSha256, (digest [11]).val⟩, [11]⟩] }

/-- Neither proofs nor hints, since every event of the server is listed. -/
def bareHydrate : Hydrate := fun _ => ⟨fun _ => none, fun _ => [], []⟩

/-- A client that has read Alice's identity. -/
def streamClient : LocalClient where
  core := (PolycentricClient.new.copyBundles streamPrimitives
    [rowIntoBundle (identityRow, some ⟨⟨contentDigestTypeSha256, (digest [11]).val⟩, [11]⟩)]).readChain
      streamPrimitives aliceIdentity
  events := [(identityKey, rowSigned identityRow)]

def aliceChain : IdentityChain := ⟨[⟨1, key 1, genesis⟩]⟩

theorem streamClient_chain : streamClient.core.chains.lookup aliceIdentity = some aliceChain := by
  decide +kernel

theorem decode_streamBytes {n : ℕ} (h : n < 65536) :
    streamPrimitives.decodeEvent (streamBytes n) = .ok (streamPost (UInt64.ofNat n)) := by
  have hNumber : (UInt8.ofNat (n / 256)).toNat * 256 + (UInt8.ofNat n).toNat = n := by
    simp only [UInt8.toNat_ofNat']
    omega
  show Except.ok (streamPost _) = _
  rw [hNumber]

/-- The posts are valid for a client that knows Alice's identity. -/
theorem isValidated_streamRow {core : PolycentricClient}
    (hChain : core.chains.lookup aliceIdentity = some aliceChain) {n : ℕ} (h : n < 65536)
    {bundle : EventBundle} (hSigned : bundle.signedEvent = some (rowSigned (streamRow n))) :
    isValidated streamPrimitives core bundle = true := by
  have hRead : core.identityChain streamPrimitives aliceIdentity = .ok aliceChain := by
    unfold PolycentricClient.identityChain
    rw [hChain]
  have hPosition : getSignerPosition ⟨[0, UInt64.ofNat n]⟩ genesis (key 2) (UInt64.ofNat n) = .ok 1 := by
    have hFound : (genesis.deduplicatedKeys.findIdx? fun k =>
        k.keyType == (key 2).keyType && k.key == (key 2).key) = some 1 := by decide +kernel
    have hLength : genesis.deduplicatedKeys.length = 2 := by decide +kernel
    simp only [getSignerPosition, bind_eq_ok_iff, ensure_eq_ok_iff, okOr_eq_ok_iff]
    exact ⟨(), by simp [hLength], 1, hFound, (), by simp, rfl⟩
  have hState : aliceChain.stateAtSequence 1 = some genesis := by decide +kernel
  have hLatest : aliceChain.latestEvent = some ⟨1, key 1, genesis⟩ := by decide +kernel
  have hSigner : genesis.authorizesSigner (key 2) = true := by decide +kernel
  unfold isValidated
  rw [hSigned, isOk_iff]
  refine ⟨(), ?_⟩
  simp only [PolycentricClient.validateEvent, bind_eq_ok_iff, mapError_eq_ok_iff, okOr_eq_ok_iff]
  refine ⟨streamPost (UInt64.ofNat n), decode_streamBytes h, streamKey n, rfl, key 2, rfl, aliceChain,
    hRead, _, hLatest, ?_⟩
  have hFeed : (streamKey n).collection ≠ Collections.identity :=
    show Collections.feed ≠ Collections.identity by decide
  rw [if_neg hFeed]
  simp only [bind_eq_ok_iff, okOr_eq_ok_iff]
  refine ⟨⟨[0, UInt64.ofNat n]⟩, rfl, genesis, hState, (), ?_, ?_⟩
  · simp [hSigner]
  · rw [if_pos hSigner, bind_eq_ok_iff]
    have hComplete : verifyVectorClock core.eventStore ⟨[0, UInt64.ofNat n]⟩ genesis aliceIdentity
        Collections.feed (key 2) (UInt64.ofNat n) = .ok [] := by
      unfold verifyVectorClock
      rw [hPosition]
      rfl
    exact ⟨[], hComplete, rfl⟩

theorem mem_streamDatabase {length : ℕ} {row : EventRow} :
    row ∈ (streamDatabase length).event ↔
      row = identityRow ∨ ∃ n, 0 < n ∧ n ≤ length ∧ row = streamRow n := by
  simp only [streamDatabase, List.mem_cons, List.mem_map, List.mem_range]
  refine or_congr_right ⟨?_, ?_⟩
  · rintro ⟨i, hi, rfl⟩
    exact ⟨i + 1, Nat.succ_pos i, hi, rfl⟩
  · rintro ⟨n, hPos, hLe, rfl⟩
    exact ⟨n - 1, by omega, by rw [Nat.sub_add_cancel hPos]⟩

theorem rowKey_identityRow : rowKey streamPrimitives identityRow = some identityKey := by
  decide +kernel

theorem rowKey_streamRow {n : ℕ} (h : n < 65536) :
    rowKey streamPrimitives (streamRow n) = some (streamKey n) := by
  unfold rowKey
  rw [show (streamRow n).eventBytes = streamBytes n from rfl, decode_streamBytes h]
  rfl

theorem streamRow_sequence {n : ℕ} (h : n < 65536) : (streamRow n).key.sequence.toInt = n := by
  have hNumber : (UInt64.ofNat n).toNat = n := by
    rw [UInt64.toNat_ofNat']
    omega
  have hSmall : (UInt64.ofNat n).toNat < 2 ^ 63 := by omega
  exact (toInt_toInt64 hSmall).trans (congrArg Nat.cast hNumber)

theorem serves_stream {length : ℕ} (h : length < 65536) :
    Serves streamPrimitives (streamDatabase length) where
  keys := by
    simp only [streamDatabase, List.map_cons, List.map_map, List.nodup_cons]
    constructor
    · intro hMem
      obtain ⟨i, -, hKey⟩ := List.mem_map.mp hMem
      have hCollection : Collections.feed.toInt16 = Collections.identity.toInt16 :=
        congrArg EventKeyParts.collection hKey
      exact absurd hCollection (by decide)
    · refine List.Nodup.map_on ?_ List.nodup_range
      intro i hi j hj hKey
      have hSequence := congrArg (fun key => key.sequence.toInt) hKey
      simp only [Function.comp_apply] at hSequence
      rw [List.mem_range] at hi hj
      rw [streamRow_sequence (by omega), streamRow_sequence (by omega)] at hSequence
      omega
  rows := by
    intro row hRow
    rcases mem_streamDatabase.mp hRow with rfl | ⟨n, -, hLe, rfl⟩
    · exact ⟨identityKey, key 1, rowKey_identityRow, rfl, rfl⟩
    · exact ⟨streamKey n, key 2, rowKey_streamRow (by omega), rfl, rfl⟩
  signed := by
    intro row hRow
    rcases mem_streamDatabase.mp hRow with rfl | ⟨n, -, -, rfl⟩
    · decide
    · exact ⟨List.cons_ne_nil _ _, List.cons_ne_nil _ _⟩

theorem servesNarrow_stream {length : ℕ} (h : length < 65536) :
    ServesNarrow streamPrimitives (streamDatabase length) := by
  intro row hRow rowKey' signedBy hKey hSigner
  rcases mem_streamDatabase.mp hRow with rfl | ⟨n, -, hLe, rfl⟩
  · rw [rowKey_identityRow] at hKey
    obtain rfl := Option.some.inj hKey
    obtain rfl := Option.some.inj hSigner
    exact ⟨rfl, rfl, by decide⟩
  · rw [rowKey_streamRow (by omega)] at hKey
    obtain rfl := Option.some.inj hKey
    obtain rfl := Option.some.inj hSigner
    refine ⟨rfl, rfl, ?_⟩
    show (UInt64.ofNat n).toNat < 2 ^ 63
    rw [UInt64.toNat_ofNat']
    omega

theorem holdsSubset_stream (length : ℕ) :
    HoldsSubset streamPrimitives (streamDatabase length) streamClient.events := by
  refine ⟨List.nodup_singleton _, ?_⟩
  intro entry hEntry
  obtain rfl := List.mem_singleton.mp hEntry
  exact ⟨identityRow, mem_streamDatabase.mpr (Or.inl rfl), rowKey_identityRow, rfl⟩

theorem holdsRow_identityRow : HoldsRow streamPrimitives streamClient.events identityRow :=
  ⟨identityKey, rowKey_identityRow, by decide +kernel⟩

theorem not_holdsRow_stream {n : ℕ} (h : n < 65536) :
    ¬HoldsRow streamPrimitives streamClient.events (streamRow n) := by
  rintro ⟨key', hKey, hStored⟩
  rw [rowKey_streamRow h] at hKey
  obtain rfl := Option.some.inj hKey
  have hNe : (streamKey n == identityKey) = false := by
    rw [beq_eq_false_iff_ne]
    intro hSame
    have hCollection : Collections.feed = Collections.identity :=
      congrArg Proto.EventKey.collection hSame
    exact absurd hCollection (by decide)
  rw [EventRepository.getByEventKey, show streamClient.events = [(identityKey, rowSigned identityRow)] from rfl,
    List.lookup_cons, hNe] at hStored
  cases hStored

/-- Only posts are listed, since the identity event is held. -/
theorem listed_stream {length : ℕ} (h : length < 65536) {orders : ℕ → List EventRow → List EventRow}
    (hOrders : ∀ n, SortsDescending (orders n)) (n : ℕ) :
    ∀ row ∈ listedRows (streamDatabase length) aliceIdentity (orders n)
        (pulls streamPrimitives bareHydrate (streamDatabase length) aliceIdentity orders n streamClient),
      ∃ m, m < 65536 ∧ row = streamRow m := by
  intro row hRow
  have hServes := serves_stream h
  have hKeeps := pulls_keeps bareHydrate aliceIdentity hServes (servesNarrow_stream h)
    (holdsSubset_stream length) hOrders
  have hBeyond := (hKeeps n).asked hRow
  rcases mem_streamDatabase.mp ((mem_servedRows hServes).mp (HeadPaging.Server.mem_beyond.mp hBeyond).1).1
    with rfl | ⟨m, -, hLe, rfl⟩
  · have hHeld : identityRow ∈ heldRows streamPrimitives (streamDatabase length) aliceIdentity
        streamClient.events :=
      mem_heldRows.mpr ⟨mem_streamDatabase.mpr (Or.inl rfl), rfl, holdsRow_identityRow⟩
    exact absurd (HeadPaging.Server.heldAt_mono hKeeps (Nat.zero_le n) hHeld)
      (HeadPaging.Server.notMem_of_mem_beyond hBeyond)
  · exact ⟨m, by omega, rfl⟩

/-- Copying posts does not make the core forget Alice's identity. -/
theorem coreAfter_chain {length : ℕ} {order : List EventRow → List EventRow} {client : LocalClient}
    (hChain : client.core.chains.lookup aliceIdentity = some aliceChain)
    (hListed : ∀ row ∈ listedRows (streamDatabase length) aliceIdentity order client,
      ∃ m, m < 65536 ∧ row = streamRow m) :
    (coreAfter streamPrimitives bareHydrate (streamDatabase length) aliceIdentity order client).chains.lookup
      aliceIdentity = some aliceChain := by
  unfold coreAfter
  rw [PolycentricClient.chains_copyBundles, PolycentricClient.chains_copyBundles]
  · exact hChain
  · exact fun _ hMem => absurd hMem List.not_mem_nil
  · intro bundle hBundle
    obtain ⟨row, hRow, rfl⟩ := List.mem_map.mp hBundle
    obtain ⟨m, hm, rfl⟩ := hListed row hRow
    constructor
    · have hContent : rowContent (streamDatabase length) (streamRow m) = none := by
        have hDigest : (⟨contentDigestTypeSha256, (digest [11]).val⟩ : ContentDigest) ≠
            ⟨contentDigestTypeSha256, (digest []).val⟩ := by decide +kernel
        simp [rowContent, streamRow, streamDatabase, hDigest]
      simp [listedBundle, assembleBundle, rowIntoBundle, hContent]
    · rintro signed hSigned key' hKey
      obtain rfl := Option.some.inj hSigned
      simp only [EventKey.fromSignedEvent, bind_eq_ok_iff, mapError_eq_ok_iff] at hKey
      obtain ⟨decoded, hDecoded, hKey⟩ := hKey
      obtain rfl := Except.ok.inj ((decode_streamBytes hm).symm.trans hDecoded)
      obtain rfl := Except.ok.inj hKey
      show Collections.feed ≠ Collections.identity
      decide

theorem pulls_chain {length : ℕ} (h : length < 65536) {orders : ℕ → List EventRow → List EventRow}
    (hOrders : ∀ n, SortsDescending (orders n)) (n : ℕ) :
    (pulls streamPrimitives bareHydrate (streamDatabase length) aliceIdentity orders n
      streamClient).core.chains.lookup aliceIdentity = some aliceChain := by
  induction n with
  | zero => exact streamClient_chain
  | succ n ih =>
      show List.lookup aliceIdentity (PolycentricClient.chains (LocalClient.core (pullOnce _ _ _ _ _ _).2)) = _
      rw [pullOnce_core]
      exact coreAfter_chain ih (listed_stream h hOrders n)

/-- The client accepts all posts. -/
theorem acceptsAll_stream {length : ℕ} (h : length < 65536) {orders : ℕ → List EventRow → List EventRow}
    (hOrders : ∀ n, SortsDescending (orders n)) (n : ℕ) :
    AcceptsAll streamPrimitives bareHydrate (streamDatabase length) aliceIdentity (orders n)
      (pulls streamPrimitives bareHydrate (streamDatabase length) aliceIdentity orders n streamClient) := by
  intro row hRow
  obtain ⟨m, hm, rfl⟩ := listed_stream h hOrders n row hRow
  exact isValidated_streamRow (coreAfter_chain (pulls_chain h hOrders n) (listed_stream h hOrders n)) hm rfl

end Polycentric.TableInstance

namespace Polycentric.Sync

open Proto Client Server TableInstance

/-- A stream of 200 events is one page. -/
theorem partialPull_complete_page :
    (streamDatabase 200).event.length = 201 ∧
      ∀ orders : ℕ → List EventRow → List EventRow, (∀ n, SortsDescending (orders n)) →
        PullsEverything streamPrimitives bareHydrate (streamDatabase 200) aliceIdentity orders
          streamClient := by
  have hServes : Serves streamPrimitives (streamDatabase 200) := serves_stream (by norm_num)
  refine ⟨by simp [streamDatabase], ((partialPull_complete_iff streamPrimitives bareHydrate
    (streamDatabase 200) aliceIdentity streamClient hServes (servesNarrow_stream (by norm_num))
    (holdsSubset_stream 200)).2 fun orders hOrders => acceptsAll_stream (by norm_num) hOrders).mpr
      ⟨?_, ?_⟩⟩
  · intro row hRow _ hNot head hHead _ hHolds hStream
    rcases mem_streamDatabase.mp hRow with rfl | ⟨n, -, -, rfl⟩
    · exact absurd holdsRow_identityRow hNot
    · rcases mem_streamDatabase.mp hHead with rfl | ⟨m, -, hLe, rfl⟩
      · exact absurd (congrArg Prod.fst hStream) (show Collections.identity.toInt16 ≠ Collections.feed.toInt16 by decide)
      · exact absurd hHolds (not_holdsRow_stream (by omega))
  · intro listed hNodup hMem _ i j a b hI hJ _
    have hLength : listed.length ≤ 200 := by
      have hSubperm : listed.Subperm ((List.range 200).map fun i => streamRow (i + 1)) := by
        refine hNodup.subperm ?_
        intro row hRow
        obtain ⟨hStored, -, hNot⟩ := (hMem row).mp hRow
        rcases List.mem_cons.mp hStored with rfl | hPost
        · exact absurd holdsRow_identityRow hNot
        · exact hPost
      simpa using hSubperm.length_le
    obtain ⟨hi, -⟩ := List.getElem?_eq_some_iff.mp hI
    obtain ⟨hj, -⟩ := List.getElem?_eq_some_iff.mp hJ
    rw [Nat.div_eq_of_lt (by omega), Nat.div_eq_of_lt (by omega)]

/-- Of a stream of 201 events, the first is never pulled. -/
theorem partialPull_incomplete_long :
    ¬∀ orders : ℕ → List EventRow → List EventRow, (∀ n, SortsDescending (orders n)) →
      PullsEverything streamPrimitives bareHydrate (streamDatabase 201) aliceIdentity orders
        streamClient := by
  intro h
  have hServes : Serves streamPrimitives (streamDatabase 201) := serves_stream (by norm_num)
  have hCompletes := (pullsEverything_all_iff hServes (servesNarrow_stream (by norm_num))
    (holdsSubset_stream 201) fun orders hOrders => acceptsAll_stream (by norm_num) hOrders).mp h
  have hPages := (pagesKeepStreams_iff hServes).mpr
    ((HeadPaging.Server.completes_iff (by norm_num)).mp hCompletes).2
  let posts := (List.range 201).map fun i => streamRow (i + 1)
  have hSplit := hPages posts.reverse
    (List.nodup_reverse.mpr (List.Nodup.of_map EventRow.key (List.nodup_cons.mp hServes.keys).2)) ?_ ?_
    0 200 (streamRow 201) (streamRow 1) rfl rfl rfl
  · cases hSplit
  · intro row
    rw [List.mem_reverse]
    constructor
    · intro hPost
      obtain ⟨i, hi, rfl⟩ := List.mem_map.mp hPost
      rw [List.mem_range] at hi
      exact ⟨List.mem_cons_of_mem _ hPost, rfl, not_holdsRow_stream (by omega)⟩
    · rintro ⟨hStored, -, hNot⟩
      rcases List.mem_cons.mp hStored with rfl | hPost
      · exact absurd holdsRow_identityRow hNot
      · exact hPost
  · rw [List.pairwise_reverse]
    simp only [posts, List.pairwise_map]
    refine List.pairwise_lt_range.imp_of_mem ?_
    intro i j hi hj hLt
    rw [List.mem_range] at hi hj
    rw [Int64.le_iff_toInt_le, streamRow_sequence (by omega), streamRow_sequence (by omega)]
    omega

end Polycentric.Sync
