import Polycentric.Client.RangeQueries
import Polycentric.Sync.TombstoneAgreement

/-! A partial push: what a client sends to a server whose heads it knows. The streams
are found by a loose scan over the ordered keys, and every stream is sent from the head
on, those of the identity collection first. -/
namespace Polycentric.Client

open Proto Result Memo

/-- The error of the interface. -/
inductive ApiError where
  | decode (message : String)
  deriving DecidableEq, Repr

/-- `Vec::swap` with the first element. -/
def swapFirst {α : Type} (items : List α) (index : Nat) : List α :=
  match items[0]?, items[index]? with
  | some first, some item => (items.set 0 item).set index first
  | _, _ => items

/-- The heads by stream. A head without a signer is ignored, and a later one counts. -/
def headsMap (heads : List Proto.EventKey) : Table (Int32 × PublicKey) UInt64 :=
  (heads.filterMap fun key => key.signedBy.map fun signer =>
    ((key.collection, signer), key.sequence)).foldl (fun map head => map.insert head.1 head.2) []

/-- The identity collection comes first, for the server to validate the other events. -/
def identityFirst (collections : List Int32) : List Int32 :=
  match collections.idxOf? Collections.identity with
  | some index => swapFirst collections index
  | none => collections

/-- The event bundles to send to a server that has the heads. -/
def bundleUnsentEvents (P : Primitives) (client : PolycentricClient)
    (collectionOrder : IterationOrder Int32) (signerOrder : IterationOrder PublicKey) (fuel : Nat)
    (identity : String) (heads : List Proto.EventKey) : Option (Except ApiError (List EventBundle)) := do
  let (localCollections, localSigners) ←
    client.eventStore.findCollectionsAndSigners identity collectionOrder signerOrder fuel
  let unsent := (identityFirst localCollections).flatMap fun col => localSigners.flatMap fun signer =>
    client.eventStore.byIdentityCollectionSigner identity col signer.keyType signer.key
      (((headsMap heads).get (col, signer)).getD 0)
  return unsent.mapM fun entry => (client.bundleFor P entry.1 entry.2 false).mapError fun e =>
    .decode s!"decode local event: {coreErrorText e}"

/-- The sequence of the head that the server has of a stream, 0 if there is none. -/
def headOf (heads : List Proto.EventKey) (collection : Int32) (signer : PublicKey) : UInt64 :=
  ((heads.find? fun head => head.collection = collection ∧ head.signedBy = some signer).map
    Proto.EventKey.sequence).getD 0

/-- At most one head of every stream. -/
def OneHead (heads : List Proto.EventKey) : Prop :=
  (heads.filterMap fun head => head.signedBy.map fun signer => (head.collection, signer)).Nodup

/-- The stored events of the identity beyond the heads. -/
def PolycentricClient.unsentEvents (client : PolycentricClient) (identity : String)
    (heads : List Proto.EventKey) : List (EventKey × SignedEvent) :=
  client.eventStore.entries.filter fun entry => entry.1.identity = identity ∧
    headOf heads entry.1.collection entry.1.signer < entry.1.sequence

/-- The bundle of a stored event without proofs. -/
def PolycentricClient.pushedBundle (P : Primitives) (client : PolycentricClient)
    (entry : EventKey × SignedEvent) : EventBundle :=
  { client.storedBundle P entry with eventProofs := [] }

/-! ### The order of collections -/

theorem swapFirst_perm {α : Type} (items : List α) (index : Nat) : (swapFirst items index).Perm items := by
  unfold swapFirst
  split
  · next first item hFirst hItem =>
      obtain ⟨hZero, rfl⟩ := List.getElem?_eq_some_iff.mp hFirst
      obtain ⟨hIndex, rfl⟩ := List.getElem?_eq_some_iff.mp hItem
      exact List.set_set_perm hZero hIndex
  · exact List.Perm.refl items

theorem head?_swapFirst {α : Type} {items : List α} {index : Nat} {item : α}
    (hItem : items[index]? = some item) : (swapFirst items index).head? = some item := by
  cases items with
  | nil => cases hItem
  | cons first rest =>
      unfold swapFirst
      rw [List.getElem?_cons_zero, hItem]
      cases index with
      | zero =>
          obtain rfl : first = item := Option.some.inj hItem
          rfl
      | succ index => rfl

theorem identityFirst_perm (collections : List Int32) : (identityFirst collections).Perm collections := by
  unfold identityFirst
  split
  · exact swapFirst_perm collections _
  · exact List.Perm.refl collections

/-- No collection precedes the identity collection. -/
theorem identityFirst_first {collections : List Int32} (hNodup : collections.Nodup) :
    (identityFirst collections).Pairwise fun _ b => b ≠ Collections.identity := by
  have hSwapped : (identityFirst collections).Nodup := (identityFirst_perm collections).nodup_iff.mpr hNodup
  by_cases hMem : Collections.identity ∈ collections
  · obtain ⟨index, hIndex⟩ := Option.isSome_iff_exists.mp (List.isSome_idxOf?.mpr hMem)
    obtain ⟨hLt, hItem, -⟩ := List.idxOf?_eq_some_iff.mp hIndex
    have hHead : (identityFirst collections).head? = some Collections.identity := by
      rw [identityFirst, hIndex]
      exact head?_swapFirst (List.getElem?_eq_some_iff.mpr ⟨hLt, by simpa using hItem⟩)
    obtain ⟨rest, hRest⟩ := List.head?_eq_some_iff.mp hHead
    rw [hRest] at hSwapped ⊢
    obtain ⟨hAbsent, -⟩ := List.nodup_cons.mp hSwapped
    refine List.pairwise_cons.mpr ⟨fun b hb hEq => hAbsent (hEq ▸ hb), ?_⟩
    exact List.Pairwise.imp_of_mem (fun _ hb _ hEq => hAbsent (hEq ▸ hb)) (List.pairwise_of_forall fun _ _ => trivial)
  · exact List.Pairwise.imp_of_mem
      (fun _ hb _ hEq => hMem ((identityFirst_perm collections).mem_iff.mp (hEq ▸ hb)))
      (List.pairwise_of_forall fun _ _ => trivial)

/-! ### The heads -/

theorem foldl_insert_eq_reverse {Key Value : Type} (pairs : List (Key × Value)) (table : Table Key Value) :
    pairs.foldl (fun map head => map.insert head.1 head.2) table = pairs.reverse ++ table := by
  induction pairs generalizing table with
  | nil => rfl
  | cons pair rest ih =>
      rw [List.foldl_cons, ih, List.reverse_cons, List.append_assoc]
      rfl

/-- With one head of a stream, it does not matter which one counts. -/
theorem get_headsMap {heads : List Proto.EventKey} (hHeads : OneHead heads) (collection : Int32)
    (signer : PublicKey) :
    ((headsMap heads).get (collection, signer)).getD 0 = headOf heads collection signer := by
  let pairs := heads.filterMap fun key => key.signedBy.map fun signer =>
    ((key.collection, signer), key.sequence)
  have hNodup : (pairs.reverse.map Prod.fst).Nodup := by
    rw [List.map_reverse, List.nodup_reverse, List.map_filterMap]
    simp only [Option.map_map]
    exact hHeads
  have hGet : ∀ sequence, (headsMap heads).get (collection, signer) = some sequence ↔
      ∃ head ∈ heads, head.signedBy = some signer ∧ head.collection = collection ∧
        head.sequence = sequence := by
    intro sequence
    rw [headsMap, foldl_insert_eq_reverse, List.append_nil, Table.get,
      SortedEntries.lookup_eq_some_iff_mem hNodup, List.mem_reverse, List.mem_filterMap]
    refine exists_congr fun head => and_congr_right fun _ => ?_
    rw [Option.map_eq_some_iff]
    constructor
    · rintro ⟨signedBy, hSigner, hEq⟩
      obtain ⟨⟨rfl, rfl⟩, rfl⟩ := Prod.mk.inj hEq |>.imp_left Prod.mk.inj
      exact ⟨hSigner, rfl, rfl⟩
    · rintro ⟨hSigner, rfl, rfl⟩
      exact ⟨signer, hSigner, rfl⟩
  unfold headOf
  congr 1
  cases hFind : heads.find? fun head => head.collection = collection ∧ head.signedBy = some signer with
  | some head =>
      have hMatch : head.collection = collection ∧ head.signedBy = some signer := by
        simpa using List.find?_some hFind
      exact (hGet head.sequence).mpr
        ⟨head, List.mem_of_find?_eq_some hFind, hMatch.2, hMatch.1, rfl⟩
  | none =>
      rw [Option.map_none, Option.eq_none_iff_forall_ne_some]
      intro sequence hSome
      obtain ⟨head, hHead, hSigner, hCollection, -⟩ := (hGet sequence).mp hSome
      exact List.find?_eq_none.mp hFind head hHead (decide_eq_true ⟨hCollection, hSigner⟩)

/-! ### The bundles -/

/-- A filed event decodes, so that its bundle is assembled. -/
theorem bundleFor_pushed {P : Primitives} {client : PolycentricClient} {entry : EventKey × SignedEvent}
    (h : EventKey.fromSignedEvent P entry.2 = .ok entry.1) :
    client.bundleFor P entry.1 entry.2 false = .ok (client.pushedBundle P entry) := by
  unfold EventKey.fromSignedEvent at h
  rw [bind_eq_ok_iff] at h
  obtain ⟨event, hEvent, -⟩ := h
  rw [mapError_eq_ok_iff] at hEvent
  unfold PolycentricClient.bundleFor PolycentricClient.pushedBundle PolycentricClient.storedBundle
    PolycentricClient.storedContent
  rw [hEvent]
  rfl

section Streams

variable {client : PolycentricClient} {identity : String} {heads : List Proto.EventKey}
  {collections : List Int32} {signers : List PublicKey}

/-- What is sent of one stream. -/
def unsentStream (client : PolycentricClient) (identity : String) (heads : List Proto.EventKey)
    (collection : Int32) (signer : PublicKey) : List (EventKey × SignedEvent) :=
  client.eventStore.byIdentityCollectionSigner identity collection signer.keyType signer.key
    (headOf heads collection signer)

theorem mem_unsentStream {collection : Int32} {signer : PublicKey} {entry : EventKey × SignedEvent} :
    entry ∈ unsentStream client identity heads collection signer ↔
      entry ∈ client.unsentEvents identity heads ∧ entry.1.collection = collection ∧
        entry.1.signer = signer := by
  unfold unsentStream PolycentricClient.unsentEvents
  rw [EventStore.mem_byIdentityCollectionSigner, EventStore.mem_byIdentityAndCollection,
    List.mem_filter, decide_eq_true_eq]
  constructor
  · rintro ⟨⟨hEntry, hIdentity, rfl⟩, rfl, hBeyond⟩
    exact ⟨⟨hEntry, hIdentity, hBeyond⟩, rfl, rfl⟩
  · rintro ⟨⟨hEntry, hIdentity, hBeyond⟩, rfl, rfl⟩
    exact ⟨⟨hEntry, hIdentity, rfl⟩, rfl, hBeyond⟩

/-- Different streams have no event in common. -/
theorem streams_pairwise {relation : EventKey × SignedEvent → EventKey × SignedEvent → Prop}
    (hSigners : signers.Nodup)
    (hWithin : ∀ collection signer,
      (unsentStream client identity heads collection signer).Pairwise relation)
    (hApart : ∀ a b : EventKey × SignedEvent, a.1.collection = b.1.collection →
      a.1.signer ≠ b.1.signer → relation a b)
    (hAcross : collections.Pairwise fun c c' => ∀ a b : EventKey × SignedEvent,
      a.1.collection = c → b.1.collection = c' → relation a b) :
    (collections.flatMap fun collection => signers.flatMap fun signer =>
      unsentStream client identity heads collection signer).Pairwise relation := by
  rw [List.pairwise_flatMap]
  refine ⟨fun collection _ => ?_, hAcross.imp fun hRelated a ha b hb => ?_⟩
  · rw [List.pairwise_flatMap]
    refine ⟨fun signer _ => hWithin collection signer, hSigners.imp fun hNe a ha b hb => ?_⟩
    obtain ⟨-, hCollection, hSigner⟩ := mem_unsentStream.mp ha
    obtain ⟨-, hCollection', hSigner'⟩ := mem_unsentStream.mp hb
    exact hApart a b (hCollection.trans hCollection'.symm) (by rwa [hSigner, hSigner'])
  · obtain ⟨_, _, ha⟩ := List.mem_flatMap.mp ha
    obtain ⟨_, _, hb⟩ := List.mem_flatMap.mp hb
    exact hRelated a b (mem_unsentStream.mp ha).2.1 (mem_unsentStream.mp hb).2.1

end Streams

end Polycentric.Client

namespace Polycentric.Sync

open Proto Client Result

/-- With one head of a stream and enough fuel, exactly the events of the identity beyond
the heads are sent, each once, those of the identity collection first, and every stream in
the order of its sequences. -/
theorem partialPush_exact {P : Primitives} {client : PolycentricClient} {identity : String}
    {heads : List Proto.EventKey} (collectionOrder : IterationOrder Int32)
    (signerOrder : IterationOrder PublicKey) {fuel : Nat} (hFiled : Filed P client)
    (hHeads : OneHead heads) (hFuel : client.eventStore.entries.length < fuel) :
    ∃ sent : List (Client.EventKey × SignedEvent),
      bundleUnsentEvents P client collectionOrder signerOrder fuel identity heads =
        some (.ok (sent.map (client.pushedBundle P))) ∧
      sent.Perm (client.unsentEvents identity heads) ∧
      (sent.Pairwise fun a b => b.1.collection = Collections.identity →
        a.1.collection = Collections.identity) ∧
      sent.Pairwise fun a b => a.1.collection = b.1.collection → a.1.signer = b.1.signer →
        a.1.sequence < b.1.sequence := by
  obtain ⟨collections, signers, hScan, hCollections, hSigners, hListedCollection, hListedSigner⟩ :=
    findCollectionsAndSigners_spec client.eventStore identity collectionOrder signerOrder
  let sent := (identityFirst collections).flatMap fun collection => signers.flatMap fun signer =>
    unsentStream client identity heads collection signer
  have hFirst : (identityFirst collections).Nodup :=
    (identityFirst_perm collections).nodup_iff.mpr hCollections
  have hMem : ∀ entry, entry ∈ sent ↔ entry ∈ client.unsentEvents identity heads := by
    intro entry
    simp only [sent, List.mem_flatMap, mem_unsentStream, (identityFirst_perm collections).mem_iff]
    constructor
    · rintro ⟨_, _, _, _, hUnsent, -⟩
      exact hUnsent
    · intro hUnsent
      obtain ⟨hEntry, hIdentity⟩ := List.mem_filter.mp hUnsent
      have hOfIdentity : entry.1.identity = identity := (of_decide_eq_true hIdentity).1
      have hCollection := (hListedCollection _).mpr ⟨entry, hEntry, hOfIdentity, rfl⟩
      have hSigner := (hListedSigner _).mpr ⟨entry, hEntry, hOfIdentity, rfl⟩
      exact ⟨_, hCollection, _, hSigner, hUnsent, rfl, rfl⟩
  have hAscending : sent.Pairwise fun a b => a.1.collection = b.1.collection →
      a.1.signer = b.1.signer → a.1.sequence < b.1.sequence := by
    apply streams_pairwise hSigners
    · intro collection signer
      exact (EventStore.byIdentityCollectionSigner_ascending signer _).imp fun hLt _ _ => hLt
    · exact fun a b _ hNe _ hSame => absurd hSame hNe
    · exact hFirst.imp fun hNe a b ha hb hSame => absurd (ha.symm.trans (hSame.trans hb)) hNe
  have hNodup : sent.Nodup := by
    refine hAscending.imp fun hLt hEq => ?_
    subst hEq
    exact absurd (hLt rfl rfl) (UInt64.lt_irrefl _)
  refine ⟨sent, ?_, ?_, ?_, hAscending⟩
  · have hBundles : ∀ entry ∈ sent, ((client.bundleFor P entry.1 entry.2 false).mapError fun e =>
        ApiError.decode s!"decode local event: {coreErrorText e}") = .ok (client.pushedBundle P entry) := by
      intro entry hEntry
      have hStored := (List.mem_filter.mp ((hMem entry).mp hEntry)).1
      rw [bundleFor_pushed (hFiled entry hStored)]
      rfl
    rw [bundleUnsentEvents, hScan fuel hFuel]
    simp only [get_headsMap hHeads]
    exact congrArg some (mapM_eq_map hBundles)
  · have hStored : client.eventStore.entries.Nodup := client.eventStore.sorted.imp fun hLt hEq => by
      rw [hEq] at hLt
      exact SortedEntries.ne_of_cmp_lt hLt rfl
    exact (List.perm_ext_iff_of_nodup hNodup (hStored.filter _)).mpr hMem
  · apply streams_pairwise hSigners
    · intro collection signer
      refine List.Pairwise.imp_of_mem (fun ha hb _ hIdentity => ?_) (List.pairwise_of_forall fun _ _ => trivial)
      rw [(mem_unsentStream.mp ha).2.1, ← (mem_unsentStream.mp hb).2.1, hIdentity]
    · exact fun a b hSame _ hIdentity => hSame.trans hIdentity
    · exact (identityFirst_first hCollections).imp fun hNot a b _ hb hIdentity =>
        absurd (hb.symm.trans hIdentity) hNot

end Polycentric.Sync

namespace Polycentric.TableInstance

/-- A `HashSet` that gives its elements as they are listed. -/
def asListed {α : Type} : Client.IterationOrder α := ⟨id, fun _ => .refl _⟩

end Polycentric.TableInstance

namespace Polycentric.Sync

open Proto Client TableInstance

/-- A server that has Alice's post gets her identity event and the `Delete`. -/
theorem partialPush_exact_alice :
    ∃ sent : List (Client.EventKey × SignedEvent),
      bundleUnsentEvents retractPrimitives (retractClient 5) asListed asListed 4 aliceIdentity [postKey] =
        some (.ok (sent.map ((retractClient 5).pushedBundle retractPrimitives))) ∧ sent.length = 2 := by
  obtain ⟨sent, hSent, hPerm, -, -⟩ := @partialPush_exact retractPrimitives (retractClient 5)
    aliceIdentity [postKey] asListed asListed 4 (filed_run (retractCalls 5))
    (by unfold OneHead; decide +kernel) (by decide +kernel)
  exact ⟨sent, hSent, hPerm.length_eq.trans (by decide +kernel)⟩

end Polycentric.Sync
