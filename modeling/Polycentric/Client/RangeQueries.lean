import Polycentric.Client.Writing
import Polycentric.Library.OrderedRange
import Polycentric.Library.SkipScan

/-! The range queries of the event store, `store/event_store.rs`. They start at keys with
the least or the greatest value in the fields that a query leaves open. -/
namespace Polycentric.Client

open Proto SkipScan OrderedRange

/-- In which order a `HashSet` gives its elements: any. -/
structure IterationOrder (α : Type) where
  order : List α → List α
  perm : ∀ items, (order items).Perm items

/-- `BTreeMap::range`. It panics if the bounds are not in order. -/
def KeyMap.between {α : Type} (map : KeyMap α) (lower upper : Bound EventKey) :
    Option (List (EventKey × α)) :=
  OrderedRange.range EventKey.cmp map.entries lower upper

/-- The greatest key of the same stream. -/
def EventKey.endOfStream (key : EventKey) : EventKey := { key with sequence := 0xffffffffffffffff }

namespace EventStore

variable (store : EventStore) (identity : String)

/-- The events from the first possible key of the identity on. -/
def fromIdentity : List (EventKey × SignedEvent) :=
  store.range fun k => (prefixStart identity none none).cmp k != .gt

/-- All events for an identity, ordered by collection, signer and sequence. -/
def byIdentity : List (EventKey × SignedEvent) :=
  (store.fromIdentity identity).takeWhile fun entry => entry.1.identity == identity

def firstBeyond (lower : EventKey) : Option (EventKey × SignedEvent) :=
  (store.range fun k => lower.cmp k == .lt).head?

/-- The loop of the scan. It passes an event in every round, so that one round more than
there are events is enough. -/
def scanLoop : Nat → Option (EventKey × SignedEvent) → List Int32 → List PublicKey →
    Option (List Int32 × List PublicKey)
  | 0, _, _, _ => none
  | _ + 1, none, collections, keys => some (collections, keys)
  | fuel + 1, some (key, _), collections, keys =>
      if key.identity = identity then
        scanLoop fuel (store.firstBeyond key.endOfStream) (collections.insert key.collection)
          (keys.insert key.signer)
      else some (collections, keys)

/-- The collections and signers of the local events of the identity. -/
def findCollectionsAndSigners (collectionOrder : IterationOrder Int32)
    (signerOrder : IterationOrder PublicKey) (fuel : Nat) : Option (List Int32 × List PublicKey) := do
  let (collections, keys) ← store.scanLoop identity fuel (store.fromIdentity identity).head? [] []
  return (collectionOrder.order collections, signerOrder.order keys)

end EventStore

/-! ### The scan of collections and signers -/

namespace EventStore

variable {store : EventStore} {identity : String}

/-- The loop inserts the collections and signers of the events that the scan visits. -/
theorem scanLoop_eq_visited (fuel : Nat) (cur : Option (EventKey × SignedEvent))
    (collections : List Int32) (keys : List PublicKey) :
    store.scanLoop identity fuel cur collections keys =
      (visited (fun entry => store.firstBeyond entry.1.endOfStream)
        (fun entry => decide (entry.1.identity = identity)) fuel cur).map fun found =>
          (found.foldl (fun set entry => set.insert entry.1.collection) collections,
            found.foldl (fun set entry => set.insert entry.1.signer) keys) := by
  induction fuel generalizing cur collections keys with
  | zero => rfl
  | succ fuel ih =>
      cases cur with
      | none => rfl
      | some entry =>
          obtain ⟨key, signed⟩ := entry
          by_cases hInside : key.identity = identity
          · rw [scanLoop, visited, if_pos hInside, if_pos (decide_eq_true hInside), ih, Option.map_map]
            rfl
          · rw [scanLoop, visited, if_neg hInside, if_neg (by simpa using hInside)]
            rfl

theorem identity_isLE {a b : EventKey} (h : (a.cmp b).isLE) : (compare a.identity b.identity).isLE :=
  Ordering.isLE_left_of_isLE_then h

/-- The scan starts before all events of the identity. -/
theorem prefixStart_identity_isLE (key : EventKey) :
    ((prefixStart key.identity none none).cmp key).isLE := by
  have hCollection : (compare Int32.minValue key.collection).isLE :=
    Std.isLE_compare.mpr (Int32.minValue_le _)
  have hStart := prefixStart_isLE key
  simp only [EventKey.cmp, prefixStart, Option.getD_some, Option.getD_none,
    Std.ReflCmp.compare_self, Ordering.eq_then] at hStart ⊢
  rw [Ordering.isLE_then_iff_and]
  exact ⟨hCollection, .inr hStart⟩

theorem mem_fromIdentity {entry : EventKey × SignedEvent} : entry ∈ store.fromIdentity identity ↔
    entry ∈ store.entries ∧ ((prefixStart identity none none).cmp entry.1).isLE := by
  rw [fromIdentity, KeyMap.range, List.mem_filter, bne_iff_ne, Ordering.isLE_iff_ne_gt]

theorem isLE_endOfStream (key : EventKey) : (key.cmp key.endOfStream).isLE := by
  have hMax : key.sequence ≤ 0xffffffffffffffff :=
    UInt64.le_iff_toNat_le.mpr (Nat.le_of_lt_succ key.sequence.toNat_lt)
  have hSame : key.cmpWriter key.endOfStream = .eq := EventKey.cmpWriter_eq_iff.mpr ⟨rfl, rfl, rfl⟩
  rw [EventKey.cmp_eq_cmpWriter, hSame, Ordering.eq_then]
  exact Std.isLE_compare.mpr hMax

/-- Up to the greatest key of a stream, there are keys of the stream only. -/
theorem sameStream_of_not_beyond {a b : EventKey} (hBefore : a.cmp b = .lt)
    (hBeyond : ¬a.endOfStream.cmp b = .lt) : b.collection = a.collection ∧ b.signer = a.signer := by
  have hNotGt : b.cmp a.endOfStream ≠ .gt := fun h => hBeyond (Std.OrientedCmp.gt_iff_lt.mp h)
  have hBetween := (@EventKey.between_iff a.identity a.collection a.signer a.sequence
    0xffffffffffffffff b).mp ⟨hBefore, hNotGt⟩
  exact ⟨hBetween.1.2.1, hBetween.1.2.2⟩

theorem grouped_fromIdentity (store : EventStore) (identity : String) :
    Grouped (fun entry => store.firstBeyond entry.1.endOfStream)
      (fun entry => decide (entry.1.identity = identity))
      (fun a b => a.1.endOfStream.cmp b.1 == .lt) (fun a b => a.1.cmp b.1 = .lt)
      (store.fromIdentity identity) where
  next a rest hSuffix := by
    obtain ⟨pre, hPre⟩ := hSuffix
    have hMem : a ∈ store.fromIdentity identity := by simp [← hPre]
    have hStart := (mem_fromIdentity.mp hMem).2
    have hSorted : (store.fromIdentity identity).Pairwise fun a b => a.1.cmp b.1 = .lt :=
      store.sorted.sublist List.filter_sublist
    have hSkipped : ∀ b ∈ pre ++ [a], ¬(a.1.endOfStream.cmp b.1 == .lt) = true := by
      intro b hb hBeyond
      have hLt : a.1.cmp b.1 = .lt :=
        Std.TransCmp.lt_of_isLE_of_lt (isLE_endOfStream a.1) (beq_iff_eq.mp hBeyond)
      rcases List.mem_append.mp hb with hb | hb
      · rw [← hPre] at hSorted
        have hBefore := (List.pairwise_append.mp hSorted).2.2 b hb a List.mem_cons_self
        rw [Std.OrientedCmp.gt_iff_lt.mpr hBefore] at hLt
        cases hLt
      · obtain rfl := List.mem_singleton.mp hb
        have hSelf : b.1.cmp b.1 = .eq := Std.ReflCmp.compare_self
        rw [hSelf] at hLt
        cases hLt
    have hAll : store.firstBeyond a.1.endOfStream =
        (store.fromIdentity identity).find? fun b => a.1.endOfStream.cmp b.1 == .lt := by
      rw [firstBeyond, fromIdentity, KeyMap.range, KeyMap.range, List.head?_filter, List.find?_filter]
      congr 1
      funext b
      cases hBeyond : a.1.endOfStream.cmp b.1 == .lt with
      | false => simp
      | true =>
          have hLater : ((prefixStart identity none none).cmp b.1).isLE :=
            Std.TransCmp.isLE_trans hStart (Std.TransCmp.isLE_trans (isLE_endOfStream a.1)
              (by rw [beq_iff_eq.mp hBeyond]; rfl))
          simpa using Ordering.isLE_iff_ne_gt.mp hLater
    rw [hAll, ← hPre, ← List.singleton_append, ← List.append_assoc, List.find?_append,
      List.find?_eq_none.mpr hSkipped, Option.none_or]
  self a _ := by
    have hNot := Ordering.isLE_iff_ne_gt.mp (isLE_endOfStream a.1)
    rw [beq_eq_false_iff_ne]
    exact fun h => hNot (Std.OrientedCmp.gt_iff_lt.mpr h)
  inside := by
    rw [fromIdentity, KeyMap.range, List.pairwise_filter]
    refine store.sorted.imp fun {a b} hLt hStart _ hInside => ?_
    have hFirst := identity_isLE (Ordering.isLE_iff_ne_gt.mpr (bne_iff_ne.mp hStart))
    have hSecond : (compare a.1.identity b.1.identity).isLE := identity_isLE (by rw [hLt]; rfl)
    rw [of_decide_eq_true hInside] at hSecond
    exact decide_eq_true (Std.LawfulEqCmp.eq_of_compare (Std.OrientedCmp.isLE_antisymm hSecond hFirst))
  before := store.sorted.sublist List.filter_sublist

end EventStore

theorem mem_foldl_insert {α β : Type} [DecidableEq β] (value : α → β) (items : List α) (set : List β)
    {b : β} : b ∈ items.foldl (fun set a => set.insert (value a)) set ↔
      b ∈ set ∨ ∃ a ∈ items, value a = b := by
  induction items generalizing set with
  | nil => simp
  | cons a rest ih =>
      rw [List.foldl_cons, ih, List.mem_insert_iff]
      simp only [List.exists_mem_cons_iff, eq_comm (a := b)]
      tauto

theorem nodup_foldl_insert {α β : Type} [DecidableEq β] (value : α → β) (items : List α)
    {set : List β} (h : set.Nodup) :
    (items.foldl (fun set a => set.insert (value a)) set).Nodup := by
  induction items generalizing set with
  | nil => exact h
  | cons a rest ih => exact ih h.insert

/-- The scan visits the values of all events of the identity, if a stream has one value. -/
theorem EventStore.mem_found {store : EventStore} {identity : String}
    {found : List (EventKey × SignedEvent)}
    (hSound : ∀ entry ∈ found, entry ∈ store.fromIdentity identity ∧
      decide (entry.1.identity = identity) = true)
    (hAll : ∀ entry ∈ store.fromIdentity identity, decide (entry.1.identity = identity) = true →
      ∃ other ∈ found, (other = entry ∨ other.1.cmp entry.1 = .lt) ∧
        (other.1.endOfStream.cmp entry.1 == .lt) = false)
    {β : Type} (value : EventKey → β) (hStream : ∀ a b : EventKey, a.collection = b.collection →
      a.signer = b.signer → value a = value b) (b : β) :
    (∃ entry ∈ found, value entry.1 = b) ↔
      ∃ entry ∈ store.entries, entry.1.identity = identity ∧ value entry.1 = b := by
  constructor
  · rintro ⟨entry, hEntry, hValue⟩
    obtain ⟨hFrom, hIdentity⟩ := hSound entry hEntry
    exact ⟨entry, (mem_fromIdentity.mp hFrom).1, of_decide_eq_true hIdentity, hValue⟩
  · rintro ⟨entry, hEntry, hIdentity, hValue⟩
    have hFrom : entry ∈ store.fromIdentity identity :=
      mem_fromIdentity.mpr ⟨hEntry, hIdentity ▸ prefixStart_identity_isLE entry.1⟩
    obtain ⟨other, hOther, hBefore, hBeyond⟩ := hAll entry hFrom (decide_eq_true hIdentity)
    refine ⟨other, hOther, hValue ▸ ?_⟩
    rcases hBefore with rfl | hBefore
    · rfl
    · obtain ⟨hCollection, hSigner⟩ := sameStream_of_not_beyond hBefore (beq_eq_false_iff_ne.mp hBeyond)
      exact hStream _ _ hCollection.symm hSigner.symm

/-- The scan ends after as many rounds as there are events and one more, with exactly the
collections and signers of the events of the identity. -/
theorem findCollectionsAndSigners_spec (store : EventStore) (identity : String)
    (collectionOrder : IterationOrder Int32) (signerOrder : IterationOrder PublicKey) :
    ∃ collections signers,
      (∀ fuel, store.entries.length < fuel →
        store.findCollectionsAndSigners identity collectionOrder signerOrder fuel =
          some (collections, signers)) ∧
      collections.Nodup ∧ signers.Nodup ∧
      (∀ collection, collection ∈ collections ↔
        ∃ entry ∈ store.entries, entry.1.identity = identity ∧ entry.1.collection = collection) ∧
      ∀ signer, signer ∈ signers ↔
        ∃ entry ∈ store.entries, entry.1.identity = identity ∧ entry.1.signer = signer := by
  have hLength : (store.fromIdentity identity).length < store.entries.length + 1 :=
    Nat.lt_succ_of_le (List.length_filter_le _ _)
  obtain ⟨found, hFound, hSound, hAll⟩ :=
    visited_spec (EventStore.grouped_fromIdentity store identity) hLength
  let collections := found.foldl (fun set entry => set.insert entry.1.collection) ([] : List Int32)
  let signers := found.foldl (fun set entry => set.insert entry.1.signer) ([] : List PublicKey)
  have hCollections := collectionOrder.perm collections
  have hSigners := signerOrder.perm signers
  refine ⟨collectionOrder.order collections, signerOrder.order signers, fun fuel hFuel => ?_,
    hCollections.nodup_iff.mpr (nodup_foldl_insert _ _ List.nodup_nil),
    hSigners.nodup_iff.mpr (nodup_foldl_insert _ _ List.nodup_nil), fun collection => ?_, fun signer => ?_⟩
  · rw [EventStore.findCollectionsAndSigners, EventStore.scanLoop_eq_visited, visited_mono hFound hFuel]
    rfl
  · rw [hCollections.mem_iff, mem_foldl_insert, or_iff_right List.not_mem_nil]
    exact EventStore.mem_found hSound hAll EventKey.collection (fun _ _ hSame _ => hSame) collection
  · rw [hSigners.mem_iff, mem_foldl_insert, or_iff_right List.not_mem_nil]
    exact EventStore.mem_found hSound hAll EventKey.signer (fun _ _ _ hSame => hSame) signer

/-! ### Ranges -/

namespace EventStore

variable {store : EventStore} {identity : String}

/-- A key of the identity is followed by keys of the identity until they are all passed. -/
theorem byIdentity_eq_filter (store : EventStore) (identity : String) :
    store.byIdentity identity = store.entries.filter fun entry => entry.1.identity = identity := by
  have hScan := (grouped_fromIdentity store identity).inside
  have hSame : (fun entry : EventKey × SignedEvent => entry.1.identity == identity) =
      fun entry => decide (entry.1.identity = identity) := rfl
  rw [byIdentity, hSame, takeWhile_eq_filter hScan, fromIdentity, KeyMap.range, List.filter_filter]
  apply List.filter_congr
  intro entry _
  by_cases hIdentity : entry.1.identity = identity
  · subst hIdentity
    have hStart := Ordering.isLE_iff_ne_gt.mp (prefixStart_identity_isLE entry.1)
    rw [decide_eq_true rfl, Bool.true_and]
    exact bne_iff_ne.mpr hStart
  · rw [decide_eq_false hIdentity, Bool.false_and]

theorem byIdentityCollectionSigner_eq_filter (store : EventStore) (identity : String)
    (collection : Int32) (signerKeyType : Int32) (signerKey : Bytes) (sequenceGt : UInt64) :
    store.byIdentityCollectionSigner identity collection signerKeyType signerKey sequenceGt =
      store.entries.filter fun entry => entry.1.identity = identity ∧ entry.1.collection = collection ∧
        entry.1.signedByKeyType = signerKeyType ∧ entry.1.signedByKey = signerKey ∧
          sequenceGt < entry.1.sequence := by
  unfold byIdentityCollectionSigner KeyMap.range
  apply List.filter_congr
  rintro ⟨key, signed⟩ _
  have hMax : key.sequence ≤ 0xffffffffffffffff :=
    UInt64.le_iff_toNat_le.mpr (Nat.le_of_lt_succ key.sequence.toNat_lt)
  have hBetween := @EventKey.between_iff identity collection ⟨signerKeyType, signerKey⟩ sequenceGt
    0xffffffffffffffff key
  rw [Bool.eq_iff_iff, Bool.and_eq_true, beq_iff_eq, bne_iff_ne, decide_eq_true_iff]
  refine hBetween.trans ?_
  simp only [EventKey.signer, PublicKey.mk.injEq, hMax, and_true, and_assoc]

/-- The scan of an identity is the range from the first possible key on. -/
theorem between_fromIdentity :
    store.between (.included (prefixStart identity none none)) .unbounded =
      some (store.fromIdentity identity) :=
  range_from _

/-- The scan goes on with the first entry of the range beyond a key. -/
theorem between_firstBeyond (lower : EventKey) :
    (store.between (.excluded lower) .unbounded).map List.head? = some (store.firstBeyond lower) := by
  rw [KeyMap.between, range_from]
  rfl

/-- The bounds of a stream are in order, also if they are the same key. -/
theorem between_stream (collection : Int32) (signerKeyType : Int32) (signerKey : Bytes)
    (sequenceGt : UInt64) :
    store.between (.excluded ⟨identity, collection, signerKeyType, signerKey, sequenceGt⟩)
        (.included ⟨identity, collection, signerKeyType, signerKey, 0xffffffffffffffff⟩) =
      some (store.byIdentityCollectionSigner identity collection signerKeyType signerKey sequenceGt) := by
  let lower : EventKey := ⟨identity, collection, signerKeyType, signerKey, sequenceGt⟩
  have hOrder := Ordering.isLE_iff_ne_gt.mp (isLE_endOfStream lower)
  exact range_of_inOrder (bne_iff_ne.mpr hOrder)

end EventStore

/-- An iterator over the items, whichever ends its items are asked for from: nothing is
lost or given twice, and it ends. -/
structure IteratesExactly {α : Type} (items expected : List α) : Prop where
  forward : ∀ n, (draw items (List.replicate n .front)).front = expected.take n
  backward : ∀ n, (draw items (List.replicate n .back)).back = expected.reverse.take n
  mixed : ∀ sides, (draw items sides).all = expected
  ends : ∀ sides, (draw items sides).left.length = expected.length - sides.length

theorem iteratesExactly {α : Type} (items : List α) : IteratesExactly items items where
  forward n := by rw [draw_front]
  backward n := by rw [draw_back]
  mixed sides := all_draw items sides
  ends sides := length_left_draw items sides

/-- The range queries of a store for an identity return what a scan of all entries would,
in key order. -/
structure RangeQueriesExact (store : EventStore) (identity : String) : Prop where
  collectionsAndSigners : ∀ (collectionOrder : IterationOrder Int32)
      (signerOrder : IterationOrder PublicKey), ∃ collections signers,
    (∀ fuel, store.entries.length < fuel →
      store.findCollectionsAndSigners identity collectionOrder signerOrder fuel =
        some (collections, signers)) ∧
    collections.Nodup ∧ signers.Nodup ∧
    (∀ collection, collection ∈ collections ↔
      ∃ entry ∈ store.entries, entry.1.identity = identity ∧ entry.1.collection = collection) ∧
    ∀ signer, signer ∈ signers ↔
      ∃ entry ∈ store.entries, entry.1.identity = identity ∧ entry.1.signer = signer
  byIdentity : store.byIdentity identity =
    store.entries.filter fun entry => entry.1.identity = identity
  byIdentityAndCollection : ∀ collection, store.byIdentityAndCollection identity collection =
    store.entries.filter fun entry => entry.1.identity = identity ∧ entry.1.collection = collection
  byIdentityCollectionSigner : ∀ collection signerKeyType signerKey sequenceGt, ∃ stream,
    store.between (.excluded ⟨identity, collection, signerKeyType, signerKey, sequenceGt⟩)
        (.included ⟨identity, collection, signerKeyType, signerKey, 0xffffffffffffffff⟩) =
      some stream ∧
    stream = store.byIdentityCollectionSigner identity collection signerKeyType signerKey sequenceGt ∧
    IteratesExactly stream (store.entries.filter fun entry => entry.1.identity = identity ∧
      entry.1.collection = collection ∧ entry.1.signedByKeyType = signerKeyType ∧
        entry.1.signedByKey = signerKey ∧ sequenceGt < entry.1.sequence)

theorem rangeQueries_exact (store : EventStore) (identity : String) :
    RangeQueriesExact store identity where
  collectionsAndSigners := findCollectionsAndSigners_spec store identity
  byIdentity := store.byIdentity_eq_filter identity
  byIdentityAndCollection collection := by
    rw [EventStore.byIdentityAndCollection_eq_filter]
    apply List.filter_congr
    intro entry _
    rw [Bool.decide_and]
    rfl
  byIdentityCollectionSigner collection signerKeyType signerKey sequenceGt := by
    refine ⟨_, EventStore.between_stream collection signerKeyType signerKey sequenceGt, rfl, ?_⟩
    rw [← EventStore.byIdentityCollectionSigner_eq_filter]
    exact iteratesExactly _

end Polycentric.Client
