import Polycentric.Client.CacheCoherence
import Polycentric.Library.Clocks
import Polycentric.Merkle.Leaves

/-! Building events: the sequence, the clock and the root that a client signs into
a new event, and what the canonical list of a collection is afterwards. -/
namespace Polycentric.Client

open Proto Result SortedEntries Clocks

variable (P : Primitives)

/-! ### What goes into an event -/

/-- The Merkle root over the leaves, empty without leaves. -/
def rootOf (leaves : List Bytes) : Bytes := ((merkleTreeHash P leaves).map Subtype.val).getD []

namespace PolycentricClient

variable (client : PolycentricClient)

/-- A stored event that validates with its stored proofs. -/
def isValid (entry : EventKey × SignedEvent) : Bool :=
  (client.validateEvent P entry.2 (client.eventProofsStore.get entry.1)).isOk

/-- One more than the greatest sequence of a validated event of the collection, 1
without such an event. The addition wraps as `u64` does. -/
def nextSequence (identity : String) (collection : Int32) : UInt64 :=
  let sequences := ((client.eventStore.byIdentityAndCollection identity collection).filter
    (client.isValid P)).map fun entry => entry.1.sequence
  match sequences.max? with
  | some sequence => sequence + 1
  | none => 1

/-- The greatest sequence of an identity event of the signer. -/
def getIdentitySequence (identity : String) (signer : PublicKey) : Option UInt64 :=
  (client.eventStore.byIdentityCollectionSigner identity Collections.identity signer.keyType
    signer.key 0).getLast?.map fun entry => entry.1.sequence

/-- Canonically ordered signatures of the collection. -/
def canonicalSignatures (identity : String) (collection : Int32) : List Bytes :=
  Polycentric.canonicalSignatures P
    ((client.eventStore.byIdentityAndCollection identity collection).map fun entry =>
      (entry.2.eventBytes, entry.2.signature))

def previousRoot (identity : String) (collection : Int32) : Bytes :=
  rootOf P (client.canonicalSignatures P identity collection)

/-- The signature of the canonically latest event. -/
def previousSignature (identity : String) (collection : Int32) : Bytes :=
  (client.canonicalSignatures P identity collection).getLast?.getD []

/-- The greatest validated sequence of the key in the collection, 0 if there is
none. -/
def observedSequence (identity : String) (collection : Int32) (publicKey : PublicKey) : UInt64 :=
  (((client.eventStore.byIdentityCollectionSigner identity collection publicKey.keyType
    publicKey.key 0).reverse.find? (client.isValid P)).map fun entry => entry.1.sequence).getD 0

/-- The document whose keys the clock has entries for. -/
def clockDocument (identity : String) (identitySequence : UInt64)
    (identityContent : Option Identity) : Except CoreError Identity :=
  (client.identityChain P identity).bind fun chain =>
    match identityContent with
    | some document => .ok document
    | none => okOr (chain.stateAtSequence identitySequence)
        (.invalidEvent s!"No validated identity event at sequence {identitySequence}")

/-- One entry for each key: the new sequence for the signer, what was observed for
the others. -/
def buildVectorClock (identity : String) (collection : Int32) (identitySequence : UInt64)
    (currentSigner : PublicKey) (currentSequence : UInt64) (identityContent : Option Identity) :
    Except CoreError VectorClock := do
  let document ← client.clockDocument P identity identitySequence identityContent
  return ⟨document.deduplicatedKeys.map fun publicKey =>
    if publicKey.keyType = currentSigner.keyType ∧ publicKey.key = currentSigner.key then
      currentSequence
    else client.observedSequence P identity collection publicKey⟩

end PolycentricClient

/-! ### Building and committing -/

/-- What a new event is made from: the current key pair, the content and the time. -/
structure Draft where
  signer : PublicKey
  contentBytes : Bytes
  createdAt : UInt64
  deriving DecidableEq, Repr

namespace Draft

variable (draft : Draft)

def contentDigest : ContentDigest :=
  ⟨contentDigestTypeSha256, (P.sha256 draft.contentBytes).val⟩

/-- The document that an identity event publishes. -/
def identityContent (collection : Int32) : Option Identity :=
  if collection = Collections.identity then do
    let content ← (P.decodeContent draft.contentBytes).toOption
    match ← content.contentBody with
    | .identity document => return document
    | _ => none
  else none

end Draft

/-- Errors of `buildEvent`: its own, and those of the core. -/
inductive BuildError where
  | message (text : String)
  | core (error : CoreError)
  deriving DecidableEq, Repr

namespace PolycentricClient

variable (client : PolycentricClient) (identity : String) (collection : Int32)

/-- The identity sequence that a new event refers to. -/
def identitySequenceFor (draft : Draft) : Option UInt64 :=
  if collection = Collections.identity then some (client.nextSequence P identity collection)
  else client.getIdentitySequence identity draft.signer

/-- Build an event with the current key pair and identity. -/
def buildEvent (draft : Draft) : Except BuildError Event := do
  let sequence := client.nextSequence P identity collection
  let identitySequence := (client.identitySequenceFor P identity collection draft).getD 0
  ensure (identitySequence != 0) (.message
    "Cannot build event: current keypair has no identity event for the active identity (broken pairing?)")
  let clock ← (client.buildVectorClock P identity collection identitySequence draft.signer sequence
    (draft.identityContent P collection)).mapError .core
  return {
    key := some ⟨collection, identity, some draft.signer, sequence⟩
    identitySequence := identitySequence
    vectorClock := some clock
    previousSignature := client.previousSignature P identity collection
    contentDigest := some (draft.contentDigest P)
    createdAt := draft.createdAt
    previousRoot := client.previousRoot P identity collection }

/-- The event of a new identity. -/
def bootstrapEvent (draft : Draft) : Event where
  key := some ⟨Collections.identity, identity, some draft.signer, 1⟩
  identitySequence := 1
  vectorClock := some ⟨[1]⟩
  previousSignature := []
  contentDigest := some (draft.contentDigest P)
  createdAt := draft.createdAt
  previousRoot := []

/-- Copy a signed event and its content into the stores. -/
def commitEvent (signed : SignedEvent) (contentBytes : Bytes) : PolycentricClient :=
  match signed.open P with
  | .error _ => client
  | .ok event =>
      let client := (client.copyEvent P signed).2
      match event.contentDigest with
      | some digest => (client.copyContent P digest contentBytes).2
      | none => client

end PolycentricClient

/-! ### Streams of the store -/

def EventKey.signer (key : EventKey) : PublicKey := ⟨key.signedByKeyType, key.signedByKey⟩

/-- Signers and sequences of the stored events of a collection. -/
def PolycentricClient.streamLog (client : PolycentricClient) (identity : String)
    (collection : Int32) : List (PublicKey × ℕ) :=
  (client.eventStore.byIdentityAndCollection identity collection).map fun entry =>
    (entry.1.signer, entry.1.sequence.toNat)

variable {P}

namespace EventKey

/-- The part of the order that comes before the sequence. -/
def cmpWriter (a b : EventKey) : Ordering :=
  (compare a.identity b.identity).then <|
    (compare a.collection b.collection).then <|
      (compare a.signedByKeyType b.signedByKeyType).then <| compare a.signedByKey b.signedByKey

instance : Std.TransCmp cmpWriter :=
  inferInstanceAs (Std.TransCmp (compareLex (compareOn EventKey.identity)
    (compareLex (compareOn EventKey.collection) (compareLex (compareOn EventKey.signedByKeyType)
      (compareOn EventKey.signedByKey)))))

theorem cmp_eq_cmpWriter (a b : EventKey) :
    a.cmp b = (a.cmpWriter b).then (compare a.sequence b.sequence) := by
  simp only [cmp, cmpWriter, Ordering.then_assoc]

theorem cmpWriter_eq_iff {a b : EventKey} : a.cmpWriter b = .eq ↔
    a.identity = b.identity ∧ a.collection = b.collection ∧ a.signer = b.signer := by
  simp [cmpWriter, signer, Ordering.then_eq_eq, Std.LawfulEqCmp.compare_eq_iff_eq]

/-- Between two keys of a stream there are keys of that stream only. -/
theorem between_iff {identity : String} {collection : Int32} {publicKey : PublicKey}
    {low high : UInt64} {key : EventKey} :
    (cmp ⟨identity, collection, publicKey.keyType, publicKey.key, low⟩ key = .lt ∧
      key.cmp ⟨identity, collection, publicKey.keyType, publicKey.key, high⟩ ≠ .gt) ↔
    (key.identity = identity ∧ key.collection = collection ∧ key.signer = publicKey) ∧
      low < key.sequence ∧ key.sequence ≤ high := by
  let start : EventKey := ⟨identity, collection, publicKey.keyType, publicKey.key, low⟩
  let stop : EventKey := ⟨identity, collection, publicKey.keyType, publicKey.key, high⟩
  show (start.cmp key = .lt ∧ key.cmp stop ≠ .gt) ↔ _
  have hStream : start.cmpWriter key = .eq ↔
      key.identity = identity ∧ key.collection = collection ∧ key.signer = publicKey := by
    rw [cmpWriter_eq_iff]
    exact and_congr eq_comm (and_congr eq_comm eq_comm)
  have hStop : key.cmpWriter stop = key.cmpWriter start := rfl
  rw [← hStream, cmp_eq_cmpWriter, cmp_eq_cmpWriter, hStop]
  have hSwap : key.cmpWriter start = (start.cmpWriter key).swap := Std.OrientedCmp.eq_swap
  rw [hSwap]
  cases start.cmpWriter key with
  | lt => simp
  | gt => simp
  | eq =>
      simp only [Ordering.swap_eq, Ordering.eq_then, true_and]
      exact and_congr Std.compare_eq_lt
        (Ordering.isLE_iff_ne_gt.symm.trans Std.isLE_compare)

end EventKey

namespace EventStore

variable {store : EventStore} {identity : String} {collection : Int32}
  {entry : EventKey × SignedEvent}

theorem mem_byIdentityAndCollection :
    entry ∈ store.byIdentityAndCollection identity collection ↔ entry ∈ store.entries ∧
      entry.1.identity = identity ∧ entry.1.collection = collection := by
  rw [byIdentityAndCollection_eq_filter, List.mem_filter, Bool.and_eq_true, beq_iff_eq, beq_iff_eq]

theorem mem_byIdentityCollectionSigner {publicKey : PublicKey} {sequenceGt : UInt64} :
    entry ∈ store.byIdentityCollectionSigner identity collection publicKey.keyType publicKey.key
      sequenceGt ↔
    entry ∈ store.byIdentityAndCollection identity collection ∧ entry.1.signer = publicKey ∧
      sequenceGt < entry.1.sequence := by
  unfold byIdentityCollectionSigner KeyMap.range
  have hMax : entry.1.sequence ≤ 0xffffffffffffffff :=
    UInt64.le_iff_toNat_le.mpr (Nat.le_of_lt_succ entry.1.sequence.toNat_lt)
  rw [List.mem_filter, Bool.and_eq_true, beq_iff_eq, bne_iff_ne, EventKey.between_iff,
    mem_byIdentityAndCollection]
  constructor
  · rintro ⟨hMem, ⟨hIdentity, hCollection, hSigner⟩, hLow, -⟩
    exact ⟨⟨hMem, hIdentity, hCollection⟩, hSigner, hLow⟩
  · rintro ⟨⟨hMem, hIdentity, hCollection⟩, hSigner, hLow⟩
    exact ⟨hMem, ⟨hIdentity, hCollection, hSigner⟩, hLow, hMax⟩

/-- The stream of a signer is in ascending order of its sequences. -/
theorem byIdentityCollectionSigner_ascending (publicKey : PublicKey) (sequenceGt : UInt64) :
    (store.byIdentityCollectionSigner identity collection publicKey.keyType publicKey.key
      sequenceGt).Pairwise fun a b => a.1.sequence < b.1.sequence := by
  have hSorted : (store.byIdentityCollectionSigner identity collection publicKey.keyType
      publicKey.key sequenceGt).Pairwise fun a b => a.1.cmp b.1 = .lt :=
    store.sorted.sublist List.filter_sublist
  apply hSorted.imp_of_mem
  intro a b hA hB hLt
  obtain ⟨hAStream, hASigner, -⟩ := mem_byIdentityCollectionSigner.mp hA
  obtain ⟨hBStream, hBSigner, -⟩ := mem_byIdentityCollectionSigner.mp hB
  obtain ⟨-, hAIdentity, hACollection⟩ := mem_byIdentityAndCollection.mp hAStream
  obtain ⟨-, hBIdentity, hBCollection⟩ := mem_byIdentityAndCollection.mp hBStream
  have hSame : a.1.cmpWriter b.1 = .eq := EventKey.cmpWriter_eq_iff.mpr
    ⟨hAIdentity.trans hBIdentity.symm, hACollection.trans hBCollection.symm,
      hASigner.trans hBSigner.symm⟩
  rw [EventKey.cmp_eq_cmpWriter, hSame, Ordering.eq_then] at hLt
  exact Std.compare_eq_lt.mp hLt

/-- A new event is one more entry of its collection. -/
theorem perm_byIdentityAndCollection_insert {key : EventKey} (hNew : store.get key = none)
    (hKey : key.identity = identity ∧ key.collection = collection) (signed : SignedEvent) :
    (byIdentityAndCollection (store.insert key signed) identity collection).Perm
      ((key, signed) :: store.byIdentityAndCollection identity collection) := by
  rw [byIdentityAndCollection_eq_filter, byIdentityAndCollection_eq_filter]
  have hPerm : (store.insert key signed).entries.Perm ((key, signed) :: store.entries) :=
    perm_insertEntry hNew signed
  have hFiltered := hPerm.filter fun entry =>
    entry.1.identity == identity && entry.1.collection == collection
  rwa [List.filter_cons_of_pos (by simp [hKey.1, hKey.2])] at hFiltered

end EventStore

/-- Searching an ascending list from its end finds the greatest. -/
theorem find?_reverse_ge {α : Type} {r : α → α → Prop} {p : α → Bool} {l : List α}
    (hSorted : l.Pairwise r) {a b : α} (hFound : l.reverse.find? p = some b) (ha : a ∈ l)
    (hp : p a = true) : a = b ∨ r a b := by
  induction l with
  | nil => cases ha
  | cons c rest ih =>
      obtain ⟨hFirst, hRest⟩ := List.pairwise_cons.mp hSorted
      rw [List.reverse_cons, List.find?_append] at hFound
      cases hFoundRest : rest.reverse.find? p with
      | some d =>
          rw [hFoundRest] at hFound
          obtain rfl : d = b := Option.some.inj hFound
          have hMem : d ∈ rest := List.mem_reverse.mp (List.mem_of_find?_eq_some hFoundRest)
          rcases List.mem_cons.mp ha with rfl | hTail
          · exact Or.inr (hFirst d hMem)
          · exact ih hRest hFoundRest hTail
      | none =>
          rcases List.mem_cons.mp ha with rfl | hTail
          · rw [hFoundRest] at hFound
            simp only [Option.none_or, List.find?_singleton, hp, if_true, Option.some.injEq] at hFound
            exact Or.inl hFound
          · have hNone := List.find?_eq_none.mp hFoundRest a (List.mem_reverse.mpr hTail)
            exact absurd hp hNone

/-! ### The sequence and the clock of a new event -/

instance lawfulOrderMax_uint64 : Std.LawfulOrderMax UInt64 where
  max_le_iff a b c := by
    show (if a ≤ b then b else a) ≤ c ↔ _
    split
    · next hLe => exact ⟨fun h => ⟨UInt64.le_trans hLe h, h⟩, And.right⟩
    · next hLe =>
        have hLt : b < a := UInt64.not_le.mp hLe
        exact ⟨fun h => ⟨h, UInt64.le_trans (UInt64.le_of_lt hLt) h⟩, And.left⟩
  max_eq_or a b := by
    show (if a ≤ b then b else a) = a ∨ (if a ≤ b then b else a) = b
    split
    · exact Or.inr rfl
    · exact Or.inl rfl

namespace PolycentricClient

variable {client : PolycentricClient} {identity : String} {collection : Int32}

/-- The next sequence is above that of every validated event, as long as none has
the greatest 64-bit sequence. -/
theorem lt_nextSequence
    (hFits : ∀ entry ∈ client.eventStore.byIdentityAndCollection identity collection,
      entry.1.sequence.toNat + 1 < 2 ^ 64)
    {entry : EventKey × SignedEvent}
    (hEntry : entry ∈ client.eventStore.byIdentityAndCollection identity collection)
    (hValid : client.isValid P entry) :
    entry.1.sequence.toNat < (client.nextSequence P identity collection).toNat := by
  unfold nextSequence
  dsimp only
  split
  · next sequence hMax =>
      obtain ⟨hMem, hLe⟩ := List.max?_eq_some_iff.mp hMax
      obtain ⟨greatest, hGreatest, rfl⟩ := List.mem_map.mp hMem
      have hBound := hFits greatest (List.mem_filter.mp hGreatest).1
      have hAbove := UInt64.le_iff_toNat_le.mp
        (hLe entry.1.sequence (List.mem_map.mpr ⟨entry, List.mem_filter.mpr ⟨hEntry, hValid⟩, rfl⟩))
      rw [UInt64.toNat_add]
      have hOne : UInt64.toNat 1 = 1 := rfl
      rw [hOne, Nat.mod_eq_of_lt hBound]
      omega
  · next hNone =>
      rw [List.max?_eq_none_iff, List.map_eq_nil_iff, List.filter_eq_nil_iff] at hNone
      exact absurd hValid (hNone entry hEntry)

theorem nextSequence_pos
    (hFits : ∀ entry ∈ client.eventStore.byIdentityAndCollection identity collection,
      entry.1.sequence.toNat + 1 < 2 ^ 64) :
    0 < (client.nextSequence P identity collection).toNat := by
  by_cases hValid : ∃ entry ∈ client.eventStore.byIdentityAndCollection identity collection,
      client.isValid P entry
  · obtain ⟨entry, hEntry, hValid⟩ := hValid
    exact Nat.zero_lt_of_lt (lt_nextSequence hFits hEntry hValid)
  · have hNone : (client.eventStore.byIdentityAndCollection identity collection).filter
        (client.isValid P) = [] := by
      rw [List.filter_eq_nil_iff]
      intro entry hEntry hEntryValid
      exact hValid ⟨entry, hEntry, hEntryValid⟩
    unfold nextSequence
    rw [hNone]
    exact Nat.one_pos

/-- It is one above that of some event, or 1. -/
theorem nextSequence_le {bound : ℕ} (hOne : 1 ≤ bound)
    (hBound : ∀ entry ∈ client.eventStore.byIdentityAndCollection identity collection,
      entry.1.sequence.toNat + 1 ≤ bound) :
    (client.nextSequence P identity collection).toNat ≤ bound := by
  unfold nextSequence
  dsimp only
  split
  · next sequence hMax =>
      obtain ⟨hMem, -⟩ := List.max?_eq_some_iff.mp hMax
      obtain ⟨greatest, hGreatest, rfl⟩ := List.mem_map.mp hMem
      have hLe := hBound greatest (List.mem_filter.mp hGreatest).1
      rw [UInt64.toNat_add]
      exact (Nat.mod_le _ _).trans hLe
  · exact hOne

theorem mem_streamLog {signer : PublicKey} {n : ℕ} :
    (signer, n) ∈ client.streamLog identity collection ↔
      ∃ entry ∈ client.eventStore.byIdentityAndCollection identity collection,
        entry.1.signer = signer ∧ entry.1.sequence.toNat = n := by
  simp [streamLog]

theorem observedSequence_le (publicKey : PublicKey) :
    (client.observedSequence P identity collection publicKey).toNat ≤
      highest (client.streamLog identity collection) publicKey := by
  unfold observedSequence
  cases hFound : List.find? (client.isValid P) (EventStore.byIdentityCollectionSigner
      client.eventStore identity collection publicKey.keyType publicKey.key 0).reverse with
  | none => exact Nat.zero_le _
  | some entry =>
      have hMem := List.mem_reverse.mp (List.mem_of_find?_eq_some hFound)
      obtain ⟨hStored, hSigner, -⟩ := EventStore.mem_byIdentityCollectionSigner.mp hMem
      exact le_highest (mem_streamLog.mpr ⟨entry, hStored, hSigner, rfl⟩)

theorem le_observedSequence {entry : EventKey × SignedEvent}
    (hEntry : entry ∈ client.eventStore.byIdentityAndCollection identity collection)
    (hValid : client.isValid P entry) :
    entry.1.sequence ≤ client.observedSequence P identity collection entry.1.signer := by
  by_cases hZero : entry.1.sequence = 0
  · rw [hZero]
    exact UInt64.zero_le
  · have hMem : entry ∈ client.eventStore.byIdentityCollectionSigner identity collection
        entry.1.signer.keyType entry.1.signer.key 0 :=
      EventStore.mem_byIdentityCollectionSigner.mpr ⟨hEntry, rfl, UInt64.pos_iff_ne_zero.mpr hZero⟩
    unfold observedSequence
    cases hFound : List.find? (client.isValid P) (EventStore.byIdentityCollectionSigner
        client.eventStore identity collection entry.1.signer.keyType entry.1.signer.key 0).reverse with
    | none => exact absurd hValid (List.find?_eq_none.mp hFound entry (List.mem_reverse.mpr hMem))
    | some latest =>
        rcases find?_reverse_ge (EventStore.byIdentityCollectionSigner_ascending _ _) hFound hMem
          hValid with rfl | hLt
        · exact UInt64.le_refl _
        · exact UInt64.le_of_lt hLt

end PolycentricClient

/-- The sum of a clock, without overflow. -/
def clockTotal (event : Event) : ℕ :=
  ((event.vectorClock.map fun clock => (clock.sequence.map UInt64.toNat).sum)).getD 0

theorem toNat_sum (l : List UInt64) : l.sum.toNat = (l.map UInt64.toNat).sum % 2 ^ 64 := by
  induction l with
  | nil => rfl
  | cons a rest ih =>
      rw [List.sum_cons, UInt64.toNat_add, ih, List.map_cons, List.sum_cons]
      omega

end Polycentric.Client
