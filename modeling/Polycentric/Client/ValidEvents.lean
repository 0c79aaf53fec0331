import Polycentric.Client.CacheCoherence
import Polycentric.Client.Writing

/-! What `list_valid_events` returns: the valid events of a collection that no valid
`Delete` in it names. Who signed the `Delete`, and whether it comes first, does not
matter. -/
namespace Polycentric.Client

open Proto Result

variable (P : Primitives)

/-- The store key as a key on the wire. -/
def EventKey.toProto (key : EventKey) : Proto.EventKey where
  collection := key.collection
  identity := key.identity
  signedBy := some ⟨key.signedByKeyType, key.signedByKey⟩
  sequence := key.sequence

namespace PolycentricClient

variable (client : PolycentricClient)

/-- The stored content of an event. -/
def storedContent (signed : SignedEvent) : Option Bytes := do
  let event ← (P.decodeEvent signed.eventBytes).toOption
  client.contentStore.get (← event.contentDigest)

/-- The stored event with everything that is stored for it. -/
def storedBundle (entry : EventKey × SignedEvent) : EventBundle where
  signedEvent := some entry.2
  serializedContent := (client.storedContent P entry.2).map fun bytes => ⟨bytes⟩
  eventProofs := client.eventProofsStore.get entry.1
  metadata := client.metaStore.get entry.1

/-- The stored event carries a `Delete` of the key. -/
def CarriesDelete (entry : EventKey × SignedEvent) (key : EventKey) : Prop :=
  ∃ bytes content, client.storedContent P entry.2 = some bytes ∧
    P.decodeContent bytes = .ok content ∧ content.contentBody = some (.delete (some key.toProto))

/-- A valid stored event of the collection deletes the key. -/
def Tombstoned (identity : String) (collection : Int32) (key : EventKey) : Prop :=
  ∃ entry ∈ client.eventStore.entries, entry.1.identity = identity ∧ entry.1.collection = collection ∧
    client.isValid P entry = true ∧ client.CarriesDelete P entry key

end PolycentricClient

section Listing

variable {P} {client : PolycentricClient} {entry : EventKey × SignedEvent} {key : EventKey}

/-- A valid event decodes, so that its bundle is assembled. -/
theorem bundleFor_of_isValid (h : client.isValid P entry = true) :
    client.bundleFor P entry.1 entry.2 true = .ok (client.storedBundle P entry) := by
  obtain ⟨event, key, hDecoded, -⟩ := validateEvent_isOk h
  unfold PolycentricClient.bundleFor PolycentricClient.storedBundle PolycentricClient.storedContent
  rw [hDecoded]
  rfl

theorem contentBody_storedBundle : contentBody P (client.storedBundle P entry) =
    (client.storedContent P entry.2).bind fun bytes =>
      (P.decodeContent bytes).toOption.bind Content.contentBody := by
  unfold contentBody PolycentricClient.storedBundle
  cases client.storedContent P entry.2 <;> rfl

theorem deleteTarget_eq_some_iff {bundle : EventBundle} :
    deleteTarget P bundle = some key ↔ contentBody P bundle = some (.delete (some key.toProto)) := by
  unfold deleteTarget
  cases contentBody P bundle with
  | none => simp
  | some body =>
      cases body with
      | delete target =>
          cases target with
          | none => simp
          | some target =>
              obtain ⟨collection, identity, signedBy, sequence⟩ := target
              cases signedBy with
              | none => simp [EventKey.toProto]
              | some signer =>
                  obtain ⟨keyType, bytes⟩ := signer
                  cases key
                  simp [EventKey.toProto, and_assoc, and_left_comm]
      | _ => simp

/-- The target of a stored event is the key that its content deletes. -/
theorem deleteTarget_storedBundle :
    deleteTarget P (client.storedBundle P entry) = some key ↔ client.CarriesDelete P entry key := by
  rw [deleteTarget_eq_some_iff, contentBody_storedBundle]
  simp only [PolycentricClient.CarriesDelete, Option.bind_eq_some_iff, toOption_eq_some_iff,
    exists_and_left]

/-- The pairs that the loop gathers are the valid events of the collection. -/
theorem listValidEvents_eq_untombstoned (client : PolycentricClient) (identity : String)
    (collection : Int32) :
    client.listValidEvents P identity collection = .ok (untombstoned P
      (((client.eventStore.byIdentityAndCollection identity collection).filter (client.isValid P)).map
        fun entry => (entry.1, client.storedBundle P entry))) := by
  have hBundles : ∀ entry ∈ (client.eventStore.byIdentityAndCollection identity collection).filter
      (client.isValid P), ((client.bundleFor P entry.1 entry.2 true).map fun bundle => (entry.1, bundle)) =
        .ok (entry.1, client.storedBundle P entry) := by
    intro entry hEntry
    rw [bundleFor_of_isValid (List.mem_filter.mp hEntry).2]
    rfl
  rw [listValidEvents_eq]
  exact congrArg (Except.map (untombstoned P)) (mapM_eq_map hBundles)

/-- The keys that the loop gathers are those that a valid event deletes. -/
theorem mem_tombstones_iff {identity : String} {collection : Int32} :
    key ∈ (((client.eventStore.byIdentityAndCollection identity collection).filter
        (client.isValid P)).map fun entry => (entry.1, client.storedBundle P entry)).filterMap
        (fun entry => deleteTarget P entry.2) ↔
      client.Tombstoned P identity collection key := by
  simp only [List.mem_filterMap, List.mem_map, List.mem_filter, EventStore.mem_byIdentityAndCollection]
  constructor
  · rintro ⟨_, ⟨entry, ⟨⟨hEntry, hIdentity, hCollection⟩, hValid⟩, rfl⟩, hTarget⟩
    exact ⟨entry, hEntry, hIdentity, hCollection, hValid, deleteTarget_storedBundle.mp hTarget⟩
  · rintro ⟨entry, hEntry, hIdentity, hCollection, hValid, hDelete⟩
    exact ⟨_, ⟨entry, ⟨⟨hEntry, hIdentity, hCollection⟩, hValid⟩, rfl⟩,
      deleteTarget_storedBundle.mpr hDelete⟩

end Listing

open Classical in
/-- The listing never fails. It has the stored events of the identity and collection, in
key order, that are valid and that no valid stored event of the two deletes. -/
theorem listValidEvents_exact (client : PolycentricClient) (identity : String) (collection : Int32) :
    client.listValidEvents P identity collection = .ok
      ((client.eventStore.entries.filter fun entry =>
        entry.1.identity = identity ∧ entry.1.collection = collection ∧
          client.isValid P entry = true ∧ ¬client.Tombstoned P identity collection entry.1).map
        (client.storedBundle P)) := by
  rw [listValidEvents_eq_untombstoned, untombstoned, List.filter_map, List.map_map]
  simp only [Function.comp_def, mem_tombstones_iff]
  rw [EventStore.byIdentityAndCollection_eq_filter, List.filter_filter, List.filter_filter]
  congr 2
  apply List.filter_congr
  intro entry _
  rw [Bool.eq_iff_iff]
  simp only [Bool.and_eq_true, decide_eq_true_eq, beq_iff_eq]
  tauto

end Polycentric.Client
