import Polycentric.Client.SelfBuilt
import Polycentric.Merkle.Inclusion

/-! What an event that does not validate changes for the events that the client
builds next. Anyone may bring such an event: copying checks its signature only. -/
namespace Polycentric.Client

open Proto Result SortedEntries

variable (P : Primitives)

/-- The two clients build alike in the collection, and list the same events. -/
structure BuildAlike (a b : PolycentricClient) (identity : String) (collection : Int32) : Prop where
  nextSequence : a.nextSequence P identity collection = b.nextSequence P identity collection
  clock : ∀ identitySequence signer sequence content,
    a.buildVectorClock P identity collection identitySequence signer sequence content =
      b.buildVectorClock P identity collection identitySequence signer sequence content
  root : a.previousRoot P identity collection = b.previousRoot P identity collection
  signature : a.previousSignature P identity collection = b.previousSignature P identity collection
  valid : a.listValidEvents P identity collection = b.listValidEvents P identity collection

section Inserted

variable {P} {client : PolycentricClient} {signed : SignedEvent} {key : EventKey}

/-- A client that stored one event more. -/
structure StoredEvent (client : PolycentricClient) (key : EventKey) (signed : SignedEvent)
    (client' : PolycentricClient) : Prop where
  events : client'.eventStore = client.eventStore.insert key signed
  proofs : client'.eventProofsStore = client.eventProofsStore
  contents : client'.contentStore = client.contentStore
  metadata : client'.metaStore = client.metaStore

theorem copyEvent_storedEvent (hKey : EventKey.fromSignedEvent P signed = .ok key)
    (hNew : client.eventStore.get key = none) :
    StoredEvent client key signed (client.copyEvent P signed).2 := by
  have hCopied := eventCopied (P := P) client signed
  generalize (client.copyEvent P signed).2 = client' at hCopied ⊢
  cases hCopied with
  | kept hKept =>
      have hSome := hKept key hKey
      rw [hNew] at hSome
      cases hSome
  | inserted key' hKey' _ =>
      obtain rfl := Except.ok.inj (hKey'.symm.trans hKey)
      exact ⟨rfl, rfl, rfl, rfl⟩

/-- An event whose key is taken is not stored. -/
theorem buildAlike_of_kept (hKey : EventKey.fromSignedEvent P signed = .ok key)
    (hTaken : client.eventStore.get key ≠ none) (identity : String) (collection : Int32) :
    BuildAlike P (client.copyEvent P signed).2 client identity collection := by
  have hCopied := eventCopied (P := P) client signed
  generalize (client.copyEvent P signed).2 = client' at hCopied ⊢
  cases hCopied with
  | kept => exact ⟨rfl, fun _ _ _ _ => rfl, rfl, rfl, rfl⟩
  | inserted key' hKey' hNew =>
      obtain rfl := Except.ok.inj (hKey'.symm.trans hKey)
      exact absurd hNew hTaken

variable {client' : PolycentricClient} {identity : String} {collection : Int32}

theorem isValid_congr (hStored : StoredEvent client key signed client')
    (hChains : ∀ identity, client'.identityChain P identity = client.identityChain P identity) :
    client'.isValid P = client.isValid P := by
  funext entry
  unfold PolycentricClient.isValid
  rw [hStored.proofs, Bool.eq_iff_iff, isOk_iff, isOk_iff, Unique.exists_iff, Unique.exists_iff]
  exact validateEvent_ok_congr hChains _ _

/-- A range of the store has the same valid events as before. -/
theorem range_filter_isValid (hStored : StoredEvent client key signed client')
    (hNew : client.eventStore.get key = none) (hInvalid : client.isValid P (key, signed) = false)
    (within : EventKey × SignedEvent → Bool) :
    (client'.eventStore.entries.filter within).filter (client.isValid P) =
      (client.eventStore.entries.filter within).filter (client.isValid P) := by
  rw [List.filter_filter, List.filter_filter, hStored.events]
  refine filter_insertEntry_of_dropped (by rw [hInvalid, Bool.false_and]) ?_
  intro value hMem
  have hGet : client.eventStore.get key = some value :=
    (lookup_eq_some_iff client.eventStore.sorted).mpr hMem
  rw [hNew] at hGet
  cases hGet

theorem byIdentityAndCollection_filter_isValid (hStored : StoredEvent client key signed client')
    (hNew : client.eventStore.get key = none) (hInvalid : client.isValid P (key, signed) = false) :
    (client'.eventStore.byIdentityAndCollection identity collection).filter (client.isValid P) =
      (client.eventStore.byIdentityAndCollection identity collection).filter (client.isValid P) := by
  rw [EventStore.byIdentityAndCollection_eq_filter, EventStore.byIdentityAndCollection_eq_filter]
  exact range_filter_isValid hStored hNew hInvalid _

theorem observedSequence_eq_filter (client : PolycentricClient) (publicKey : PublicKey) :
    client.observedSequence P identity collection publicKey =
      ((((client.eventStore.byIdentityCollectionSigner identity collection publicKey.keyType
        publicKey.key 0).filter (client.isValid P)).getLast?).map fun entry =>
          entry.1.sequence).getD 0 := by
  unfold PolycentricClient.observedSequence
  rw [← List.head?_filter, List.filter_reverse, List.head?_reverse]

/-- Whatever looks at validated events only does not see the event. -/
theorem invalid_event_unseen (hStored : StoredEvent client key signed client')
    (hChains : ∀ identity, client'.identityChain P identity = client.identityChain P identity)
    (hNew : client.eventStore.get key = none) (hInvalid : client.isValid P (key, signed) = false) :
    client'.nextSequence P identity collection = client.nextSequence P identity collection ∧
      (∀ identitySequence signer sequence content,
        client'.buildVectorClock P identity collection identitySequence signer sequence content =
          client.buildVectorClock P identity collection identitySequence signer sequence content) ∧
      client'.listValidEvents P identity collection =
        client.listValidEvents P identity collection := by
  have hValid := isValid_congr hStored hChains
  have hStream : (client'.eventStore.byIdentityAndCollection identity collection).filter
      (client.isValid P) = (client.eventStore.byIdentityAndCollection identity collection).filter
        (client.isValid P) := byIdentityAndCollection_filter_isValid hStored hNew hInvalid
  refine ⟨?_, ?_, ?_⟩
  · unfold PolycentricClient.nextSequence
    rw [hValid, hStream]
  · intro identitySequence signer sequence content
    have hDocument : client'.clockDocument P identity identitySequence content =
        client.clockDocument P identity identitySequence content := by
      unfold PolycentricClient.clockDocument
      rw [hChains]
    have hObserved : client'.observedSequence P identity collection =
        client.observedSequence P identity collection := by
      funext publicKey
      rw [observedSequence_eq_filter, observedSequence_eq_filter, hValid]
      unfold EventStore.byIdentityCollectionSigner KeyMap.range
      rw [range_filter_isValid hStored hNew hInvalid]
    unfold PolycentricClient.buildVectorClock
    rw [hDocument, hObserved]
  · have hListed : (fun entry : EventKey × SignedEvent =>
        (client'.validateEvent P entry.2 (client'.eventProofsStore.get entry.1)).isOk) =
        client.isValid P := hValid
    have hBundle : client'.bundleFor P = client.bundleFor P := by
      funext key signed includeProofs
      simp only [PolycentricClient.bundleFor, hStored.proofs, hStored.contents, hStored.metadata]
    rw [listValidEvents_eq, listValidEvents_eq, hListed, hStream, hBundle]
    rfl

/-- The canonical list of its own stream gains a signature. -/
theorem length_canonicalSignatures (hStored : StoredEvent client key signed client')
    (hKey : EventKey.fromSignedEvent P signed = .ok key) (hNew : client.eventStore.get key = none) :
    (client'.canonicalSignatures P key.identity key.collection).length =
      (client.canonicalSignatures P key.identity key.collection).length + 1 := by
  have hDecodes : ∃ event, P.decodeEvent signed.eventBytes = .ok event := by
    simp only [EventKey.fromSignedEvent, bind_eq_ok_iff, mapError_eq_ok_iff] at hKey
    obtain ⟨event, hDecoded, -⟩ := hKey
    exact ⟨event, hDecoded⟩
  obtain ⟨event, hDecoded⟩ := hDecodes
  have hPerm := EventStore.perm_byIdentityAndCollection_insert hNew ⟨rfl, rfl⟩ signed
  rw [← hStored.events] at hPerm
  have hKeys := (hPerm.map fun entry => (entry.2.eventBytes, entry.2.signature)).filterMap
    fun item => canonicalKey P item.1 item.2
  rw [List.map_cons, List.filterMap_cons, canonicalKey_eq_some hDecoded] at hKeys
  unfold PolycentricClient.canonicalSignatures Polycentric.canonicalSignatures
  rw [List.length_map, List.length_map, List.length_insertionSort, List.length_insertionSort,
    hKeys.length_eq, List.length_cons]

end Inserted

variable {P}

/-- Different leaves have different roots. -/
theorem rootOf_injective {first second : List Bytes}
    (hCollisionFree : Set.InjOn P.sha256
      {input | input ∈ treeInputs P first ∨ input ∈ treeInputs P second})
    (h : rootOf P first = rootOf P second) : first = second := by
  have hRoot : ∀ leaves, leaves ≠ [] → rootOf P leaves = (mth P leaves).val := by
    intro leaves hLeaves
    have hTree : merkleTreeHash P leaves = some (mth P leaves) :=
      (merkleTreeHash_eq_some_iff P).mpr ⟨hLeaves, rfl⟩
    rw [rootOf, hTree]
    rfl
  have hNil : ∀ leaves, leaves ≠ [] → rootOf P leaves ≠ rootOf P [] := by
    intro leaves hLeaves hEq
    have hLength := congrArg List.length hEq
    rw [hRoot leaves hLeaves, (mth P leaves).property] at hLength
    cases hLength
  by_cases hFirst : first = []
  · subst hFirst
    by_contra hNe
    exact hNil second (Ne.symm hNe) h.symm
  · by_cases hSecond : second = []
    · subst hSecond
      exact absurd h (hNil first hFirst)
    · rw [hRoot first hFirst, hRoot second hSecond] at h
      exact mth_injective P hFirst hSecond hCollisionFree (Subtype.ext h)

variable (P)

/-- Inserting an event that does not validate never changes the next sequence, the
clock or the list of valid events. It leaves the root and the previous signature
as they were exactly if its key is taken: any other event enters the root. -/
theorem invalid_event_inert_iff (client : PolycentricClient) (signed : SignedEvent) (key : EventKey)
    (hKey : EventKey.fromSignedEvent P signed = .ok key)
    (hCollection : key.collection ≠ Collections.identity)
    (hInvalid : client.validateEvent P signed (client.eventProofsStore.get key) ≠ .ok ())
    (hCollisionFree : Set.InjOn P.sha256 {input |
      input ∈ treeInputs P
        ((client.copyEvent P signed).2.canonicalSignatures P key.identity key.collection) ∨
      input ∈ treeInputs P (client.canonicalSignatures P key.identity key.collection)}) :
    ((client.copyEvent P signed).2.nextSequence P key.identity key.collection =
        client.nextSequence P key.identity key.collection ∧
      (∀ identitySequence signer sequence content,
        (client.copyEvent P signed).2.buildVectorClock P key.identity key.collection identitySequence
            signer sequence content =
          client.buildVectorClock P key.identity key.collection identitySequence signer sequence
            content) ∧
      (client.copyEvent P signed).2.listValidEvents P key.identity key.collection =
        client.listValidEvents P key.identity key.collection) ∧
    (BuildAlike P (client.copyEvent P signed).2 client key.identity key.collection ↔
      client.eventStore.get key ≠ none) := by
  by_cases hNew : client.eventStore.get key = none
  · have hStored := copyEvent_storedEvent hKey hNew
    have hChains : ∀ identity, (client.copyEvent P signed).2.identityChain P identity =
        client.identityChain P identity := by
      apply identityChain_copyEvent
      intro key' hKey'
      rwa [← Except.ok.inj (hKey.symm.trans hKey')]
    have hNotValid : client.isValid P (key, signed) = false := by
      rw [Bool.eq_false_iff]
      intro hOk
      obtain ⟨⟨⟩, hValid⟩ := isOk_iff.mp hOk
      exact hInvalid hValid
    refine ⟨invalid_event_unseen hStored hChains hNew hNotValid, ?_⟩
    refine iff_of_false (fun hAlike => ?_) (not_not_intro hNew)
    have hSame := rootOf_injective hCollisionFree hAlike.root
    have hLength := length_canonicalSignatures hStored hKey hNew
    rw [hSame] at hLength
    omega
  · have hAlike := buildAlike_of_kept hKey hNew key.identity key.collection
    exact ⟨⟨hAlike.nextSequence, hAlike.clock, hAlike.valid⟩, iff_of_true hAlike hNew⟩

end Polycentric.Client

namespace Polycentric.TableInstance

open Client Proto

/-- The key of a post that `key 9` signs, which the identity never authorised. -/
def strangerKey : Client.EventKey :=
  ⟨forkIdentity, Collections.feed, keyTypeEd25519, (key 9).key, 1⟩

/-- The posts of `key 1` before and after the post of `key 9` arrived. -/
def strangerInputs : List Bytes :=
  treeInputs forkPrimitives ((forkedClient.copyEvent forkPrimitives (forkSigned 7 (key 9))).2
      |>.canonicalSignatures forkPrimitives forkIdentity Collections.feed) ++
    treeInputs forkPrimitives
      (forkedClient.canonicalSignatures forkPrimitives forkIdentity Collections.feed)

end Polycentric.TableInstance

namespace Polycentric.Client

open TableInstance

/-- The post of the stranger changes neither the next sequence nor the list. -/
theorem invalid_event_inert_stranger :
    (forkedClient.copyEvent forkPrimitives (forkSigned 7 (key 9))).2.nextSequence forkPrimitives
        forkIdentity Collections.feed =
      forkedClient.nextSequence forkPrimitives forkIdentity Collections.feed ∧
    (forkedClient.copyEvent forkPrimitives (forkSigned 7 (key 9))).2.listValidEvents forkPrimitives
        forkIdentity Collections.feed =
      forkedClient.listValidEvents forkPrimitives forkIdentity Collections.feed := by
  have hApart : ∀ a ∈ strangerInputs, ∀ b ∈ strangerInputs, digest a = digest b → a = b := by
    decide +kernel
  obtain ⟨⟨hSequence, -, hList⟩, -⟩ := invalid_event_inert_iff forkPrimitives forkedClient
    (forkSigned 7 (key 9)) strangerKey (by decide +kernel) (by decide) (by decide +kernel)
    (fun a ha b hb h => hApart a (List.mem_append.mpr ha) b (List.mem_append.mpr hb) h)
  exact ⟨hSequence, hList⟩

/-- The post is correctly signed and does not validate, and the next post is built
over another root. -/
theorem invalid_event_changes_root :
    ((forkSigned 7 (key 9)).open forkPrimitives).isOk = true ∧
      forkedClient.validateEvent forkPrimitives (forkSigned 7 (key 9)) [] ≠ .ok () ∧
      ¬BuildAlike forkPrimitives (forkedClient.copyEvent forkPrimitives (forkSigned 7 (key 9))).2
        forkedClient forkIdentity Collections.feed := by
  refine ⟨by decide +kernel, by decide +kernel, fun h => ?_⟩
  have hRoot : (forkedClient.copyEvent forkPrimitives (forkSigned 7 (key 9))).2.previousRoot
        forkPrimitives forkIdentity Collections.feed ≠
      forkedClient.previousRoot forkPrimitives forkIdentity Collections.feed := by
    decide +kernel
  exact hRoot h.root

end Polycentric.Client
