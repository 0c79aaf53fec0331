import Polycentric.Client.Blocks
import Polycentric.Library.Memo
import Polycentric.Library.SortedEntries

/-! Copying events, contents and bundles into the stores of a client, and the
caches that are filled by reading and dropped by copying. -/
namespace Polycentric.Client

open Proto Result Memo SortedEntries

variable (P : Primitives)

/-! ### The stores -/

instance : Std.TransCmp EventKey.cmp :=
  inferInstanceAs (Std.TransCmp (compareLex (compareOn EventKey.identity)
    (compareLex (compareOn EventKey.collection) (compareLex (compareOn EventKey.signedByKeyType)
      (compareLex (compareOn EventKey.signedByKey) (compareOn EventKey.sequence))))))

instance : Std.LawfulEqCmp EventKey.cmp where
  eq_of_compare {a b} h := by
    simp only [EventKey.cmp, Ordering.then_eq_eq, Std.LawfulEqCmp.compare_eq_iff_eq] at h
    obtain ⟨hIdentity, hCollection, hType, hKey, hSequence⟩ := h
    cases a
    cases b
    simp_all

namespace KeyMap

variable {α : Type}

/-- `BTreeMap::insert`: an entry of the key is replaced. -/
def insert (map : KeyMap α) (key : EventKey) (value : α) : KeyMap α :=
  ⟨insertEntry EventKey.cmp key value map.entries, Sorted.insertEntry map.sorted key value⟩

theorem get_insert (map : KeyMap α) (key : EventKey) (value : α) (key' : EventKey) :
    (map.insert key value).get key' = if key' = key then some value else map.get key' :=
  lookup_insertEntry key value key'

theorem ext_get {a b : KeyMap α} (h : ∀ key, a.get key = b.get key) : a = b := by
  cases a with
  | mk entries₁ sorted₁ =>
      cases b with
      | mk entries₂ sorted₂ =>
          obtain rfl : entries₁ = entries₂ := eq_of_lookup_eq sorted₁ sorted₂ h
          rfl

end KeyMap

/-! ### Ranges of the event store -/

namespace EventKey

/-- The part of the order that compares identity and collection. -/
def cmpStream (a b : EventKey) : Ordering :=
  (compare a.identity b.identity).then (compare a.collection b.collection)

instance : Std.TransCmp cmpStream :=
  inferInstanceAs (Std.TransCmp (compareLex (compareOn EventKey.identity)
    (compareOn EventKey.collection)))

theorem cmp_eq_then (a b : EventKey) :
    a.cmp b = (a.cmpStream b).then ((compare a.signedByKeyType b.signedByKeyType).then
      ((compare a.signedByKey b.signedByKey).then (compare a.sequence b.sequence))) := by
  simp only [cmp, cmpStream, Ordering.then_assoc]

theorem cmpStream_eq_iff {a b : EventKey} :
    a.cmpStream b = .eq ↔ a.identity = b.identity ∧ a.collection = b.collection := by
  simp [cmpStream, Ordering.then_eq_eq, Std.LawfulEqCmp.compare_eq_iff_eq]

theorem cmpStream_isLE {a b : EventKey} (h : (a.cmp b).isLE) : (a.cmpStream b).isLE := by
  rw [cmp_eq_then] at h
  exact Ordering.isLE_left_of_isLE_then h

end EventKey

/-- In a list where the condition fails for good once it fails, the first entries
that meet it are all that do. -/
theorem takeWhile_eq_filter {α : Type} {p : α → Bool} {l : List α}
    (h : l.Pairwise fun a b => p b = true → p a = true) : l.takeWhile p = l.filter p := by
  induction l with
  | nil => rfl
  | cons a rest ih =>
      obtain ⟨hFirst, hRest⟩ := List.pairwise_cons.mp h
      cases hp : p a with
      | true => rw [List.takeWhile_cons_of_pos hp, List.filter_cons_of_pos hp, ih hRest]
      | false =>
          have hNone : rest.filter p = [] := by
            rw [List.filter_eq_nil_iff]
            intro b hb hpb
            rw [hFirst b hb hpb] at hp
            cases hp
          rw [List.takeWhile_cons_of_neg (by simp [hp]), List.filter_cons_of_neg (by simp [hp]), hNone]

namespace EventStore

variable {identity : String} {collection : Int32}

theorem prefixStart_isLE (key : EventKey) :
    ((prefixStart key.identity (some key.collection) none).cmp key).isLE := by
  have hType : (compare Int32.minValue key.signedByKeyType).isLE :=
    Std.isLE_compare.mpr (Int32.minValue_le _)
  have hKey : (compare ([] : Bytes) key.signedByKey).isLE := List.isLE_compare_nil_left
  have hSequence : (compare 0 key.sequence).isLE := Std.isLE_compare.mpr UInt64.zero_le
  simp only [EventKey.cmp, prefixStart, Option.getD_some, Option.map_none, Option.getD_none,
    Std.ReflCmp.compare_self, Ordering.eq_then, Ordering.isLE_then_iff_and]
  exact ⟨hType, Or.inr ⟨hKey, Or.inr hSequence⟩⟩

/-- What comes between the start of a stream and one of its keys is in the stream. -/
theorem stream_between {a b : EventKey} (hStart :
    ((prefixStart identity (some collection) none).cmp a).isLE) (hLt : a.cmp b = .lt)
    (hStream : b.identity = identity ∧ b.collection = collection) :
    a.identity = identity ∧ a.collection = collection := by
  let start := prefixStart identity (some collection) none
  have hFirst : (start.cmpStream a).isLE := EventKey.cmpStream_isLE hStart
  have hSecond : (a.cmpStream b).isLE := EventKey.cmpStream_isLE (by rw [hLt]; rfl)
  have hSame : b.cmpStream start = .eq := EventKey.cmpStream_eq_iff.mpr hStream
  have hBack : (a.cmpStream start).isLE :=
    Std.TransCmp.isLE_trans hSecond (by rw [hSame]; rfl)
  exact EventKey.cmpStream_eq_iff.mp (Std.OrientedCmp.isLE_antisymm hBack hFirst)

/-- The range scan finds the events of the stream. -/
theorem byIdentityAndCollection_eq_filter (store : EventStore) (identity : String)
    (collection : Int32) :
    store.byIdentityAndCollection identity collection =
      store.entries.filter fun entry =>
        entry.1.identity == identity && entry.1.collection == collection := by
  unfold byIdentityAndCollection KeyMap.range
  rw [takeWhile_eq_filter, List.filter_filter]
  · apply List.filter_congr
    intro entry _
    cases hStream : entry.1.identity == identity && entry.1.collection == collection with
    | false => rfl
    | true =>
        rw [Bool.and_eq_true, beq_iff_eq, beq_iff_eq] at hStream
        obtain ⟨rfl, rfl⟩ := hStream
        have hStart := Ordering.isLE_iff_ne_gt.mp (prefixStart_isLE entry.1)
        exact bne_iff_ne.mpr hStart
  · rw [List.pairwise_filter]
    refine store.sorted.imp ?_
    intro a b hLt hStart _ hStream
    rw [Bool.and_eq_true, beq_iff_eq, beq_iff_eq] at hStream ⊢
    exact stream_between (Ordering.isLE_iff_ne_gt.mpr (bne_iff_ne.mp hStart)) hLt hStream

end EventStore

def EventKey.fromSignedEvent (signed : SignedEvent) : Except CoreError EventKey := do
  let event ← (P.decodeEvent signed.eventBytes).mapError fun e =>
    CoreError.invalidEvent s!"Failed to decode event: {e}"
  fromEvent event

/-- Try to insert an event. Nothing changes when its key is already present. -/
def EventStore.insertAt (store : EventStore) (signed : SignedEvent) (key : EventKey) :
    Bool × EventStore :=
  match store.get key with
  | none => (true, store.insert key signed)
  | some _ => (false, store)

namespace ContentStore

variable (store : ContentStore)

/-- Insert content bytes. Nothing changes when the digest is already present. -/
def insert (digest : ContentDigest) (contentBytes : Bytes) : Bool × ContentStore :=
  match store.get digest with
  | none => (true, ⟨(digest, contentBytes) :: store.contents⟩)
  | some _ => (false, store)

def getDecoded (digest : ContentDigest) : Option Content :=
  (store.get digest).bind fun bytes => (P.decodeContent bytes).toOption

end ContentStore

/-- Store proofs for a key. No proofs do not replace those already stored. -/
def EventProofsStore.insert (store : EventProofsStore) (key : EventKey) (proofs : List EventProof) :
    EventProofsStore :=
  if proofs.isEmpty then store else KeyMap.insert store key proofs

/-- Overwrite the stored fields with those that are present. Tallies count as
present if there are any, or if there is a total. -/
def MetaStore.include (store : MetaStore) (key : EventKey) (metadata : EventMetadata) : MetaStore :=
  let stored := (KeyMap.get store key).getD ⟨none, none, none, none, []⟩
  KeyMap.insert store key {
    replyCount := metadata.replyCount.or stored.replyCount
    reactionCount := metadata.reactionCount.or stored.reactionCount
    upvoteCount := metadata.upvoteCount.or stored.upvoteCount
    downvoteCount := metadata.downvoteCount.or stored.downvoteCount
    emojiReactions :=
      if metadata.reactionCount.isSome || !metadata.emojiReactions.isEmpty then
        metadata.emojiReactions
      else stored.emojiReactions }

/-! ### The client -/

namespace PolycentricClient

/-- A client without any data. -/
def new : PolycentricClient where
  activeIdentity := none
  blockedIdentities := none
  eventStore := KeyMap.empty
  eventProofsStore := KeyMap.empty
  contentStore := ⟨[]⟩
  metaStore := KeyMap.empty
  chains := []

variable (client : PolycentricClient)

def setActiveIdentity (identity : Option String) : PolycentricClient :=
  { client with activeIdentity := identity, blockedIdentities := none }

/-- Copy a signed event into the event store. A new identity event drops the
cached chain of its identity. -/
def copyEvent (signed : SignedEvent) : Except CoreError Unit × PolycentricClient :=
  let client := { client with blockedIdentities := none }
  match EventKey.fromSignedEvent P signed with
  | .error e => (.error e, client)
  | .ok key =>
      let (inserted, eventStore) := client.eventStore.insertAt signed key
      let client := { client with eventStore := eventStore }
      if inserted && key.collection == Collections.identity then
        (.ok (), { client with chains := Table.remove client.chains key.identity })
      else (.ok (), client)

/-- Copy content bytes that hash to the digest. A new identity document drops all
cached chains. -/
def copyContent (digest : ContentDigest) (contentBytes : Bytes) :
    Except CoreError Unit × PolycentricClient :=
  if (digest.verifyAgainst P contentBytes).isOk then
    let client := { client with blockedIdentities := none }
    match client.contentStore.insert digest contentBytes with
    | (false, _) => (.ok (), client)
    | (true, contentStore) =>
        let client := { client with contentStore := contentStore }
        match (contentStore.getDecoded P digest).bind Content.contentBody with
        | some (.identity _) => (.ok (), { client with chains := [] })
        | _ => (.ok (), client)
  else
    (.error (.invalidEvent s!"content does not match digest {hexEncode digest.value}"), client)

def copyMeta (key : EventKey) (metadata : EventMetadata) : PolycentricClient :=
  { client with metaStore := client.metaStore.include key metadata }

/-- The bundles whose event opens, with the event. -/
def openBundles (bundles : List EventBundle) : List (Event × EventBundle) :=
  bundles.filterMap fun bundle => do
    let signed ← bundle.signedEvent
    let event ← (signed.open P).toOption
    return (event, bundle)

/-- Identity events come first, then by sequence. -/
def copyRank (entry : Event × EventBundle) : Nat × UInt64 :=
  let collection := (entry.1.key.map Proto.EventKey.collection).getD Int32.maxValue
  (if collection = Collections.identity then 0 else 1, (entry.1.key.map Proto.EventKey.sequence).getD 0)

/-- Copy the content of a bundle, if it hashes to the digest of the event. -/
def copyBundleContent (event : Event) (bundle : EventBundle) : PolycentricClient :=
  match event.contentDigest, bundle.serializedContent with
  | some digest, some content => (client.copyContent P digest content.contentBytes).2
  | _, _ => client

/-- Store the proofs and the metadata of a bundle. -/
def copyBundleProofs (event : Event) (bundle : EventBundle) : PolycentricClient :=
  match EventKey.fromEvent event with
  | .error _ => client
  | .ok key =>
      let client := { client with
        eventProofsStore := client.eventProofsStore.insert key bundle.eventProofs }
      match bundle.metadata with
      | some metadata => client.copyMeta key metadata
      | none => client

/-- Copy what an opened bundle brings. The event is kept also if its content is
not. -/
def copyBundle (entry : Event × EventBundle) : PolycentricClient :=
  let client := client.copyBundleContent P entry.1 entry.2
  let client := client.copyBundleProofs entry.1 entry.2
  match entry.2.signedEvent with
  | some signed => (client.copyEvent P signed).2
  | none => client

def copyBundles (bundles : List EventBundle) : PolycentricClient :=
  ((openBundles P bundles).insertionSort fun a b =>
    (copyRank a).1 < (copyRank b).1 ∨
      (copyRank a).1 = (copyRank b).1 ∧ (copyRank a).2 ≤ (copyRank b).2).foldl
    (fun client entry => client.copyBundle P entry) client

/-! ### Reading fills the caches -/

/-- The client after `identity_chain`: a chain that resolves is cached. -/
def readChain (identity : String) : PolycentricClient :=
  match client.chains.lookup identity, client.identityChain P identity with
  | none, .ok chain => { client with chains := Table.insert client.chains identity chain }
  | _, _ => client

/-- The identity whose chain the validation of an event asks for. -/
def askedIdentity (signed : SignedEvent) : Option String := do
  let event ← (P.decodeEvent signed.eventBytes).toOption
  let key ← event.key
  let _ ← key.signedBy
  return key.identity

/-- The client after `blocked_identities`: the list is cached, and so are the chains
that the validation of the events asked for. -/
def readBlocked : PolycentricClient :=
  match client.blockedIdentities with
  | some _ => client
  | none =>
      let blocked := client.blocked P
      let client := match client.activeIdentity with
        | none => client
        | some active =>
            ((client.eventStore.byIdentityAndCollection active Collections.socialGraph).filterMap
              fun (entry : EventKey × SignedEvent) => askedIdentity P entry.2).foldl (readChain P) client
      { client with blockedIdentities := some blocked }

end PolycentricClient

/-! ### What copying does -/

/-- What copying an event can do to a client: drop the block list, and, if the
key is new, insert the event. -/
inductive EventCopied (client : PolycentricClient) (signed : SignedEvent) :
    PolycentricClient → Prop where
  | kept (hKept : ∀ key, EventKey.fromSignedEvent P signed = .ok key →
      (client.eventStore.get key).isSome) :
      EventCopied client signed { client with blockedIdentities := none }
  | inserted (key : EventKey) (hKey : EventKey.fromSignedEvent P signed = .ok key)
      (hNew : client.eventStore.get key = none) :
      EventCopied client signed { client with
        blockedIdentities := none
        eventStore := client.eventStore.insert key signed
        chains := if key.collection = Collections.identity then
          Table.remove client.chains key.identity else client.chains }

/-- What copying content can do: nothing if the digest does not match; otherwise
drop the block list, and, if the digest is new, insert the content. -/
inductive ContentCopied (client : PolycentricClient) (digest : ContentDigest)
    (contentBytes : Bytes) : PolycentricClient → Prop where
  | rejected (hDigest : digest.verifyAgainst P contentBytes ≠ .ok ()) :
      ContentCopied client digest contentBytes client
  | kept (hDigest : digest.verifyAgainst P contentBytes = .ok ())
      (hKept : (client.contentStore.get digest).isSome) :
      ContentCopied client digest contentBytes { client with blockedIdentities := none }
  | document (hDigest : digest.verifyAgainst P contentBytes = .ok ())
      (hNew : client.contentStore.get digest = none) :
      ContentCopied client digest contentBytes { client with
        blockedIdentities := none
        contentStore := ⟨(digest, contentBytes) :: client.contentStore.contents⟩
        chains := [] }
  | other (hDigest : digest.verifyAgainst P contentBytes = .ok ())
      (hNew : client.contentStore.get digest = none)
      (hOther : ∀ content, P.decodeContent contentBytes = .ok content →
        ∀ document, content.contentBody ≠ some (.identity document)) :
      ContentCopied client digest contentBytes { client with
        blockedIdentities := none
        contentStore := ⟨(digest, contentBytes) :: client.contentStore.contents⟩ }

section Copied

variable {P}

/-- An event that opens has a key. -/
theorem fromEvent_of_open {signed : SignedEvent} {event : Event} (h : signed.open P = .ok event) :
    ∃ key, EventKey.fromEvent event = .ok key ∧ EventKey.fromSignedEvent P signed = .ok key := by
  unfold SignedEvent.open at h
  cases hDecoded : P.decodeEvent signed.eventBytes with
  | error e => simp [hDecoded] at h
  | ok decoded =>
      have hSigned : EventKey.fromSignedEvent P signed = EventKey.fromEvent decoded := by
        unfold EventKey.fromSignedEvent
        rw [hDecoded]
        rfl
      cases hKey : decoded.key with
      | none => simp [hDecoded, hKey] at h
      | some key =>
          cases hSignedBy : key.signedBy with
          | none => simp [hDecoded, hKey, hSignedBy] at h
          | some signedBy =>
              simp only [hDecoded, hKey, hSignedBy] at h
              split_ifs at h
              obtain rfl := Except.ok.inj h
              have hEvent : EventKey.fromEvent decoded = .ok ⟨key.identity, key.collection,
                  signedBy.keyType, signedBy.key, key.sequence⟩ := by
                simp only [EventKey.fromEvent, hKey, hSignedBy]
                rfl
              exact ⟨_, hEvent, hSigned.trans hEvent⟩

theorem decodeEvent_of_open {signed : SignedEvent} {event : Event} (h : signed.open P = .ok event) :
    P.decodeEvent signed.eventBytes = .ok event := by
  unfold SignedEvent.open at h
  split at h
  · cases h
  · next decoded hDecoded =>
      split at h
      · cases h
      · split at h
        · cases h
        · split_ifs at h
          rw [hDecoded, Except.ok.inj h]

theorem eventCopied (client : PolycentricClient) (signed : SignedEvent) :
    EventCopied P client signed (client.copyEvent P signed).2 := by
  unfold PolycentricClient.copyEvent EventStore.insertAt
  cases hKey : EventKey.fromSignedEvent P signed with
  | error e =>
      apply EventCopied.kept
      intro key hEq
      rw [hKey] at hEq
      cases hEq
  | ok key =>
      dsimp only
      cases hStored : client.eventStore.get key with
      | some stored =>
          apply EventCopied.kept
          intro key' hEq
          rw [hKey] at hEq
          obtain rfl := Except.ok.inj hEq
          rw [hStored]
          rfl
      | none =>
          have hInserted := EventCopied.inserted key hKey hStored
          by_cases hCollection : key.collection = Collections.identity
          · simpa [hCollection] using hInserted
          · simpa [hCollection] using hInserted

theorem contentCopied (client : PolycentricClient) (digest : ContentDigest) (contentBytes : Bytes) :
    ContentCopied P client digest contentBytes (client.copyContent P digest contentBytes).2 := by
  unfold PolycentricClient.copyContent ContentStore.insert
  cases hDigest : digest.verifyAgainst P contentBytes with
  | error e =>
      apply ContentCopied.rejected
      rw [hDigest]
      nofun
  | ok _ =>
      simp only [Except.isOk, Except.toBool, if_true]
      cases hStored : client.contentStore.get digest with
      | some stored => exact ContentCopied.kept hDigest (by rw [hStored]; rfl)
      | none =>
          have hDecoded : ContentStore.getDecoded P
              ⟨(digest, contentBytes) :: client.contentStore.contents⟩ digest =
                (P.decodeContent contentBytes).toOption := by
            simp [ContentStore.getDecoded, ContentStore.get]
          simp only [hDecoded]
          split
          · exact ContentCopied.document hDigest hStored
          · next hOther =>
              refine ContentCopied.other hDigest hStored ?_
              intro content hContent document hBody
              exact hOther document (by simp [hContent, hBody, Except.toOption])

end Copied

end Polycentric.Client
