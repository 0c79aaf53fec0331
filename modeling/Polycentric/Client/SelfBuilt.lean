import Polycentric.Client.Writing

/-! The events that a client builds itself: whether the key of the next event is
free, and whether the event validates on the client that built it. -/
namespace Polycentric.Client

open Proto Result Runs SortedEntries

variable (P : Primitives)

/-! ### The key of the next event -/

namespace PolycentricClient

variable (client : PolycentricClient) (identity : String) (collection : Int32)

/-- The store key of the next event of the signer. -/
def nextKey (signer : PublicKey) : EventKey :=
  ⟨identity, collection, signer.keyType, signer.key, client.nextSequence P identity collection⟩

/-- The next key is free, so that the insertion stores the event, and the increment
does not overflow: the next sequence is above every validated one. -/
structure NextKeyFresh (signer : PublicKey) : Prop where
  free : client.eventStore.get (client.nextKey P identity collection signer) = none
  stored : ∀ signed, EventKey.fromSignedEvent P signed =
      .ok (client.nextKey P identity collection signer) →
    (client.copyEvent P signed).2.eventStore.get (client.nextKey P identity collection signer) =
      some signed
  above : ∀ entry ∈ client.eventStore.byIdentityAndCollection identity collection,
    client.isValid P entry = true → entry.1.sequence < client.nextSequence P identity collection

/-- The sequence follows on the validated events of the collection: all of them are
below it, and it is 1 or one of them is directly below. -/
structure FollowsValidated (sequence : UInt64) : Prop where
  below : ∀ entry ∈ client.eventStore.byIdentityAndCollection identity collection,
    client.isValid P entry = true → entry.1.sequence < sequence
  adjacent : sequence = 1 ∨
    ∃ entry ∈ client.eventStore.byIdentityAndCollection identity collection,
      client.isValid P entry = true ∧ entry.1.sequence.toNat + 1 = sequence.toNat

/-- No stored event of the signer that does not validate follows directly on the
validated ones, and no validated event has the greatest sequence. -/
structure TipClear (signer : PublicKey) : Prop where
  invalid : ∀ entry ∈ client.eventStore.byIdentityAndCollection identity collection,
    entry.1.signer = signer → client.isValid P entry = false →
      ¬client.FollowsValidated P identity collection entry.1.sequence
  fits : ∀ entry ∈ client.eventStore.byIdentityAndCollection identity collection,
    client.isValid P entry = true → entry.1.sequence.toNat + 1 < 2 ^ 64

variable {P} {client} {identity} {collection}

theorem FollowsValidated.unique {a b : UInt64} (ha : client.FollowsValidated P identity collection a)
    (hb : client.FollowsValidated P identity collection b) : a = b := by
  rw [← UInt64.toNat_inj]
  rcases ha.adjacent with rfl | ⟨entry, hEntry, hValid, hNext⟩
  · rcases hb.adjacent with rfl | ⟨entry, hEntry, hValid, hNext⟩
    · rfl
    · have hBelow := UInt64.lt_iff_toNat_lt.mp (ha.below entry hEntry hValid)
      have hOne : UInt64.toNat 1 = 1 := rfl
      omega
  · have hBelow := UInt64.lt_iff_toNat_lt.mp (hb.below entry hEntry hValid)
    rcases hb.adjacent with rfl | ⟨other, hOther, hOtherValid, hOtherNext⟩
    · have hOne : UInt64.toNat 1 = 1 := rfl
      omega
    · have hOtherBelow := UInt64.lt_iff_toNat_lt.mp (ha.below other hOther hOtherValid)
      omega

/-- Without overflow, the next sequence follows on the validated events. -/
theorem followsValidated_nextSequence
    (hFits : ∀ entry ∈ client.eventStore.byIdentityAndCollection identity collection,
      client.isValid P entry = true → entry.1.sequence.toNat + 1 < 2 ^ 64) :
    client.FollowsValidated P identity collection (client.nextSequence P identity collection) := by
  unfold nextSequence
  dsimp only
  split
  · next sequence hMax =>
      obtain ⟨hMem, hGreatest⟩ := List.max?_eq_some_iff.mp hMax
      obtain ⟨greatest, hFilter, rfl⟩ := List.mem_map.mp hMem
      obtain ⟨hEntry, hValid⟩ := List.mem_filter.mp hFilter
      have hSucc : (greatest.1.sequence + 1).toNat = greatest.1.sequence.toNat + 1 := by
        rw [UInt64.toNat_add]
        exact Nat.mod_eq_of_lt (hFits greatest hEntry hValid)
      constructor
      · intro entry hOther hOtherValid
        have hLe := UInt64.le_iff_toNat_le.mp (hGreatest entry.1.sequence
          (List.mem_map.mpr ⟨entry, List.mem_filter.mpr ⟨hOther, hOtherValid⟩, rfl⟩))
        rw [UInt64.lt_iff_toNat_lt, hSucc]
        omega
      · exact Or.inr ⟨greatest, hEntry, hValid, hSucc.symm⟩
  · next hNone =>
      rw [List.max?_eq_none_iff, List.map_eq_nil_iff, List.filter_eq_nil_iff] at hNone
      exact ⟨fun entry hEntry hValid => absurd hValid (hNone entry hEntry), Or.inl rfl⟩

/-- The key is taken exactly if an event of the signer has the next sequence. -/
theorem get_nextKey_eq_none_iff {signer : PublicKey} :
    client.eventStore.get (client.nextKey P identity collection signer) = none ↔
      ∀ entry ∈ client.eventStore.byIdentityAndCollection identity collection,
        entry.1.signer = signer → entry.1.sequence ≠ client.nextSequence P identity collection := by
  constructor
  · intro hNone entry hEntry hSigner hSequence
    obtain ⟨hMem, hIdentity, hCollection⟩ := EventStore.mem_byIdentityAndCollection.mp hEntry
    have hKey : entry.1 = client.nextKey P identity collection signer := by
      obtain ⟨⟨_, _, _, _, _⟩, _⟩ := entry
      simp only at hIdentity hCollection hSequence
      subst hIdentity hCollection hSigner hSequence
      rfl
    have hGet : client.eventStore.get entry.1 = some entry.2 :=
      (lookup_eq_some_iff client.eventStore.sorted).mpr hMem
    rw [hKey, hNone] at hGet
    cases hGet
  · intro hNone
    cases hGet : client.eventStore.get (client.nextKey P identity collection signer) with
    | none => rfl
    | some signed =>
        have hMem := (lookup_eq_some_iff client.eventStore.sorted).mp hGet
        exact absurd rfl (hNone _ (EventStore.mem_byIdentityAndCollection.mpr ⟨hMem, rfl, rfl⟩) rfl)

/-- What a free key means for the insertion. -/
theorem copyEvent_stored {signed : SignedEvent} {key : EventKey}
    (hKey : EventKey.fromSignedEvent P signed = .ok key) (hFree : client.eventStore.get key = none) :
    (client.copyEvent P signed).2.eventStore.get key = some signed := by
  have hCopied := eventCopied (P := P) client signed
  generalize (client.copyEvent P signed).2 = client' at hCopied ⊢
  cases hCopied with
  | kept hKept =>
      have hSome := hKept key hKey
      rw [hFree] at hSome
      cases hSome
  | inserted key' hKey' _ =>
      obtain rfl := Except.ok.inj (hKey'.symm.trans hKey)
      rw [KeyMap.get_insert, if_pos rfl]

variable (P) (client) (identity) (collection)

/-- The next key is fresh exactly if the tip of the collection is clear. -/
theorem nextKey_fresh_iff (signer : PublicKey) :
    client.NextKeyFresh P identity collection signer ↔
      client.TipClear P identity collection signer := by
  constructor
  · intro h
    have hFits : ∀ entry ∈ client.eventStore.byIdentityAndCollection identity collection,
        client.isValid P entry = true → entry.1.sequence.toNat + 1 < 2 ^ 64 := by
      intro entry hEntry hValid
      have hAbove := UInt64.lt_iff_toNat_lt.mp (h.above entry hEntry hValid)
      have hNext := (client.nextSequence P identity collection).toNat_lt
      omega
    refine ⟨?_, hFits⟩
    intro entry hEntry hSigner _ hFollows
    exact get_nextKey_eq_none_iff.mp h.free entry hEntry hSigner
      (hFollows.unique (followsValidated_nextSequence hFits))
  · intro h
    have hFollows := followsValidated_nextSequence h.fits
    have hFree : client.eventStore.get (client.nextKey P identity collection signer) = none := by
      rw [get_nextKey_eq_none_iff]
      intro entry hEntry hSigner hSequence
      cases hValid : client.isValid P entry with
      | true =>
          have hBelow := hFollows.below entry hEntry hValid
          rw [hSequence] at hBelow
          exact UInt64.lt_irrefl _ hBelow
      | false =>
          rw [← hSequence] at hFollows
          exact h.invalid entry hEntry hSigner hValid hFollows
    exact ⟨hFree, fun signed hKey => copyEvent_stored hKey hFree, hFollows.below⟩

end PolycentricClient

/-! ### What validity depends on -/

section Validity

variable {P} {client client' : PolycentricClient} {signed : SignedEvent}

theorem verifyVectorClock_eq_ok_iff {store : EventStore} {clock : VectorClock} {document : Identity}
    {identity : String} {collection : Int32} {signer : PublicKey} {sequence : UInt64} :
    (∃ missing, verifyVectorClock store clock document identity collection signer sequence =
      .ok missing) ↔ ∃ position, getSignerPosition clock document signer sequence = .ok position := by
  simp [verifyVectorClock, bind_eq_ok_iff, pure, Except.pure]

/-- A signer that the document lists, with its own sequence in the clock. -/
theorem getSignerPosition_eq_ok_iff {clock : VectorClock} {document : Identity}
    {signer : PublicKey} {sequence : UInt64} :
    (∃ position, getSignerPosition clock document signer sequence = .ok position) ↔
      clock.sequence.length = document.deduplicatedKeys.length ∧ ∃ position,
        (document.deduplicatedKeys.findIdx? fun k => k = signer) = some position ∧
        clock.sequence.getD position 0 = sequence := by
  have hSigner : (fun k : PublicKey => k.keyType == signer.keyType && k.key == signer.key) =
      fun k => decide (k = signer) := by
    funext k
    rw [Bool.eq_iff_iff, keyType_key_beq_iff, decide_eq_true_eq]
  simp [getSignerPosition, bind_eq_ok_iff, pure, Except.pure, hSigner]

/-- Other events decide about validity only through the chain: a reference to a
missing event is no error. -/
theorem validateEvent_ok_congr
    (hChains : ∀ identity, client.identityChain P identity = client'.identityChain P identity)
    (signed : SignedEvent) (proofs : List EventProof) :
    client.validateEvent P signed proofs = .ok () ↔ client'.validateEvent P signed proofs = .ok () := by
  have hClock : ∀ store store' clock document identity collection signer sequence,
      ((do
        let _ ← verifyVectorClock store clock document identity collection signer sequence
        pure ()) : Except CoreError Unit) = .ok () ↔
      ((do
        let _ ← verifyVectorClock store' clock document identity collection signer sequence
        pure ()) : Except CoreError Unit) = .ok () := by
    intro store store' clock document identity collection signer sequence
    simp only [bind_eq_ok_iff, pure, Except.pure, and_true, verifyVectorClock_eq_ok_iff]
  simp only [PolycentricClient.validateEvent, bind_eq_ok_iff, hChains]
  refine exists_congr fun event => and_congr_right fun _ => exists_congr fun key =>
    and_congr_right fun _ => exists_congr fun signer => and_congr_right fun _ =>
    exists_congr fun chain => and_congr_right fun _ => exists_congr fun head =>
    and_congr_right fun _ => ?_
  split
  · rfl
  · simp only [bind_eq_ok_iff]
    refine exists_congr fun clock => and_congr_right fun _ => exists_congr fun document =>
      and_congr_right fun _ => exists_congr fun _ => and_congr_right fun _ => ?_
    split
    · exact hClock _ _ _ _ _ _ _ _
    · refine bind_eq_ok_iff.trans (Iff.trans ?_ bind_eq_ok_iff.symm)
      exact exists_congr fun _ => and_congr_right fun _ => hClock _ _ _ _ _ _ _ _

/-- What is left to check of an event whose signer the head of the chain
authorises. -/
theorem validateEvent_eq_ok_iff_of_head {event : Event} {key : Proto.EventKey} {signer : PublicKey}
    {chain : IdentityChain} {head : IdentityEvent} (proofs : List EventProof)
    (hDecoded : P.decodeEvent signed.eventBytes = .ok event) (hKey : event.key = some key)
    (hSigner : key.signedBy = some signer) (hCollection : key.collection ≠ Collections.identity)
    (hChain : client.identityChain P key.identity = .ok chain) (hHead : chain.latestEvent = some head)
    (hAuthorises : head.document.authorizesSigner signer = true) :
    client.validateEvent P signed proofs = .ok () ↔ ∃ clock document,
      event.vectorClock = some clock ∧
      chain.stateAtSequence event.identitySequence = some document ∧
      document.authorizesSigner signer = true ∧
      ∃ position, getSignerPosition clock document signer key.sequence = .ok position := by
  simp only [PolycentricClient.validateEvent, bind_eq_ok_iff, mapError_eq_ok_iff, okOr_eq_ok_iff,
    hDecoded, Except.ok.injEq, exists_eq_left', hKey, hSigner, hChain, hHead, Option.some.injEq,
    hCollection, if_false, ensure_eq_ok_iff, hAuthorises, if_true, pure, Except.pure, and_true,
    verifyVectorClock_eq_ok_iff, exists_and_left, exists_const]

/-- Copying an event outside of the identity collection leaves all chains as they
are. -/
theorem identityChain_copyEvent (hKey : ∀ key, EventKey.fromSignedEvent P signed = .ok key →
      key.collection ≠ Collections.identity) (identity : String) :
    (client.copyEvent P signed).2.identityChain P identity = client.identityChain P identity := by
  have hCopied := eventCopied (P := P) client signed
  generalize (client.copyEvent P signed).2 = copied at hCopied ⊢
  cases hCopied with
  | kept => rfl
  | inserted key hFrom _ =>
      have hOther := hKey key hFrom
      simp only [PolycentricClient.identityChain, if_neg hOther]
      rw [resolveIdentityChain_insert fun hStream => hOther hStream.2]

end Validity

/-! ### Events of one's own -/

namespace PolycentricClient

variable (client : PolycentricClient) (identity : String) (collection : Int32)

/-- The event is built, and once signed and inserted it validates. -/
def SelfBuiltValid (signEvent : Event → SignedEvent) (draft : Draft) : Prop :=
  ∃ event, client.buildEvent P identity collection draft = .ok event ∧
    (client.copyEvent P (signEvent event)).2.isValid P
      (client.nextKey P identity collection draft.signer, signEvent event) = true

/-- The latest stored identity event of the signer is at a position of the chain
where the document authorises the signer. -/
def LatestUpdateAuthorises (chain : IdentityChain) (signer : PublicKey) : Prop :=
  ∃ entry ∈ client.eventStore.byIdentityAndCollection identity Collections.identity,
    entry.1.signer = signer ∧
    (∀ other ∈ client.eventStore.byIdentityAndCollection identity Collections.identity,
      other.1.signer = signer → other.1.sequence ≤ entry.1.sequence) ∧
    ∃ document, chain.stateAtSequence entry.1.sequence = some document ∧
      document.authorizesSigner signer = true

variable {P} {client} {identity} {collection}

theorem getIdentitySequence_eq_some_iff {signer : PublicKey} {sequence : UInt64} :
    client.getIdentitySequence identity signer = some sequence ↔ sequence ≠ 0 ∧
      ∃ entry ∈ client.eventStore.byIdentityAndCollection identity Collections.identity,
        entry.1.signer = signer ∧ entry.1.sequence = sequence ∧
        ∀ other ∈ client.eventStore.byIdentityAndCollection identity Collections.identity,
          other.1.signer = signer → other.1.sequence ≤ sequence := by
  let stream := client.eventStore.byIdentityCollectionSigner identity Collections.identity
    signer.keyType signer.key 0
  have hStream : ∀ entry, entry ∈ stream ↔
      entry ∈ client.eventStore.byIdentityAndCollection identity Collections.identity ∧
        entry.1.signer = signer ∧ 0 < entry.1.sequence := fun entry =>
    EventStore.mem_byIdentityCollectionSigner
  have hAscending : stream.Pairwise fun a b => a.1.sequence < b.1.sequence :=
    EventStore.byIdentityCollectionSigner_ascending signer 0
  show stream.getLast?.map (fun entry => entry.1.sequence) = some sequence ↔ _
  constructor
  · intro h
    obtain ⟨last, hLast, rfl⟩ := Option.map_eq_some_iff.mp h
    have hMem : last ∈ stream := List.mem_of_getLast? hLast
    obtain ⟨hStored, hSigner, hPos⟩ := (hStream last).mp hMem
    refine ⟨(UInt64.pos_iff_ne_zero.mp hPos), last, hStored, hSigner, rfl, ?_⟩
    intro other hOther hOtherSigner
    by_cases hZero : other.1.sequence = 0
    · rw [hZero]
      exact UInt64.zero_le
    · have hOtherMem := (hStream other).mpr ⟨hOther, hOtherSigner, UInt64.pos_iff_ne_zero.mpr hZero⟩
      obtain ⟨before, hBefore⟩ := List.getLast?_eq_some_iff.mp hLast
      rw [hBefore, List.pairwise_append] at hAscending
      rw [hBefore, List.mem_append, List.mem_singleton] at hOtherMem
      rcases hOtherMem with hEarlier | rfl
      · exact UInt64.le_of_lt (hAscending.2.2 other hEarlier last (List.mem_singleton_self last))
      · exact UInt64.le_refl _
  · rintro ⟨hNonzero, entry, hStored, hSigner, rfl, hGreatest⟩
    have hMem := (hStream entry).mpr ⟨hStored, hSigner, UInt64.pos_iff_ne_zero.mpr hNonzero⟩
    cases hLast : stream.getLast? with
    | none =>
        rw [List.getLast?_eq_none_iff.mp hLast] at hMem
        cases hMem
    | some last =>
        obtain ⟨before, hBefore⟩ := List.getLast?_eq_some_iff.mp hLast
        have hLastMem : last ∈ stream := List.mem_of_getLast? hLast
        obtain ⟨hLastStored, hLastSigner, -⟩ := (hStream last).mp hLastMem
        rw [hBefore, List.mem_append, List.mem_singleton] at hMem
        rcases hMem with hEarlier | rfl
        · rw [hBefore, List.pairwise_append] at hAscending
          have hLt := hAscending.2.2 entry hEarlier last (List.mem_singleton_self last)
          exact absurd (hGreatest last hLastStored hLastSigner) (UInt64.not_le.mpr hLt)
        · rfl

/-- What `buildEvent` asks for outside of the identity collection. -/
theorem buildEvent_eq_ok_iff (hCollection : collection ≠ Collections.identity) {draft : Draft}
    {chain : IdentityChain} (hChain : client.identityChain P identity = .ok chain) {event : Event} :
    client.buildEvent P identity collection draft = .ok event ↔
      ∃ sequence document, client.getIdentitySequence identity draft.signer = some sequence ∧
        chain.stateAtSequence sequence = some document ∧
        event = {
          key := some ⟨collection, identity, some draft.signer,
            client.nextSequence P identity collection⟩
          identitySequence := sequence
          vectorClock := some ⟨document.deduplicatedKeys.map fun publicKey =>
            if publicKey = draft.signer then client.nextSequence P identity collection
            else client.observedSequence P identity collection publicKey⟩
          previousSignature := client.previousSignature P identity collection
          contentDigest := some (draft.contentDigest P)
          createdAt := draft.createdAt
          previousRoot := client.previousRoot P identity collection } := by
  have hSigner : ∀ publicKey : PublicKey, (publicKey.keyType = draft.signer.keyType ∧
      publicKey.key = draft.signer.key) ↔ publicKey = draft.signer := by
    intro publicKey
    cases publicKey
    cases draft.signer
    simp
  have hNone : draft.identityContent P collection = none := if_neg hCollection
  have hSequence : client.identitySequenceFor P identity collection draft =
      client.getIdentitySequence identity draft.signer := if_neg hCollection
  simp only [buildEvent, buildVectorClock, bind_eq_ok_iff, mapError_eq_ok_iff, ensure_eq_ok_iff,
    clockDocument, hChain, hNone, hSequence, Except.bind, okOr_eq_ok_iff, hSigner, pure, Except.pure,
    Except.ok.injEq]
  constructor
  · rintro ⟨_, hNonzero, _, ⟨document, hDocument, rfl⟩, rfl⟩
    cases hLatest : client.getIdentitySequence identity draft.signer with
    | none => simp [hLatest] at hNonzero
    | some sequence =>
        rw [hLatest, Option.getD_some] at hDocument
        exact ⟨sequence, document, rfl, hDocument, rfl⟩
  · rintro ⟨sequence, document, hLatest, hDocument, rfl⟩
    have hNonzero := (getIdentitySequence_eq_some_iff.mp hLatest).1
    rw [hLatest, Option.getD_some]
    exact ⟨(), bne_iff_ne.mpr hNonzero, _, ⟨document, hDocument, rfl⟩, rfl⟩

/-- The clock of a built event fits the document that it was built from. -/
theorem getSignerPosition_built {document : Identity} {signer : PublicKey}
    (hListed : document.authorizesSigner signer = true) (sequence : UInt64)
    (observed : PublicKey → UInt64) :
    ∃ position, getSignerPosition ⟨document.deduplicatedKeys.map fun publicKey =>
      if publicKey = signer then sequence else observed publicKey⟩ document signer sequence =
        .ok position := by
  rw [getSignerPosition_eq_ok_iff]
  refine ⟨List.length_map _, ?_⟩
  have hMem := Identity.mem_deduplicatedKeys.mpr hListed
  cases hFind : document.deduplicatedKeys.findIdx? fun k => k = signer with
  | none =>
      have hNot := List.findIdx?_eq_none_iff.mp hFind signer hMem
      simp at hNot
  | some position =>
      obtain ⟨hLt, hAt, -⟩ := List.findIdx?_eq_some_iff_getElem.mp hFind
      have hSelf : document.deduplicatedKeys[position] = signer := of_decide_eq_true hAt
      refine ⟨position, rfl, ?_⟩
      simp [List.getD_eq_getElem?_getD, hLt, hSelf]

variable (P) (client) (identity) (collection)

/-- While the head of the chain authorises the current key, what the key builds
validates exactly if its latest stored identity event is at a position of the
chain whose document authorises it. -/
theorem selfBuilt_valid_iff (hCollection : collection ≠ Collections.identity) (draft : Draft)
    (chain : IdentityChain) (hChain : client.identityChain P identity = .ok chain)
    (hHead : ∃ head, chain.latestEvent = some head ∧
      head.document.authorizesSigner draft.signer = true)
    (signEvent : Event → SignedEvent)
    (hSign : ∀ event, client.buildEvent P identity collection draft = .ok event →
      (signEvent event).open P = .ok event) :
    client.SelfBuiltValid P identity collection signEvent draft ↔
      client.LatestUpdateAuthorises identity chain draft.signer := by
  obtain ⟨head, hLast, hAuthorises⟩ := hHead
  -- Once an event is built, all that is left to decide is the document it refers to.
  have hValid : ∀ event sequence document,
      client.buildEvent P identity collection draft = .ok event →
      event.identitySequence = sequence → chain.stateAtSequence sequence = some document →
      event.key = some ⟨collection, identity, some draft.signer,
        client.nextSequence P identity collection⟩ →
      (event.vectorClock = some ⟨document.deduplicatedKeys.map fun publicKey =>
        if publicKey = draft.signer then client.nextSequence P identity collection
        else client.observedSequence P identity collection publicKey⟩) →
      ((client.copyEvent P (signEvent event)).2.isValid P
        (client.nextKey P identity collection draft.signer, signEvent event) = true ↔
          document.authorizesSigner draft.signer = true) := by
    rintro event sequence document hBuilt rfl hDocument hKey hClock
    have hOpen := hSign event hBuilt
    have hDecoded := decodeEvent_of_open hOpen
    have hChains : ∀ identity, (client.copyEvent P (signEvent event)).2.identityChain P identity =
        client.identityChain P identity := by
      apply identityChain_copyEvent
      intro key hFrom
      obtain ⟨key', hFromEvent, hFrom'⟩ := fromEvent_of_open hOpen
      obtain rfl := Except.ok.inj (hFrom.symm.trans hFrom')
      unfold EventKey.fromEvent at hFromEvent
      rw [hKey] at hFromEvent
      obtain rfl := Except.ok.inj hFromEvent
      exact hCollection
    have hOk : ∀ result : Except CoreError Unit, result.isOk = true ↔ result = .ok () := by
      intro result
      rw [isOk_iff]
      exact Unique.exists_iff
    rw [isValid, hOk, validateEvent_ok_congr hChains,
      validateEvent_eq_ok_iff_of_head _ hDecoded hKey rfl hCollection hChain hLast hAuthorises]
    constructor
    · rintro ⟨_, document', -, hDocument', hListed, -⟩
      rwa [Option.some.inj (hDocument.symm.trans hDocument')]
    · intro hListed
      exact ⟨_, document, hClock, hDocument, hListed, getSignerPosition_built hListed _ _⟩
  constructor
  · rintro ⟨event, hBuilt, hOk⟩
    obtain ⟨sequence, document, hLatest, hDocument, rfl⟩ :=
      (buildEvent_eq_ok_iff hCollection hChain).mp hBuilt
    obtain ⟨-, entry, hEntry, hSigner, rfl, hGreatest⟩ := getIdentitySequence_eq_some_iff.mp hLatest
    exact ⟨entry, hEntry, hSigner, hGreatest, document, hDocument,
      (hValid _ _ document hBuilt rfl hDocument rfl rfl).mp hOk⟩
  · rintro ⟨entry, hEntry, hSigner, hGreatest, document, hDocument, hListed⟩
    have hNonzero : entry.1.sequence ≠ 0 := by
      intro hZero
      rw [hZero] at hDocument
      cases hDocument
    have hLatest := getIdentitySequence_eq_some_iff.mpr
      ⟨hNonzero, entry, hEntry, hSigner, rfl, hGreatest⟩
    have hBuilt := (buildEvent_eq_ok_iff hCollection hChain).mpr
      ⟨entry.1.sequence, document, hLatest, hDocument, rfl⟩
    exact ⟨_, hBuilt, (hValid _ _ document hBuilt rfl hDocument rfl rfl).mpr hListed⟩

end PolycentricClient

end Polycentric.Client

namespace Polycentric.TableInstance

open Client Proto Runs

/-! Two rotation keys update the identity at the same sequence. The update of
`key 2` wins when it arrives, and its document lists one key more. -/

def forkGenesis : Identity := document [key 1, key 2] []

def forkIdentity : String := identityOf forkGenesis

def forkSigned (n : UInt8) (signer : PublicKey) : SignedEvent := ⟨sign signer.key [n], [n]⟩

/-- A post of `key 1` under its own update. -/
def forkPost (sequence : UInt64) (before : List SignedEvent) : Event :=
  { event Collections.feed forkIdentity (key 1) sequence [sequence, 0] [20] with
    identitySequence := 2
    previousSignature := ((before.map SignedEvent.signature).getLast?).getD []
    previousRoot := rootOf (primitives [] []) (before.map SignedEvent.signature) }

/-- Events `[2]` and `[3]` are the two updates, `[4]` is a later update, `[5]` and
`[6]` are posts, and `[7]` is a post of a key that the identity does not know. -/
def forkPrimitives : Primitives := primitives
  [([1], event Collections.identity forkIdentity (key 1) 1 [1, 0] [11]),
    ([2], event Collections.identity forkIdentity (key 1) 2 [2, 0] [12]),
    ([3], event Collections.identity forkIdentity (key 2) 2 [1, 2, 0] [13]),
    ([4], event Collections.identity forkIdentity (key 1) 3 [3, 0] [12]),
    ([5], forkPost 1 []), ([6], forkPost 2 [forkSigned 5 (key 1)]),
    ([7], event Collections.feed forkIdentity (key 9) 1 [1] [20])]
  [([11], ⟨some (.identity forkGenesis)⟩),
    ([12], ⟨some (.identity { forkGenesis with servers := some ⟨["https://example"]⟩ })⟩),
    ([13], ⟨some (.identity (document [key 1, key 2] [key 3]))⟩),
    ([20], ⟨some (.post ⟨"hello", none, [], none, []⟩)⟩)]

def forkBundle (n : UInt8) (signer : PublicKey) (contentBytes : Bytes) : EventBundle :=
  ⟨some (forkSigned n signer), some ⟨contentBytes⟩, [], none⟩

/-- The client of `key 1` updates the identity and posts. -/
def forkedClient : PolycentricClient :=
  run (PolycentricClient.call forkPrimitives) PolycentricClient.new
    [.copyBundles [forkBundle 1 (key 1) [11], forkBundle 2 (key 1) [12]],
      .copyEvent (forkSigned 5 (key 1))]

/-- Then it learns of the other update. -/
def overtakenClient : PolycentricClient :=
  forkedClient.call forkPrimitives (.copyBundles [forkBundle 3 (key 2) [13]])

/-- A client that has the first and the third identity event, but not the second. -/
def gapClient : PolycentricClient :=
  run (PolycentricClient.call forkPrimitives) PolycentricClient.new
    [.copyBundles [forkBundle 1 (key 1) [11], forkBundle 4 (key 1) [12]]]

end Polycentric.TableInstance

namespace Polycentric.Client

open TableInstance

/-- The post was valid and is not any more. The next post is built, with the key of
the first. -/
theorem nextKey_taken_overtaken :
    forkedClient.validateEvent forkPrimitives (forkSigned 5 (key 1)) [] = .ok () ∧
      (overtakenClient.buildEvent forkPrimitives forkIdentity Collections.feed
        ⟨key 1, [20], 0⟩).isOk = true ∧
      ¬overtakenClient.NextKeyFresh forkPrimitives forkIdentity Collections.feed (key 1) := by
  refine ⟨by decide +kernel, by decide +kernel, fun h => ?_⟩
  have hTaken : overtakenClient.eventStore.get
      (overtakenClient.nextKey forkPrimitives forkIdentity Collections.feed (key 1)) =
        some (forkSigned 5 (key 1)) := by
    decide +kernel
  rw [h.free] at hTaken
  cases hTaken

/-- The second post of `key 1` validates. -/
theorem selfBuilt_valid_forked :
    forkedClient.SelfBuiltValid forkPrimitives forkIdentity Collections.feed
      (fun _ => forkSigned 6 (key 1)) ⟨key 1, [20], 0⟩ := by
  have hChain : forkedClient.identityChain forkPrimitives forkIdentity = .ok
      ⟨[⟨1, key 1, forkGenesis⟩,
        ⟨2, key 1, { forkGenesis with servers := some ⟨["https://example"]⟩ }⟩]⟩ := by
    decide +kernel
  have hBuilt : forkedClient.buildEvent forkPrimitives forkIdentity Collections.feed
      ⟨key 1, [20], 0⟩ = .ok (forkPost 2 [forkSigned 5 (key 1)]) := by
    decide +kernel
  have hOpen : (forkSigned 6 (key 1)).open forkPrimitives =
      .ok (forkPost 2 [forkSigned 5 (key 1)]) := by
    decide +kernel
  refine (PolycentricClient.selfBuilt_valid_iff forkPrimitives forkedClient forkIdentity
    Collections.feed (by decide) ⟨key 1, [20], 0⟩ _ hChain
    ⟨_, rfl, by decide +kernel⟩ (fun _ => forkSigned 6 (key 1)) ?_).mpr ?_
  · intro event hEvent
    obtain rfl := Except.ok.inj (hBuilt.symm.trans hEvent)
    exact hOpen
  · exact ⟨(⟨forkIdentity, Collections.identity, 1, (key 1).key, 2⟩, forkSigned 2 (key 1)),
      by decide +kernel, rfl, by decide +kernel, _, rfl, by decide +kernel⟩

/-- The latest identity event of `key 1` is beyond the chain: nothing is built. -/
theorem selfBuilt_invalid_gap :
    gapClient.identityChain forkPrimitives forkIdentity = .ok ⟨[⟨1, key 1, forkGenesis⟩]⟩ ∧
      forkGenesis.authorizesSigner (key 1) = true ∧
      ∀ signEvent, ¬gapClient.SelfBuiltValid forkPrimitives forkIdentity Collections.feed signEvent
        ⟨key 1, [20], 0⟩ := by
  refine ⟨by decide +kernel, by decide +kernel, ?_⟩
  rintro signEvent ⟨event, hBuilt, -⟩
  have hError : gapClient.buildEvent forkPrimitives forkIdentity Collections.feed
      ⟨key 1, [20], 0⟩ = .error (.core (.invalidEvent "No validated identity event at sequence 3")) := by
    decide +kernel
  rw [hError] at hBuilt
  cases hBuilt

end Polycentric.Client
