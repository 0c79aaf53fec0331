import Polycentric.Client.CacheCoherence

/-! Clients that have ingested the same bundles agree, in whatever order, batches
and repetitions the bundles came: each store is a function of the set of bundles. -/
namespace Polycentric.Client

open Proto Result Memo Runs

variable (P : Primitives)

/-! ### What the bundles bring -/

section Brings

variable (entries : List (Event × EventBundle))

/-- An opened bundle has the event with the key. -/
def BringsEvent (key : EventKey) (signed : SignedEvent) : Prop :=
  ∃ entry ∈ entries, entry.2.signedEvent = some signed ∧
    EventKey.fromSignedEvent P signed = .ok key

/-- An opened bundle has proofs for the key. -/
def BringsProofs (key : EventKey) (proofs : List EventProof) : Prop :=
  ∃ entry ∈ entries, EventKey.fromEvent entry.1 = .ok key ∧ entry.2.eventProofs = proofs ∧
    proofs ≠ []

/-- An opened bundle has content that hashes to the digest of its event. -/
def BringsContent (digest : ContentDigest) (contentBytes : Bytes) : Prop :=
  ∃ entry ∈ entries, entry.1.contentDigest = some digest ∧
    entry.2.serializedContent = some ⟨contentBytes⟩ ∧
    digest.verifyAgainst P contentBytes = .ok ()

/-- Bundles that do not contradict each other: there is one signed event for a
key, one non-empty list of proofs, and one content for a digest. -/
structure Consistent : Prop where
  events : ∀ key signed signed', BringsEvent P entries key signed →
    BringsEvent P entries key signed' → signed = signed'
  proofs : ∀ key proofs proofs', BringsProofs entries key proofs →
    BringsProofs entries key proofs' → proofs = proofs'
  contents : ∀ digest bytes bytes', BringsContent P entries digest bytes →
    BringsContent P entries digest bytes' → bytes = bytes'

/-- The stores hold what the bundles bring, and nothing else. -/
structure Holds (client : PolycentricClient) : Prop where
  events : ∀ key signed, client.eventStore.get key = some signed ↔ BringsEvent P entries key signed
  proofs : ∀ key proofs, KeyMap.get client.eventProofsStore key = some proofs ↔
    BringsProofs entries key proofs
  contents : ∀ digest bytes, client.contentStore.get digest = some bytes ↔
    BringsContent P entries digest bytes

end Brings

section Stores

variable {P} {entries entries' : List (Event × EventBundle)} {entry : Event × EventBundle}
  {client a b : PolycentricClient}

theorem Consistent.of_subset (h : Consistent P entries) (hSubset : ∀ e ∈ entries', e ∈ entries) :
    Consistent P entries' where
  events := by
    rintro key signed signed' ⟨e, he, hE⟩ ⟨e', he', hE'⟩
    exact h.events key signed signed' ⟨e, hSubset e he, hE⟩ ⟨e', hSubset e' he', hE'⟩
  proofs := by
    rintro key proofs proofs' ⟨e, he, hE⟩ ⟨e', he', hE'⟩
    exact h.proofs key proofs proofs' ⟨e, hSubset e he, hE⟩ ⟨e', hSubset e' he', hE'⟩
  contents := by
    rintro digest bytes bytes' ⟨e, he, hE⟩ ⟨e', he', hE'⟩
    exact h.contents digest bytes bytes' ⟨e, hSubset e he, hE⟩ ⟨e', hSubset e' he', hE'⟩

/-- A new client holds what no bundle brings, which is nothing. -/
theorem holds_new : Holds P [] PolycentricClient.new where
  events := fun key signed => by
    simp [BringsEvent, PolycentricClient.new, KeyMap.get, KeyMap.empty]
  proofs := fun key proofs => by
    simp [BringsProofs, PolycentricClient.new, KeyMap.get, KeyMap.empty]
  contents := fun digest bytes => by
    simp [BringsContent, PolycentricClient.new, ContentStore.get]

/-- Clients that hold the same bundles have the same stores. -/
theorem Holds.sameStores (hA : Holds P entries a) (hB : Holds P entries' b)
    (hSame : ∀ e, e ∈ entries ↔ e ∈ entries') : SameStores a b where
  events := by
    apply KeyMap.ext_get
    intro key
    apply Option.ext
    intro signed
    rw [hA.events, hB.events]
    simp only [BringsEvent, hSame]
  proofs := by
    apply KeyMap.ext_get
    intro key
    apply Option.ext
    intro proofs
    rw [hA.proofs, hB.proofs]
    simp only [BringsProofs, hSame]
  contents := by
    intro digest
    apply Option.ext
    intro bytes
    rw [hA.contents, hB.contents]
    simp only [BringsContent, hSame]

/-! ### Copying one bundle -/

/-- A table that answers a new key and every old key alike holds one pair more. -/
theorem holds_insert {κ ν : Type} {get get' : κ → Option ν} {Brings : κ → ν → Prop} {key : κ}
    {value : ν} (h : ∀ k v, get k = some v ↔ Brings k v) (hNew : get' key = some value)
    (hOld : ∀ k, k ≠ key → get' k = get k) (hOne : ∀ v, Brings key v → v = value) (k : κ) (v : ν) :
    get' k = some v ↔ Brings k v ∨ (key = k ∧ value = v) := by
  by_cases hKey : k = key
  · subst hKey
    rw [hNew, Option.some_inj]
    constructor
    · intro hValue
      exact Or.inr ⟨rfl, hValue⟩
    · rintro (hBrings | ⟨-, hValue⟩)
      · exact (hOne v hBrings).symm
      · exact hValue
  · rw [hOld k hKey, h]
    constructor
    · exact Or.inl
    · rintro (hBrings | ⟨rfl, -⟩)
      · exact hBrings
      · exact absurd rfl hKey

/-- What a batch brings, one of its bundles brings. -/
theorem bringsEvent_append {key : EventKey} {signed : SignedEvent} :
    BringsEvent P (entries ++ [entry]) key signed ↔ BringsEvent P entries key signed ∨
      (entry.2.signedEvent = some signed ∧ EventKey.fromSignedEvent P signed = .ok key) := by
  simp only [BringsEvent, List.mem_append, List.mem_singleton, or_and_right, exists_or,
    exists_eq_left]

theorem bringsProofs_append {key : EventKey} {proofs : List EventProof} :
    BringsProofs (entries ++ [entry]) key proofs ↔ BringsProofs entries key proofs ∨
      (EventKey.fromEvent entry.1 = .ok key ∧ entry.2.eventProofs = proofs ∧ proofs ≠ []) := by
  simp only [BringsProofs, List.mem_append, List.mem_singleton, or_and_right, exists_or,
    exists_eq_left]

theorem bringsContent_append {digest : ContentDigest} {bytes : Bytes} :
    BringsContent P (entries ++ [entry]) digest bytes ↔ BringsContent P entries digest bytes ∨
      (entry.1.contentDigest = some digest ∧ entry.2.serializedContent = some ⟨bytes⟩ ∧
        digest.verifyAgainst P bytes = .ok ()) := by
  simp only [BringsContent, List.mem_append, List.mem_singleton, or_and_right, exists_or,
    exists_eq_left]

/-- Copying an event changes no proofs and no content. -/
theorem copyEvent_frame (client : PolycentricClient) (signed : SignedEvent) :
    (client.copyEvent P signed).2.eventProofsStore = client.eventProofsStore ∧
      (client.copyEvent P signed).2.contentStore = client.contentStore := by
  have hCopied := eventCopied (P := P) client signed
  generalize (client.copyEvent P signed).2 = client' at hCopied ⊢
  cases hCopied with
  | kept => exact ⟨rfl, rfl⟩
  | inserted => exact ⟨rfl, rfl⟩

/-- A content changes neither events nor proofs. -/
theorem copyBundleContent_frame (client : PolycentricClient) (event : Event) (bundle : EventBundle) :
    (client.copyBundleContent P event bundle).eventStore = client.eventStore ∧
      (client.copyBundleContent P event bundle).eventProofsStore = client.eventProofsStore := by
  unfold PolycentricClient.copyBundleContent
  split
  · next digest content _ _ =>
      have hCopied := contentCopied (P := P) client digest content.contentBytes
      generalize (client.copyContent P digest content.contentBytes).2 = client' at hCopied ⊢
      cases hCopied with
      | rejected => exact ⟨rfl, rfl⟩
      | kept => exact ⟨rfl, rfl⟩
      | document => exact ⟨rfl, rfl⟩
      | other => exact ⟨rfl, rfl⟩
  · exact ⟨rfl, rfl⟩

/-- Proofs change neither events nor contents. -/
theorem copyBundleProofs_frame (client : PolycentricClient) (event : Event) (bundle : EventBundle) :
    (client.copyBundleProofs event bundle).eventStore = client.eventStore ∧
      (client.copyBundleProofs event bundle).contentStore = client.contentStore := by
  unfold PolycentricClient.copyBundleProofs
  split
  · exact ⟨rfl, rfl⟩
  · dsimp only
    split
    · exact ⟨rfl, rfl⟩
    · exact ⟨rfl, rfl⟩

theorem eventProofsStore_copyBundleProofs {event : Event} {key : EventKey}
    (hKey : EventKey.fromEvent event = .ok key) (client : PolycentricClient) (bundle : EventBundle) :
    (client.copyBundleProofs event bundle).eventProofsStore =
      client.eventProofsStore.insert key bundle.eventProofs := by
  unfold PolycentricClient.copyBundleProofs
  rw [hKey]
  dsimp only
  split
  · rfl
  · rfl

/-- The events after a bundle whose event has the key. -/
theorem holdsEvents_copyEvent {signed : SignedEvent} {key : EventKey}
    {Brings : EventKey → SignedEvent → Prop}
    (h : ∀ k s, client.eventStore.get k = some s ↔ Brings k s)
    (hKey : EventKey.fromSignedEvent P signed = .ok key)
    (hOne : ∀ s, Brings key s → s = signed) (k : EventKey) (s : SignedEvent) :
    (client.copyEvent P signed).2.eventStore.get k = some s ↔
      Brings k s ∨ (key = k ∧ signed = s) := by
  have hCopied := eventCopied (P := P) client signed
  generalize (client.copyEvent P signed).2 = client' at hCopied ⊢
  cases hCopied with
  | kept hKept =>
      obtain ⟨stored, hStored⟩ := Option.isSome_iff_exists.mp (hKept key hKey)
      have hSame : stored = signed := hOne stored ((h key stored).mp hStored)
      apply holds_insert h _ (fun _ _ => rfl) hOne
      rw [hStored, hSame]
  | inserted key' hKey' hNew =>
      obtain rfl : key' = key := Except.ok.inj (hKey'.symm.trans hKey)
      apply holds_insert h _ _ hOne
      · exact (KeyMap.get_insert _ _ _ _).trans (if_pos rfl)
      · intro other hOther
        exact (KeyMap.get_insert _ _ _ _).trans (if_neg hOther)

/-- A verified content is found under its digest, and the others stay. -/
theorem holdsContents_copyContent {digest : ContentDigest} {bytes : Bytes}
    {Brings : ContentDigest → Bytes → Prop}
    (h : ∀ d b, client.contentStore.get d = some b ↔ Brings d b)
    (hDigest : digest.verifyAgainst P bytes = .ok ())
    (hOne : ∀ b, Brings digest b → b = bytes) (d : ContentDigest) (b : Bytes) :
    (client.copyContent P digest bytes).2.contentStore.get d = some b ↔
      Brings d b ∨ (digest = d ∧ bytes = b) := by
  have hFirst : ContentStore.get ⟨(digest, bytes) :: client.contentStore.contents⟩ digest =
      some bytes := by
    simp [ContentStore.get]
  have hOther : ∀ other, other ≠ digest →
      ContentStore.get ⟨(digest, bytes) :: client.contentStore.contents⟩ other =
        client.contentStore.get other := by
    intro other hNe
    simp [ContentStore.get, List.lookup_cons, beq_false_of_ne hNe]
  have hCopied := contentCopied (P := P) client digest bytes
  generalize (client.copyContent P digest bytes).2 = client' at hCopied ⊢
  cases hCopied with
  | rejected hRejected => exact absurd hDigest hRejected
  | kept _ hKept =>
      obtain ⟨stored, hStored⟩ := Option.isSome_iff_exists.mp hKept
      have hSame : stored = bytes := hOne stored ((h digest stored).mp hStored)
      apply holds_insert h _ (fun _ _ => rfl) hOne
      rw [hStored, hSame]
  | document => exact holds_insert h hFirst hOther hOne d b
  | other => exact holds_insert h hFirst hOther hOne d b

/-- The proofs after a bundle of the key. An empty list brings nothing. -/
theorem holdsProofs_insert {store : EventProofsStore} {key : EventKey} {proofs : List EventProof}
    {Brings : EventKey → List EventProof → Prop}
    (h : ∀ k p, KeyMap.get store k = some p ↔ Brings k p)
    (hOne : ∀ p, proofs ≠ [] → Brings key p → p = proofs) (k : EventKey) (p : List EventProof) :
    KeyMap.get (store.insert key proofs) k = some p ↔
      Brings k p ∨ (key = k ∧ proofs = p ∧ p ≠ []) := by
  unfold EventProofsStore.insert
  split_ifs with hEmpty
  · rw [List.isEmpty_iff] at hEmpty
    subst hEmpty
    rw [h]
    constructor
    · exact Or.inl
    · rintro (hBrings | ⟨-, rfl, hNe⟩)
      · exact hBrings
      · exact absurd rfl hNe
  · have hNonempty : proofs ≠ [] := fun hNil => hEmpty (List.isEmpty_iff.mpr hNil)
    have hInsert : KeyMap.get (KeyMap.insert store key proofs) k = some p ↔
        Brings k p ∨ (key = k ∧ proofs = p) := by
      apply holds_insert h
      · exact (KeyMap.get_insert _ _ _ _).trans (if_pos rfl)
      · intro other hOther
        exact (KeyMap.get_insert _ _ _ _).trans (if_neg hOther)
      · intro p hBrings
        exact hOne p hNonempty hBrings
    rw [hInsert]
    constructor
    · rintro (hBrings | ⟨hKey, rfl⟩)
      · exact Or.inl hBrings
      · exact Or.inr ⟨hKey, rfl, hNonempty⟩
    · rintro (hBrings | ⟨hKey, hProofs, -⟩)
      · exact Or.inl hBrings
      · exact Or.inr ⟨hKey, hProofs⟩

/-- The contents after a bundle: its content is new only if it hashes to the digest. -/
theorem holdsContents_copyBundleContent {Brings : ContentDigest → Bytes → Prop}
    (h : ∀ d b, client.contentStore.get d = some b ↔ Brings d b) (event : Event)
    (bundle : EventBundle)
    (hOne : ∀ digest bytes b, event.contentDigest = some digest →
      bundle.serializedContent = some ⟨bytes⟩ → digest.verifyAgainst P bytes = .ok () →
      Brings digest b → b = bytes) (d : ContentDigest) (b : Bytes) :
    (client.copyBundleContent P event bundle).contentStore.get d = some b ↔
      Brings d b ∨ (event.contentDigest = some d ∧ bundle.serializedContent = some ⟨b⟩ ∧
        d.verifyAgainst P b = .ok ()) := by
  unfold PolycentricClient.copyBundleContent
  split
  · next digest content hDigest hContent =>
      rw [hDigest, hContent]
      by_cases hVerified : digest.verifyAgainst P content.contentBytes = .ok ()
      · rw [holdsContents_copyContent h hVerified
          fun b hBrings => hOne digest _ b hDigest hContent hVerified hBrings]
        apply or_congr_right
        constructor
        · rintro ⟨rfl, rfl⟩
          exact ⟨rfl, rfl, hVerified⟩
        · rintro ⟨hSame, hBytes, -⟩
          exact ⟨Option.some.inj hSame, congrArg SerializedContent.contentBytes (Option.some.inj hBytes)⟩
      · have hCopied := contentCopied (P := P) client digest content.contentBytes
        have hRejected : (client.copyContent P digest content.contentBytes).2 = client := by
          generalize (client.copyContent P digest content.contentBytes).2 = client' at hCopied ⊢
          cases hCopied with
          | rejected => rfl
          | kept hOk => exact absurd hOk hVerified
          | document hOk => exact absurd hOk hVerified
          | other hOk => exact absurd hOk hVerified
        rw [hRejected, h]
        constructor
        · exact Or.inl
        · rintro (hBrings | ⟨hSame, hBytes, hOk⟩)
          · exact hBrings
          · obtain rfl := Option.some.inj hSame
            obtain rfl := Option.some.inj hBytes
            exact absurd hOk hVerified
  · next hNone =>
      rw [h]
      constructor
      · exact Or.inl
      · rintro (hBrings | ⟨hDigest, hContent, -⟩)
        · exact hBrings
        · exact absurd hContent (hNone _ _ hDigest)

/-- Copying an opened bundle adds what it brings. -/
theorem Holds.copyBundle (h : Holds P entries client) {signed : SignedEvent}
    (hSigned : entry.2.signedEvent = some signed) (hOpen : signed.open P = .ok entry.1)
    (hConsistent : Consistent P (entries ++ [entry])) :
    Holds P (entries ++ [entry]) (client.copyBundle P entry) := by
  obtain ⟨key, hEventKey, hKey⟩ := fromEvent_of_open hOpen
  have hCopy : client.copyBundle P entry = (PolycentricClient.copyEvent P
      ((client.copyBundleContent P entry.1 entry.2).copyBundleProofs entry.1 entry.2) signed).2 := by
    unfold PolycentricClient.copyBundle
    simp only [hSigned]
  obtain ⟨hContentEvents, hContentProofs⟩ := copyBundleContent_frame (P := P) client entry.1 entry.2
  obtain ⟨hProofsEvents, hProofsContents⟩ :=
    copyBundleProofs_frame (client.copyBundleContent P entry.1 entry.2) entry.1 entry.2
  obtain ⟨hEventProofs, hEventContents⟩ := copyEvent_frame (P := P)
    ((client.copyBundleContent P entry.1 entry.2).copyBundleProofs entry.1 entry.2) signed
  rw [hCopy]
  refine ⟨?_, ?_, ?_⟩
  · intro k s
    have hStored : ∀ k s, ((client.copyBundleContent P entry.1 entry.2).copyBundleProofs
        entry.1 entry.2).eventStore.get k = some s ↔ BringsEvent P entries k s := by
      rw [hProofsEvents, hContentEvents]
      exact h.events
    rw [bringsEvent_append, holdsEvents_copyEvent hStored hKey]
    · apply or_congr_right
      rw [hSigned, Option.some_inj]
      constructor
      · rintro ⟨rfl, rfl⟩
        exact ⟨rfl, hKey⟩
      · rintro ⟨rfl, hKey'⟩
        exact ⟨Except.ok.inj (hKey.symm.trans hKey'), rfl⟩
    · intro s hBrings
      exact hConsistent.events key s signed (bringsEvent_append.mpr (Or.inl hBrings))
        (bringsEvent_append.mpr (Or.inr ⟨hSigned, hKey⟩))
  · intro k p
    rw [hEventProofs, eventProofsStore_copyBundleProofs hEventKey, hContentProofs,
      bringsProofs_append, holdsProofs_insert h.proofs]
    · rw [hEventKey, Except.ok.injEq]
    · intro p hNonempty hBrings
      exact hConsistent.proofs key p _ (bringsProofs_append.mpr (Or.inl hBrings))
        (bringsProofs_append.mpr (Or.inr ⟨hEventKey, rfl, hNonempty⟩))
  · intro d b
    rw [hEventContents, hProofsContents, bringsContent_append]
    apply holdsContents_copyBundleContent h.contents
    intro digest bytes b hDigest hContent hVerified hBrings
    exact hConsistent.contents digest b bytes (bringsContent_append.mpr (Or.inl hBrings))
      (bringsContent_append.mpr (Or.inr ⟨hDigest, hContent, hVerified⟩))

/-- So does copying several. -/
theorem Holds.copyEntries {more : List (Event × EventBundle)} (h : Holds P entries client)
    (hOpen : ∀ entry ∈ more, ∃ signed, entry.2.signedEvent = some signed ∧
      signed.open P = .ok entry.1) (hConsistent : Consistent P (entries ++ more)) :
    Holds P (entries ++ more) (more.foldl (fun client entry => client.copyBundle P entry) client) := by
  induction more generalizing entries client with
  | nil => simpa using h
  | cons entry rest ih =>
      obtain ⟨signed, hSigned, hOpened⟩ := hOpen entry List.mem_cons_self
      rw [List.append_cons] at hConsistent ⊢
      have hFirst : Consistent P (entries ++ [entry]) :=
        hConsistent.of_subset fun e he => List.mem_append_left rest he
      apply ih (h.copyBundle hSigned hOpened hFirst) _ hConsistent
      intro other hOther
      exact hOpen other (List.mem_cons_of_mem _ hOther)

/-- What is held depends on the set of bundles only. -/
theorem Holds.of_mem_iff (h : Holds P entries client) (hSame : ∀ e, e ∈ entries ↔ e ∈ entries') :
    Holds P entries' client where
  events := by simpa only [BringsEvent, hSame] using h.events
  proofs := by simpa only [BringsProofs, hSame] using h.proofs
  contents := by simpa only [BringsContent, hSame] using h.contents

/-- A batch is copied in an order of its own. -/
theorem Holds.copyBundles (h : Holds P entries client) (bundles : List EventBundle)
    (hConsistent : Consistent P (entries ++ PolycentricClient.openBundles P bundles)) :
    Holds P (entries ++ PolycentricClient.openBundles P bundles) (client.copyBundles P bundles) := by
  unfold PolycentricClient.copyBundles
  refine (h.copyEntries ?_ ?_).of_mem_iff ?_
  · intro entry hEntry
    rw [List.mem_insertionSort] at hEntry
    exact (PolycentricClient.mem_openBundles.mp hEntry).2
  · apply hConsistent.of_subset
    simp only [List.mem_append, List.mem_insertionSort, imp_self, implies_true]
  · simp only [List.mem_append, List.mem_insertionSort, implies_true]

/-- After the batches a client holds what their bundles bring. -/
theorem Holds.run_copyBundles {batches : List (List EventBundle)} (h : Holds P entries client)
    (hConsistent : Consistent P (entries ++ PolycentricClient.openBundles P batches.flatten)) :
    Holds P (entries ++ PolycentricClient.openBundles P batches.flatten)
      (run (PolycentricClient.copyBundles P) client batches) := by
  induction batches generalizing entries client with
  | nil => simpa [PolycentricClient.openBundles, run] using h
  | cons bundles rest ih =>
      have hSplit : PolycentricClient.openBundles P (bundles :: rest).flatten =
          PolycentricClient.openBundles P bundles ++ PolycentricClient.openBundles P rest.flatten :=
        List.filterMap_append
      rw [hSplit, ← List.append_assoc] at hConsistent ⊢
      apply ih _ hConsistent
      apply h.copyBundles
      exact hConsistent.of_subset fun e he => List.mem_append_left _ he

end Stores

/-! ### Agreement -/

section Agreement

variable (bundles : List EventBundle)

/-- No two different signed events share a key. -/
def OneEventPerKey : Prop :=
  ∀ bundle ∈ bundles, ∀ bundle' ∈ bundles, ∀ signed ∈ bundle.signedEvent,
    ∀ signed' ∈ bundle'.signedEvent, ∀ key, EventKey.fromSignedEvent P signed = .ok key →
      EventKey.fromSignedEvent P signed' = .ok key → signed = signed'

/-- No two bundles attach different non-empty lists of proofs to one event. -/
def OneProofListPerEvent : Prop :=
  ∀ bundle ∈ bundles, ∀ bundle' ∈ bundles, ∀ signed ∈ bundle.signedEvent, signed ∈ bundle'.signedEvent →
    bundle.eventProofs ≠ [] → bundle'.eventProofs ≠ [] → bundle.eventProofs = bundle'.eventProofs

/-- SHA-256 has no collision among the attached contents. -/
def NoContentCollision : Prop :=
  ∀ bundle ∈ bundles, ∀ bundle' ∈ bundles, ∀ content ∈ bundle.serializedContent,
    ∀ content' ∈ bundle'.serializedContent,
    P.sha256 content.contentBytes = P.sha256 content'.contentBytes → content = content'

end Agreement

/-- Two clients with the same events that agree on the chain of every identity, on
the validity of every stored event with its stored proofs, and on the valid events
of every collection, metadata aside. -/
structure Agree (a b : PolycentricClient) : Prop where
  chains : ∀ identity, a.identityChain P identity = b.identityChain P identity
  events : a.eventStore = b.eventStore
  valid : ∀ key signed, a.eventStore.get key = some signed →
    a.validateEvent P signed (a.eventProofsStore.get key) =
      b.validateEvent P signed (b.eventProofsStore.get key)
  listed : ∀ identity collection,
    (a.listValidEvents P identity collection).map (List.map withoutMetadata) =
      (b.listValidEvents P identity collection).map (List.map withoutMetadata)

section Agreement

variable {P} {a b : PolycentricClient} {bundles : List EventBundle}

/-- Every client answers from its stores. -/
theorem SameStores.agree (h : SameStores a b) (hA : a.CachesCoherent P) (hB : b.CachesCoherent P) :
    Agree P a b := by
  have hChains : ∀ identity, a.identityChain P identity = b.identityChain P identity := by
    intro identity
    rw [hA.chains.identityChain_eq, hB.chains.identityChain_eq, h.events]
    exact resolveIdentityChain_congr h.contents identity
  refine ⟨hChains, h.events, ?_, ?_⟩
  · intro key signed _
    rw [h.proofs]
    exact validateEvent_congr h.events hChains signed _
  · exact listValidEvents_congr h hChains

theorem verifyAgainst_sha256 {digest : ContentDigest} {bytes : Bytes}
    (h : digest.verifyAgainst P bytes = .ok ()) : (P.sha256 bytes).val = digest.value := by
  unfold ContentDigest.verifyAgainst verifyDigest at h
  split_ifs at h with _ hDigest
  exact hDigest

/-- The opened bundles do not contradict each other. -/
theorem consistent_openBundles (hEvents : OneEventPerKey P bundles)
    (hProofs : OneProofListPerEvent bundles) (hContents : NoContentCollision P bundles) :
    Consistent P (PolycentricClient.openBundles P bundles) where
  events := by
    rintro key signed signed' ⟨e, he, hSigned, hKey⟩ ⟨e', he', hSigned', hKey'⟩
    exact hEvents e.2 (PolycentricClient.mem_openBundles.mp he).1 e'.2
      (PolycentricClient.mem_openBundles.mp he').1 signed hSigned signed' hSigned' key hKey hKey'
  proofs := by
    rintro key _ _ ⟨e, he, hKey, rfl, hNonempty⟩ ⟨e', he', hKey', rfl, hNonempty'⟩
    obtain ⟨hMem, signed, hSigned, hOpen⟩ := PolycentricClient.mem_openBundles.mp he
    obtain ⟨hMem', signed', hSigned', hOpen'⟩ := PolycentricClient.mem_openBundles.mp he'
    obtain ⟨key₁, hKey₁, hFrom⟩ := fromEvent_of_open hOpen
    obtain ⟨key₂, hKey₂, hFrom'⟩ := fromEvent_of_open hOpen'
    obtain rfl : key₁ = key := Except.ok.inj (hKey₁.symm.trans hKey)
    obtain rfl : key₂ = key₁ := Except.ok.inj (hKey₂.symm.trans hKey')
    have hSame : signed = signed' :=
      hEvents e.2 hMem e'.2 hMem' signed hSigned signed' hSigned' key₂ hFrom hFrom'
    exact hProofs e.2 hMem e'.2 hMem' signed hSigned (hSame ▸ hSigned') hNonempty hNonempty'
  contents := by
    rintro digest bytes bytes' ⟨e, he, _, hContent, hDigest⟩ ⟨e', he', _, hContent', hDigest'⟩
    have hHash : P.sha256 bytes = P.sha256 bytes' :=
      Subtype.ext ((verifyAgainst_sha256 hDigest).trans (verifyAgainst_sha256 hDigest').symm)
    have hSame := hContents e.2 (PolycentricClient.mem_openBundles.mp he).1 e'.2
      (PolycentricClient.mem_openBundles.mp he').1 _ hContent _ hContent' hHash
    exact congrArg SerializedContent.contentBytes hSame

/-- The caches are coherent after every batch. -/
theorem cachesCoherent_run_copyBundles (batches : List (List EventBundle)) :
    (run (PolycentricClient.copyBundles P) PolycentricClient.new batches).CachesCoherent P :=
  run_invariant (fun h _ => h.copyBundles _) PolycentricClient.cachesCoherent_new
    (along_true _ batches)

end Agreement

/-- Clients that ingest the same bundles agree, whatever the order, the repetitions
and the batches. -/
theorem copyBundles_convergence (batches batches' : List (List EventBundle))
    (hSame : ∀ bundle, bundle ∈ batches.flatten ↔ bundle ∈ batches'.flatten)
    (hEvents : OneEventPerKey P batches.flatten)
    (hProofs : OneProofListPerEvent batches.flatten)
    (hContents : NoContentCollision P batches.flatten) :
    Agree P (run (PolycentricClient.copyBundles P) PolycentricClient.new batches)
      (run (PolycentricClient.copyBundles P) PolycentricClient.new batches') := by
  have hOpened : ∀ entry, entry ∈ PolycentricClient.openBundles P batches.flatten ↔
      entry ∈ PolycentricClient.openBundles P batches'.flatten := by
    intro entry
    rw [PolycentricClient.mem_openBundles, PolycentricClient.mem_openBundles, hSame]
  have hConsistent := consistent_openBundles hEvents hProofs hContents
  have hFirst := holds_new.run_copyBundles hConsistent
  have hSecond := holds_new.run_copyBundles
    (hConsistent.of_subset fun entry hEntry => (hOpened entry).mpr hEntry)
  exact (hFirst.sameStores hSecond hOpened).agree (cachesCoherent_run_copyBundles batches)
    (cachesCoherent_run_copyBundles batches')

end Polycentric.Client

namespace Polycentric.TableInstance

open Proto

def genesisBundle : EventBundle := ⟨some ⟨sign (key 1).key [1], [1]⟩, some ⟨[11]⟩, [], none⟩

def successorBundle : EventBundle := ⟨some ⟨sign (key 1).key [2], [2]⟩, some ⟨[12]⟩, [], none⟩

end Polycentric.TableInstance

namespace Polycentric.Client

open TableInstance Runs

/-- The successor first, and then both again: the chain is the same. -/
theorem copyBundles_convergence_alice :
    (run (PolycentricClient.copyBundles alicePrimitives) PolycentricClient.new
        [[genesisBundle, successorBundle]]).identityChain alicePrimitives aliceIdentity =
      .ok ⟨[⟨1, key 1, genesis⟩, ⟨2, key 1, successor⟩]⟩ ∧
    Agree alicePrimitives
      (run (PolycentricClient.copyBundles alicePrimitives) PolycentricClient.new
        [[genesisBundle, successorBundle]])
      (run (PolycentricClient.copyBundles alicePrimitives) PolycentricClient.new
        [[successorBundle], [successorBundle, genesisBundle]]) := by
  refine ⟨by decide +kernel, copyBundles_convergence alicePrimitives _ _ ?_ ?_ ?_ ?_⟩
  · intro bundle
    simp only [List.flatten_cons, List.flatten_nil, List.append_nil, List.cons_append,
      List.nil_append, List.mem_cons, List.not_mem_nil, or_false]
    constructor
    · rintro (rfl | rfl)
      · exact Or.inr (Or.inr rfl)
      · exact Or.inl rfl
    · rintro (rfl | rfl | rfl)
      · exact Or.inr rfl
      · exact Or.inr rfl
      · exact Or.inl rfl
  · have hKeys : EventKey.fromSignedEvent alicePrimitives ⟨sign (key 1).key [1], [1]⟩ ≠
        EventKey.fromSignedEvent alicePrimitives ⟨sign (key 1).key [2], [2]⟩ := by decide +kernel
    simp only [OneEventPerKey, genesisBundle, successorBundle, List.flatten_cons, List.flatten_nil,
      List.append_nil, List.forall_mem_cons, List.not_mem_nil, false_imp_iff, implies_true,
      and_true, Option.mem_def, Option.some.injEq, forall_eq']
    grind
  · simp [OneProofListPerEvent, genesisBundle, successorBundle]
  · have hDigests : digest [11] ≠ digest [12] := by decide +kernel
    simp only [NoContentCollision, genesisBundle, successorBundle, List.flatten_cons,
      List.flatten_nil, List.append_nil, List.forall_mem_cons, List.not_mem_nil, false_imp_iff,
      implies_true, and_true, Option.mem_def, Option.some.injEq, forall_eq']
    exact ⟨⟨trivial, fun h => absurd h hDigests⟩, fun h => absurd h.symm hDigests⟩

end Polycentric.Client
