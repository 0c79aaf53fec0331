import Polycentric.Client.Feed

/-! Whether what survives a merge is authentic. Merging takes the signed event and
the content of a key from possibly different servers, and validation looks at
neither the signature nor the digest, so the answer depends on the first copies
that the servers sent. -/
namespace Polycentric.Client

open Proto KeyedMerge Result

variable (P : Primitives)

/-- The signature verifies under the key that the event names as signer, and
attached content has the digest in the event. -/
def AuthenticParts (signedEvent : Option SignedEvent) (content : Option SerializedContent) :
    Prop :=
  ∃ signed event key signer, signedEvent = some signed ∧
    P.decodeEvent signed.eventBytes = .ok event ∧ event.key = some key ∧
    key.signedBy = some signer ∧
    signer.sigMatches P signed.signature signed.eventBytes = true ∧
    ∀ attached, content = some attached → ∃ digest, event.contentDigest = some digest ∧
      digest.verifyAgainst P attached.contentBytes = .ok ()

def Authentic (bundle : EventBundle) : Prop :=
  AuthenticParts P bundle.signedEvent bundle.serializedContent

/-- All bundles and hints of a response. -/
def BundleResponse.AllAuthentic (response : BundleResponse) : Prop :=
  (∀ bundle ∈ response.eventBundles, Authentic P bundle) ∧
    ∀ hint ∈ response.eventHints, ∀ bundle, hint.eventBundle = some bundle → Authentic P bundle

/-- Whether the copies of one key survive: the first signed event validates with
the first proofs attached to any copy. -/
def survives (client : PolycentricClient) (bundles : List EventBundle) : Bool :=
  match firstSigned bundles with
  | some signed => (client.validateEvent P signed (firstProofs bundles)).isOk
  | none => false

/-- The copies of every surviving key start with a genuine signature, and the
first content among them is the one the event commits to. -/
def GenuineFirstCopies (client : PolycentricClient) (bundles : List EventBundle) : Prop :=
  ∀ k, survives P client (copies (eventDedupKey P) k bundles) = true →
    AuthenticParts P (firstSigned (copies (eventDedupKey P) k bundles))
      (firstContent (copies (eventDedupKey P) k bundles))

variable {P}

theorem isValidated_mergeAll {client : PolycentricClient} {bundles : List EventBundle}
    {b : EventBundle} (h : mergeAll mergeBundle bundles = some b) :
    isValidated P client b = survives P client bundles := by
  obtain ⟨hSigned, -, hProofs⟩ := mergeAll_mergeBundle h
  cases hFirst : firstSigned bundles with
  | none => simp [isValidated, survives, hSigned, hFirst]
  | some signed => simp [isValidated, survives, hSigned, hFirst, hProofs]

/-- A bundle without a key does not validate. -/
theorem isValidated_eventDedupKey {client : PolycentricClient} {bundle : EventBundle}
    (h : isValidated P client bundle = true) : (eventDedupKey P bundle).isSome = true := by
  unfold isValidated at h
  split at h
  · next signed hSigned =>
      obtain ⟨event, k, hEvent, hKey⟩ := validateEvent_isOk h
      simp [eventDedupKey, decodeEvent, hSigned, hEvent, hKey, Except.toOption]
  · cases h

theorem survives_ne_nil {client : PolycentricClient} {bundles : List EventBundle}
    (h : survives P client bundles = true) : ∃ b, mergeAll mergeBundle bundles = some b := by
  cases bundles with
  | nil => simp [survives, firstSigned] at h
  | cons first rest => exact ⟨_, rfl⟩

/-- The bundles that a merge keeps are the surviving keys' merged copies. -/
theorem mem_retainValidatedBundles_iff {client : PolycentricClient} {bundles : List EventBundle}
    {b : EventBundle} :
    b ∈ retainValidatedBundles P client (mergeEventBundles P bundles) ↔
      ∃ k, mergeAll mergeBundle (copies (eventDedupKey P) k bundles) = some b ∧
        survives P client (copies (eventDedupKey P) k bundles) = true := by
  rw [retainValidatedBundles, List.mem_filter, mergeEventBundles, mem_mergeByKey_iff]
  constructor
  · rintro ⟨⟨_, hNone⟩ | ⟨k, hMerge⟩, hValid⟩
    · have hSome := isValidated_eventDedupKey hValid
      rw [hNone] at hSome
      cases hSome
    · exact ⟨k, hMerge, isValidated_mergeAll hMerge ▸ hValid⟩
  · rintro ⟨k, hMerge, hSurvives⟩
    exact ⟨Or.inr ⟨k, hMerge⟩, (isValidated_mergeAll hMerge).trans hSurvives⟩

theorem retainValidatedBundles_authentic_iff {client : PolycentricClient}
    {bundles : List EventBundle} :
    (∀ b ∈ retainValidatedBundles P client (mergeEventBundles P bundles), Authentic P b) ↔
      GenuineFirstCopies P client bundles := by
  constructor
  · intro h k hSurvives
    obtain ⟨b, hMerge⟩ := survives_ne_nil hSurvives
    obtain ⟨hSigned, hContent, -⟩ := mergeAll_mergeBundle hMerge
    rw [← hSigned, ← hContent]
    exact h b (mem_retainValidatedBundles_iff.mpr ⟨k, hMerge, hSurvives⟩)
  · intro h b hMem
    obtain ⟨k, hMerge, hSurvives⟩ := mem_retainValidatedBundles_iff.mp hMem
    obtain ⟨hSigned, hContent, -⟩ := mergeAll_mergeBundle hMerge
    rw [Authentic, hSigned, hContent]
    exact h k hSurvives

/-- Hints are merged and validated as the bundles they carry. -/
theorem mem_retainValidatedHints_iff {client : PolycentricClient} {hints : List EventHint}
    {hint : EventHint} :
    hint ∈ retainValidatedHints P client (mergeEventHints P hints) ↔
      ∃ b ∈ retainValidatedBundles P client
        (mergeEventBundles P (hints.filterMap EventHint.eventBundle)), hint = ⟨some b⟩ := by
  simp only [retainValidatedHints, retainValidatedBundles, mergeEventHints, List.mem_filter,
    List.mem_map]
  constructor
  · rintro ⟨⟨b, hMem, rfl⟩, hValid⟩
    exact ⟨b, ⟨hMem, by simpa using hValid⟩, rfl⟩
  · rintro ⟨b, ⟨hMem, hValid⟩, rfl⟩
    exact ⟨⟨b, hMem, rfl⟩, by simpa using hValid⟩

/-- The bundles of all responses that decode, in order. -/
def receivedBundles (decode : Bytes → Option BundleResponse) (values : List Bytes) :
    List EventBundle :=
  (values.filterMap decode).flatMap BundleResponse.eventBundles

/-- The bundles of all hints received. -/
def receivedHintBundles (decode : Bytes → Option BundleResponse) (values : List Bytes) :
    List EventBundle :=
  ((values.filterMap decode).flatMap BundleResponse.eventHints).filterMap EventHint.eventBundle

theorem mergeBundleResponse_allAuthentic_iff {decode : Bytes → Option BundleResponse}
    {values : List Bytes} {client : PolycentricClient} :
    (mergeBundleResponse P decode values client).AllAuthentic P ↔
      GenuineFirstCopies P client (receivedBundles decode values) ∧
        GenuineFirstCopies P client (receivedHintBundles decode values) := by
  unfold BundleResponse.AllAuthentic
  refine and_congr retainValidatedBundles_authentic_iff ?_
  rw [← retainValidatedBundles_authentic_iff]
  constructor
  · intro h b hMem
    exact h ⟨some b⟩ (mem_retainValidatedHints_iff.mpr ⟨b, hMem, rfl⟩) b rfl
  · intro h hint hMem bundle hBundle
    obtain ⟨b, hb, rfl⟩ := mem_retainValidatedHints_iff.mp hMem
    obtain rfl : b = bundle := Option.some.inj hBundle
    exact h b hb

variable (P)

/-- Everything that the merges keep is authentic exactly when the servers' first
copies are genuine. -/
theorem merge_allAuthentic_iff (codec : CursorCodec) (decay : UInt64 → UInt64 → UInt64)
    (decode : Bytes → Option BundleResponse) (values : List Bytes) (client : PolycentricClient) :
    ((mergeBundleResponse P decode values client).AllAuthentic P ∧
      ∀ nowMs previous order windowSize, (doFeedMerge P codec decay decode nowMs values previous
        client true order windowSize).AllAuthentic P) ↔
      GenuineFirstCopies P client (receivedBundles decode values) ∧
        GenuineFirstCopies P client (receivedHintBundles decode values) := by
  rw [← mergeBundleResponse_allAuthentic_iff]
  refine ⟨fun h => h.1, fun h => ⟨h, ?_⟩⟩
  intro nowMs previous order windowSize
  obtain ⟨hBundles, hHints⟩ := h
  constructor
  · intro bundle hMem
    exact hBundles bundle (mem_doFeedMerge_eventBundles hMem)
  · intro hint hMem
    exact hHints hint (mem_doFeedMerge_eventHints hMem)

end Polycentric.Client

namespace Polycentric.TableInstance

open Client Proto

/-! A client that knows the genesis event of an identity, and a post of that
identity whose signature is empty. -/

/-- Event `[3]` is a post of the signing key with content `[13]`. -/
def postPrimitives : Primitives := primitives
  [([1], event Collections.identity aliceIdentity (key 1) 1 [] [11]),
    ([3], event Collections.feed aliceIdentity (key 2) 1 [0, 1] [13])]
  [([11], ⟨some (.identity genesis)⟩), ([13], ⟨some (.post ⟨"hello", none, [], none, []⟩)⟩)]

def aliceClient : PolycentricClient where
  activeIdentity := none
  blockedIdentities := none
  eventStore := ⟨[(⟨aliceIdentity, Collections.identity, 1, (key 1).key, 1⟩,
    ⟨sign (key 1).key [1], [1]⟩)], List.pairwise_singleton _ _⟩
  eventProofsStore := KeyMap.empty
  contentStore := ⟨[(⟨contentDigestTypeSha256, (digest [11]).val⟩, [11])]⟩
  metaStore := KeyMap.empty
  chains := []

def unsignedPost : EventBundle := ⟨some ⟨[], [3]⟩, none, [], none⟩

/-- A server that answers with the given bundles. -/
def answer (bundles : List EventBundle) : Bytes → Option BundleResponse :=
  fun _ => some ⟨bundles, [], none⟩

end Polycentric.TableInstance

namespace Polycentric.Client

open TableInstance

/-- The unsigned post is kept. -/
theorem merge_allAuthentic_unsigned :
    ¬(mergeBundleResponse postPrimitives (answer [unsignedPost]) [[]] aliceClient).AllAuthentic
      postPrimitives := by
  rintro ⟨hBundles, -⟩
  have hKept : unsignedPost ∈
      (mergeBundleResponse postPrimitives (answer [unsignedPost]) [[]] aliceClient).eventBundles := by
    decide +kernel
  obtain ⟨signed, event, key, signer, hSigned, hEvent, hKey, hSigner, hMatches, -⟩ :=
    hBundles _ hKept
  obtain rfl : (⟨[], [3]⟩ : Proto.SignedEvent) = signed := Option.some.inj hSigned
  obtain rfl : _ = event := Except.ok.inj hEvent
  obtain rfl : _ = key := Option.some.inj hKey
  obtain rfl : _ = signer := Option.some.inj hSigner
  exact absurd hMatches (by decide +kernel)

end Polycentric.Client
