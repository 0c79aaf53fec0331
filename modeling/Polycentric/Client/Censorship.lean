import Polycentric.Client.Authenticity

/-! What one more server answer can take away. The merge is compared with and
without the answer, inserted between earlier and later ones; key by key, the
outcome depends on the copies that come first. -/
namespace Polycentric.Client

open Proto KeyedMerge

variable (P : Primitives)

/-- The content has the digest that the signed event commits to. -/
def ContentMatches (signed : SignedEvent) (content : SerializedContent) : Prop :=
  ∃ event digest, P.decodeEvent signed.eventBytes = .ok event ∧
    event.contentDigest = some digest ∧ digest.verifyAgainst P content.contentBytes = .ok ()

/-- Every bundle kept before is kept after, with the same signed event, and with
matching content if one of the original copies of its key attached some. -/
def Uncensored (originals before after : List EventBundle) : Prop :=
  ∀ b ∈ before, ∃ b' ∈ after, b'.signedEvent = b.signedEvent ∧
    ∀ signed, b.signedEvent = some signed →
      (∃ copy ∈ originals, eventDedupKey P copy = eventDedupKey P b ∧
        ∃ content, copy.serializedContent = some content ∧ ContentMatches P signed content) →
      ∃ content, b'.serializedContent = some content ∧ ContentMatches P signed content

/-- How the extra copies of a key, between the early and the late ones, leave it
as it is. -/
structure Undisturbed (client : PolycentricClient) (early extra late : List EventBundle) :
    Prop where
  /-- If the extra answer is the first to have the key, it has the same event. -/
  signed : early = [] → extra ≠ [] → firstSigned extra = firstSigned late
  /-- The event validates with the proofs that now come first. -/
  proofs : ∀ signed, firstSigned (early ++ late) = some signed →
    (client.validateEvent P signed (firstProofs (early ++ extra ++ late))).isOk = true
  /-- Matching content, if there is any, is not preceded by other content. -/
  content : ∀ signed, firstSigned (early ++ late) = some signed →
    (∃ copy ∈ early ++ late, ∃ content, copy.serializedContent = some content ∧
      ContentMatches P signed content) →
    ∃ content, firstContent (early ++ extra ++ late) = some content ∧
      ContentMatches P signed content

/-- No surviving key is disturbed. -/
def NoneDisturbed (client : PolycentricClient) (early extra late : List EventBundle) : Prop :=
  ∀ k, survives P client
      (copies (eventDedupKey P) k early ++ copies (eventDedupKey P) k late) = true →
    Undisturbed P client (copies (eventDedupKey P) k early) (copies (eventDedupKey P) k extra)
      (copies (eventDedupKey P) k late)

/-- The dedup key of a signed event. -/
def signedDedupKey (signed : SignedEvent) : Option EventDedupKey :=
  (P.decodeEvent signed.eventBytes).toOption.bind dedupKey

variable {P}

theorem eventDedupKey_eq (bundle : EventBundle) :
    eventDedupKey P bundle = bundle.signedEvent.bind (signedDedupKey P) := by
  unfold eventDedupKey decodeEvent signedDedupKey
  cases bundle.signedEvent <;> rfl

/-- Copies of a key all carry a signed event. -/
theorem firstSigned_copies {k : EventDedupKey} {bundles : List EventBundle}
    (h : copies (eventDedupKey P) k bundles ≠ []) :
    ∃ signed, firstSigned (copies (eventDedupKey P) k bundles) = some signed := by
  obtain ⟨bundle, hMem⟩ := List.exists_mem_of_ne_nil _ h
  have hKey : eventDedupKey P bundle = some k := by
    simpa [copies] using (List.mem_filter.mp hMem).2
  rw [← Option.isSome_iff_exists, firstSigned, List.findSome?_isSome_iff]
  refine ⟨bundle, hMem, ?_⟩
  rw [eventDedupKey_eq, Option.bind_eq_some_iff] at hKey
  obtain ⟨signed, hSigned, -⟩ := hKey
  simp [hSigned]

theorem signedDedupKey_of_firstSigned {k : EventDedupKey} {bundles : List EventBundle}
    {signed : SignedEvent} (h : firstSigned (copies (eventDedupKey P) k bundles) = some signed) :
    signedDedupKey P signed = some k := by
  obtain ⟨bundle, hMem, hSigned⟩ := List.exists_of_findSome?_eq_some h
  have hKey : eventDedupKey P bundle = some k := by
    simpa [copies] using (List.mem_filter.mp hMem).2
  rw [eventDedupKey_eq, hSigned] at hKey
  exact hKey

theorem survives_iff {client : PolycentricClient} {bundles : List EventBundle} :
    survives P client bundles = true ↔ ∃ signed, firstSigned bundles = some signed ∧
      (client.validateEvent P signed (firstProofs bundles)).isOk = true := by
  unfold survives
  cases firstSigned bundles <;> simp

@[simp] theorem firstSigned_append (first second : List EventBundle) :
    firstSigned (first ++ second) = (firstSigned first).or (firstSigned second) :=
  List.findSome?_append

/-- The extra copies leave the signed event of a surviving key in place exactly
when they are preceded by another copy, absent or of the same event. -/
theorem firstSigned_undisturbed_iff {k : EventDedupKey} {early extra late : List EventBundle} :
    firstSigned (copies (eventDedupKey P) k (early ++ extra ++ late)) =
        firstSigned (copies (eventDedupKey P) k (early ++ late)) ↔
      (copies (eventDedupKey P) k early = [] → copies (eventDedupKey P) k extra ≠ [] →
        firstSigned (copies (eventDedupKey P) k extra) =
          firstSigned (copies (eventDedupKey P) k late)) := by
  simp only [copies_append, firstSigned_append]
  by_cases hEarly : copies (eventDedupKey P) k early = []
  · by_cases hExtra : copies (eventDedupKey P) k extra = []
    · simp [hEarly, hExtra, firstSigned]
    · obtain ⟨signed, hSigned⟩ := firstSigned_copies hExtra
      rw [hEarly, hSigned]
      simp [firstSigned, hExtra]
  · obtain ⟨signed, hSigned⟩ := firstSigned_copies hEarly
    simp [hSigned, hEarly]

/-- The merged bundles that one client keeps. -/
def keptBundles (P : Primitives) (client : PolycentricClient) (bundles : List EventBundle) :
    List EventBundle :=
  retainValidatedBundles P client (mergeEventBundles P bundles)

/-- The content clause of a merged bundle, in terms of the copies of its key. -/
theorem exists_copy_iff {k : EventDedupKey} {bundles : List EventBundle} {b : EventBundle}
    {p : SerializedContent → Prop} (hKey : eventDedupKey P b = some k) :
    (∃ copy ∈ bundles, eventDedupKey P copy = eventDedupKey P b ∧
        ∃ content, copy.serializedContent = some content ∧ p content) ↔
      ∃ copy ∈ copies (eventDedupKey P) k bundles,
        ∃ content, copy.serializedContent = some content ∧ p content := by
  simp [copies, hKey, and_assoc]

theorem eventDedupKey_mergeAll {k : EventDedupKey} {bundles : List EventBundle} {b : EventBundle}
    {signed : SignedEvent}
    (hMerge : mergeAll mergeBundle (copies (eventDedupKey P) k bundles) = some b)
    (hSigned : firstSigned (copies (eventDedupKey P) k bundles) = some signed) :
    eventDedupKey P b = some k := by
  rw [eventDedupKey_eq, (mergeAll_mergeBundle hMerge).1, hSigned]
  exact signedDedupKey_of_firstSigned hSigned

/-- A bundle with the same signed event after the extra answer comes from the
copies of the same key, so the comparison goes key by key. -/
theorem keptBundles_uncensored_iff {client : PolycentricClient}
    {early extra late : List EventBundle} :
    Uncensored P (early ++ late) (keptBundles P client (early ++ late))
        (keptBundles P client (early ++ extra ++ late)) ↔
      NoneDisturbed P client early extra late := by
  constructor
  · intro h k hSurvives
    rw [← copies_append] at hSurvives
    obtain ⟨signed, hSigned, -⟩ := survives_iff.mp hSurvives
    obtain ⟨b, hMerge⟩ := survives_ne_nil hSurvives
    obtain ⟨b', hKept', hSame, hContent⟩ :=
      h b (mem_retainValidatedBundles_iff.mpr ⟨k, hMerge, hSurvives⟩)
    obtain ⟨k', hMerge', hSurvives'⟩ := mem_retainValidatedBundles_iff.mp hKept'
    have hEvent : b.signedEvent = some signed := (mergeAll_mergeBundle hMerge).1.trans hSigned
    have hSigned' : firstSigned (copies (eventDedupKey P) k' (early ++ extra ++ late)) =
        some signed := (mergeAll_mergeBundle hMerge').1.symm.trans (hSame.trans hEvent)
    obtain rfl : k' = k := Option.some.inj
      ((signedDedupKey_of_firstSigned hSigned').symm.trans (signedDedupKey_of_firstSigned hSigned))
    refine ⟨firstSigned_undisturbed_iff.mp (hSigned'.trans hSigned.symm), ?_, ?_⟩
    · intro signed' hFirst
      rw [← copies_append, hSigned] at hFirst
      obtain rfl : signed = signed' := Option.some.inj hFirst
      obtain ⟨signed', hFirst', hValid⟩ := survives_iff.mp hSurvives'
      rw [hSigned'] at hFirst'
      obtain rfl : signed = signed' := Option.some.inj hFirst'
      simpa only [copies_append] using hValid
    · intro signed' hFirst hCopy
      rw [← copies_append, hSigned] at hFirst
      obtain rfl : signed = signed' := Option.some.inj hFirst
      rw [← copies_append] at hCopy
      have hOriginal := (exists_copy_iff (eventDedupKey_mergeAll hMerge hSigned)).mpr hCopy
      have := hContent signed hEvent hOriginal
      rwa [(mergeAll_mergeBundle hMerge').2.1, copies_append, copies_append] at this
  · intro h b hKept
    obtain ⟨k, hMerge, hSurvives⟩ := mem_retainValidatedBundles_iff.mp hKept
    obtain ⟨signed, hSigned, -⟩ := survives_iff.mp hSurvives
    have hUndisturbed := h k (by rwa [copies_append] at hSurvives)
    have hFirst : firstSigned (copies (eventDedupKey P) k early ++
        copies (eventDedupKey P) k late) = some signed := by rwa [copies_append] at hSigned
    have hSigned' := (firstSigned_undisturbed_iff.mpr hUndisturbed.signed).trans hSigned
    have hSurvives' : survives P client
        (copies (eventDedupKey P) k (early ++ extra ++ late)) = true := by
      refine survives_iff.mpr ⟨signed, hSigned', ?_⟩
      simpa only [copies_append] using hUndisturbed.proofs signed hFirst
    obtain ⟨b', hMerge'⟩ := survives_ne_nil hSurvives'
    refine ⟨b', mem_retainValidatedBundles_iff.mpr ⟨k, hMerge', hSurvives'⟩, ?_, ?_⟩
    · rw [(mergeAll_mergeBundle hMerge').1, (mergeAll_mergeBundle hMerge).1, hSigned', hSigned]
    · intro signed' hEvent hOriginal
      rw [(mergeAll_mergeBundle hMerge).1, hSigned] at hEvent
      obtain rfl : signed = signed' := Option.some.inj hEvent
      rw [exists_copy_iff (eventDedupKey_mergeAll hMerge hSigned), copies_append] at hOriginal
      rw [(mergeAll_mergeBundle hMerge').2.1, copies_append, copies_append]
      exact hUndisturbed.content signed hFirst hOriginal

/-- The bundles inside the hints that a merge keeps. -/
def BundleResponse.hintBundles (response : BundleResponse) : List EventBundle :=
  response.eventHints.filterMap EventHint.eventBundle

theorem mergeBundleResponse_hintBundles (decode : Bytes → Option BundleResponse)
    (values : List Bytes) (client : PolycentricClient) :
    (mergeBundleResponse P decode values client).hintBundles =
      keptBundles P client (receivedHintBundles decode values) := by
  simp [BundleResponse.hintBundles, mergeBundleResponse, retainValidatedHints, mergeEventHints,
    keptBundles, retainValidatedBundles, receivedHintBundles, List.filter_map, Function.comp_def]

theorem receivedBundles_append (decode : Bytes → Option BundleResponse)
    (first second : List Bytes) :
    receivedBundles decode (first ++ second) =
      receivedBundles decode first ++ receivedBundles decode second := by
  simp [receivedBundles]

theorem receivedHintBundles_append (decode : Bytes → Option BundleResponse)
    (first second : List Bytes) :
    receivedHintBundles decode (first ++ second) =
      receivedHintBundles decode first ++ receivedHintBundles decode second := by
  simp [receivedHintBundles]

variable (P)

/-- An extra answer at any position censors nothing exactly when it disturbs no
surviving key, among the bundles and among the hints. -/
theorem mergeBundleResponse_uncensored_iff (decode : Bytes → Option BundleResponse)
    (before after : List Bytes) (extra : Bytes) (client : PolycentricClient) :
    (Uncensored P (receivedBundles decode (before ++ after))
        (mergeBundleResponse P decode (before ++ after) client).eventBundles
        (mergeBundleResponse P decode (before ++ [extra] ++ after) client).eventBundles ∧
      Uncensored P (receivedHintBundles decode (before ++ after))
        (mergeBundleResponse P decode (before ++ after) client).hintBundles
        (mergeBundleResponse P decode (before ++ [extra] ++ after) client).hintBundles) ↔
      NoneDisturbed P client (receivedBundles decode before) (receivedBundles decode [extra])
          (receivedBundles decode after) ∧
        NoneDisturbed P client (receivedHintBundles decode before)
          (receivedHintBundles decode [extra]) (receivedHintBundles decode after) := by
  rw [← keptBundles_uncensored_iff, ← keptBundles_uncensored_iff]
  simp only [mergeBundleResponse_hintBundles, receivedHintBundles_append,
    ← receivedBundles_append]
  exact Iff.rfl

end Polycentric.Client

namespace Polycentric.TableInstance

open Client Proto

/-- Event `[3]` is a post; event `[4]` has the same key and an empty clock. -/
def rivalPrimitives : Primitives := primitives
  [([1], event Collections.identity aliceIdentity (key 1) 1 [] [11]),
    ([3], event Collections.feed aliceIdentity (key 2) 1 [0, 1] [13]),
    ([4], event Collections.feed aliceIdentity (key 2) 1 [] [13])]
  [([11], ⟨some (.identity genesis)⟩), ([13], ⟨some (.post ⟨"hello", none, [], none, []⟩)⟩)]

def signedPost : EventBundle := ⟨some ⟨sign (key 2).key [3], [3]⟩, some ⟨[13]⟩, [], none⟩

def rivalPost : EventBundle := ⟨some ⟨[], [4]⟩, none, [], none⟩

/-- The answer `[1]` is the post and every other answer the rival. -/
def rivalAnswers : Bytes → Option BundleResponse :=
  fun bytes => some ⟨[if bytes = [1] then signedPost else rivalPost], [], none⟩

end Polycentric.TableInstance

namespace Polycentric.Client

open TableInstance

/-- The post of an honest server is kept alone and lost behind the rival. -/
theorem mergeBundleResponse_uncensored_rival :
    ¬Uncensored rivalPrimitives (receivedBundles rivalAnswers ([] ++ [[1]]))
      (mergeBundleResponse rivalPrimitives rivalAnswers ([] ++ [[1]]) aliceClient).eventBundles
      (mergeBundleResponse rivalPrimitives rivalAnswers ([] ++ [[2]] ++ [[1]])
        aliceClient).eventBundles := by
  intro h
  have hWithout : (mergeBundleResponse rivalPrimitives rivalAnswers ([] ++ [[1]])
      aliceClient).eventBundles = [signedPost] := by decide +kernel
  have hWith : (mergeBundleResponse rivalPrimitives rivalAnswers ([] ++ [[2]] ++ [[1]])
      aliceClient).eventBundles = [] := by decide +kernel
  rw [hWithout, hWith] at h
  obtain ⟨b', hMem, -⟩ := h signedPost List.mem_cons_self
  cases hMem

end Polycentric.Client
