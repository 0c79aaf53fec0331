import Polycentric.Client.PageOrder
import Polycentric.Library.Selection

/-! The reactions to a post, `query/reactions.rs`. Of every identity the newest valid
reaction is current, and among reactions of the same time the one that arrived first. -/
namespace Polycentric.Client

open Proto KeyedMerge Selection

variable (P : Primitives)

/-- A bundle with the fields that decide which reaction is current. -/
structure DecodedReaction where
  bundle : EventBundle
  identity : String
  createdAt : UInt64

def decodeReaction (bundle : EventBundle) : Option DecodedReaction := do
  let event ← decodeEvent P bundle
  let key ← event.key
  return ⟨bundle, key.identity, event.createdAt⟩

/-- Keep only the most recent reaction for each identity: sorted from newest to oldest, the
first one of every identity. -/
def retainNewestReactionPerIdentity (bundles : List EventBundle) : List EventBundle :=
  (latestOfEach DecodedReaction.identity (fun reaction => reaction.createdAt.toNat)
    (bundles.filterMap (decodeReaction P))).map DecodedReaction.bundle

/-- Merge as any other response, and drop superseded reactions. -/
def mergeReactionResponses (decode : Bytes → Option BundleResponse) (values : List Bytes)
    (client : PolycentricClient) : BundleResponse :=
  let merged := mergeBundleResponse P decode values client
  { merged with eventBundles := retainNewestReactionPerIdentity P merged.eventBundles }

/-! ### The current reaction -/

def isReactionOf (identity : String) (bundle : EventBundle) : Bool :=
  (decodeReaction P bundle).any fun reaction => reaction.identity = identity

def reactionTime (bundle : EventBundle) : Nat :=
  (decodeEvent P bundle).elim 0 fun event => event.createdAt.toNat

def isValidReaction (client : PolycentricClient) (identity : String) (bundle : EventBundle) : Bool :=
  isValidated P client bundle && isReactionOf P identity bundle

/-- A valid reaction of the identity that no other one in the list is newer than. -/
def IsNewest (client : PolycentricClient) (bundles : List EventBundle) (identity : String)
    (bundle : EventBundle) : Prop :=
  isValidReaction P client identity bundle = true ∧
    ∀ other ∈ bundles, isValidReaction P client identity other = true →
      reactionTime P other ≤ reactionTime P bundle

instance (client : PolycentricClient) (bundles : List EventBundle) (identity : String) :
    DecidablePred (IsNewest P client bundles identity) :=
  fun _ => inferInstanceAs (Decidable (_ ∧ _))

/-- The first of the newest reactions of an identity in a list. -/
def firstNewest (client : PolycentricClient) (received : List EventBundle) (identity : String)
    (bundles : List EventBundle) : Option EventBundle :=
  bundles.find? fun bundle => IsNewest P client received identity bundle

variable {P} {client : PolycentricClient} {decode : Bytes → Option BundleResponse}
  {values values' : List Bytes} {bundles : List EventBundle} {identity : String} {a b : EventBundle}

theorem decodeReaction_bundle {reaction : DecodedReaction} (h : decodeReaction P b = some reaction) :
    reaction.bundle = b ∧ reaction.createdAt.toNat = reactionTime P b := by
  unfold decodeReaction at h
  cases hEvent : decodeEvent P b with
  | none => simp [hEvent] at h
  | some event =>
      cases hKey : event.key with
      | none => simp [hEvent, hKey] at h
      | some key =>
          obtain rfl : (⟨b, key.identity, event.createdAt⟩ : DecodedReaction) = reaction := by
            simpa [hEvent, hKey] using h
          exact ⟨rfl, by simp [reactionTime, hEvent]⟩

/-- Whether a decoded reaction is a newest one is read off the bundles. -/
theorem newest_decoded_iff {reaction : DecodedReaction} (hDecoded : decodeReaction P b = some reaction) :
    (∀ other ∈ bundles.filterMap (decodeReaction P), other.identity = identity →
        other.createdAt.toNat ≤ reaction.createdAt.toNat) ↔
      ∀ other ∈ bundles, isReactionOf P identity other = true →
        reactionTime P other ≤ reactionTime P b := by
  rw [List.forall_mem_filterMap]
  refine forall₂_congr fun other _ => ?_
  rw [(decodeReaction_bundle hDecoded).2]
  cases hOther : decodeReaction P other with
  | none => simp [isReactionOf, hOther]
  | some otherReaction => simp [isReactionOf, hOther, (decodeReaction_bundle hOther).2]

/-- The first newest decoded reaction is the first newest bundle, decoded. -/
theorem find?_decoded (bundles : List EventBundle) (identity : String) :
    ((bundles.filterMap (decodeReaction P)).find? fun reaction =>
        reaction.identity = identity ∧ ∀ other ∈ bundles.filterMap (decodeReaction P),
          other.identity = identity → other.createdAt.toNat ≤ reaction.createdAt.toNat) =
      (bundles.find? fun bundle => isReactionOf P identity bundle ∧
        ∀ other ∈ bundles, isReactionOf P identity other = true →
          reactionTime P other ≤ reactionTime P bundle).bind (decodeReaction P) := by
  rw [List.find?_filterMap]
  congr 1
  refine List.find?_congr fun bundle _ => ?_
  cases hDecoded : decodeReaction P bundle with
  | none => simp [isReactionOf, hDecoded]
  | some reaction =>
      rw [Option.any_some]
      refine decide_eq_decide.mpr (and_congr ?_ (newest_decoded_iff hDecoded))
      simp [isReactionOf, hDecoded]

/-- Of every identity the first of the newest reactions is kept. -/
theorem filter_retainNewest (bundles : List EventBundle) (identity : String) :
    ((retainNewestReactionPerIdentity P bundles).filter (isReactionOf P identity)) =
      (bundles.find? fun bundle => isReactionOf P identity bundle ∧
        ∀ other ∈ bundles, isReactionOf P identity other = true →
          reactionTime P other ≤ reactionTime P bundle).toList := by
  have hSame : ∀ reaction ∈ latestOfEach DecodedReaction.identity (fun reaction => reaction.createdAt.toNat)
      (bundles.filterMap (decodeReaction P)),
      (isReactionOf P identity ∘ DecodedReaction.bundle) reaction =
        decide (reaction.identity = identity) := by
    intro reaction hReaction
    obtain ⟨bundle, -, hDecoded⟩ := List.mem_filterMap.mp (latestOfEach_subset hReaction)
    rw [Function.comp, (decodeReaction_bundle hDecoded).1, isReactionOf, hDecoded]
    rfl
  rw [retainNewestReactionPerIdentity, List.filter_map,
    List.filter_congr fun reaction hReaction => hSame reaction hReaction, filter_latestOfEach, find?_decoded]
  cases hFirst : bundles.find? fun bundle => isReactionOf P identity bundle ∧
      ∀ other ∈ bundles, isReactionOf P identity other = true →
        reactionTime P other ≤ reactionTime P bundle with
  | none => rfl
  | some bundle =>
      have hReaction : isReactionOf P identity bundle = true := by
        have hBoth := List.find?_some hFirst
        simp only [decide_eq_true_eq] at hBoth
        exact hBoth.1
      cases hDecoded : decodeReaction P bundle with
      | none => simp [isReactionOf, hDecoded] at hReaction
      | some reaction => simp [hDecoded, (decodeReaction_bundle hDecoded).1]

/-! ### Copies of one event -/

/-- Bundles that differ in their metadata only are reactions alike. -/
theorem SameParts.decodeEvent_eq (h : SameParts a b) : decodeEvent P a = decodeEvent P b := by
  unfold decodeEvent
  rw [h.1]

/-- Copies that differ in their metadata are valid alike. -/
theorem SameParts.isValidReaction_eq (h : SameParts a b) :
    isValidReaction P client identity a = isValidReaction P client identity b := by
  have hDecoded : isReactionOf P identity a = isReactionOf P identity b := by
    unfold isReactionOf decodeReaction
    rw [h.decodeEvent_eq]
    cases decodeEvent P b with
    | none => rfl
    | some event => cases hKey : event.key <;> simp [hKey]
  unfold isValidReaction isValidated
  rw [hDecoded, h.1, h.2.2]

theorem SameParts.isNewest_iff (h : SameParts a b) :
    IsNewest P client bundles identity a ↔ IsNewest P client bundles identity b := by
  unfold IsNewest reactionTime
  rw [h.isValidReaction_eq, h.decodeEvent_eq]

/-- Merging leaves a copy of each bundle, and nothing else. -/
theorem mergeEventBundles_copies (hCopies : CopiesAgree P bundles) :
    (∀ merged ∈ mergeEventBundles P bundles, ∃ received ∈ bundles, SameParts merged received) ∧
      ∀ received ∈ bundles, ∃ merged ∈ mergeEventBundles P bundles, SameParts merged received := by
  have hMerged : ∀ k merged, mergeAll mergeBundle (copies (eventDedupKey P) k bundles) = some merged →
      ∀ received ∈ bundles, eventDedupKey P received = some k → SameParts merged received := by
    intro k merged hMerge received hReceived hKey
    refine mergeAll_mem (commutes_mergeBundle received).closed ?_ hMerge
    intro x hx
    obtain ⟨hMem, hCopy⟩ : x ∈ bundles ∧ eventDedupKey P x = some k := by simpa [copies] using hx
    exact hCopies x hMem received hReceived k hCopy hKey
  constructor
  · intro merged hMem
    rcases mem_mergeByKey_iff.mp hMem with ⟨hReceived, -⟩ | ⟨k, hMerge⟩
    · exact ⟨merged, hReceived, rfl, rfl, rfl⟩
    · cases hFirst : copies (eventDedupKey P) k bundles with
      | nil => rw [hFirst] at hMerge; cases hMerge
      | cons first rest =>
          have hCopy : first ∈ copies (eventDedupKey P) k bundles := hFirst ▸ List.mem_cons_self
          obtain ⟨hReceived, hKey⟩ : first ∈ bundles ∧ eventDedupKey P first = some k := by
            simpa [copies] using hCopy
          exact ⟨first, hReceived, hMerged k merged hMerge first hReceived hKey⟩
  · intro received hReceived
    cases hKey : eventDedupKey P received with
    | none => exact ⟨received, mem_mergeByKey_iff.mpr (Or.inl ⟨hReceived, hKey⟩), rfl, rfl, rfl⟩
    | some k =>
        have hCopy : received ∈ copies (eventDedupKey P) k bundles := by simp [copies, hReceived, hKey]
        cases hMerge : mergeAll mergeBundle (copies (eventDedupKey P) k bundles) with
        | none =>
            cases hFirst : copies (eventDedupKey P) k bundles with
            | nil => rw [hFirst] at hCopy; cases hCopy
            | cons first rest => rw [hFirst] at hMerge; cases hMerge
        | some merged =>
            exact ⟨merged, mem_mergeByKey_iff.mpr (Or.inr ⟨k, hMerge⟩),
              hMerged k merged hMerge received hReceived hKey⟩

/-! ### What is kept -/

/-- The first newest reaction of the merged bundles is kept. -/
theorem filter_mergeReactionResponses (hCopies : CopiesAgree P (receivedBundles decode values)) (identity : String) :
    ((mergeReactionResponses P decode values client).eventBundles.filter (isReactionOf P identity)) =
      (firstNewest P client (receivedBundles decode values) identity
        (mergeEventBundles P (receivedBundles decode values))).toList := by
  obtain ⟨hReceived, hMerged⟩ := mergeEventBundles_copies hCopies
  show ((retainNewestReactionPerIdentity P (retainValidatedBundles P client
    (mergeEventBundles P (receivedBundles decode values)))).filter (isReactionOf P identity)) = _
  rw [filter_retainNewest, retainValidatedBundles, List.find?_filter]
  congr 1
  refine List.find?_congr fun bundle _ => decide_eq_decide.mpr ?_
  have hNewest : (∀ other ∈ (mergeEventBundles P (receivedBundles decode values)).filter (isValidated P client),
      isReactionOf P identity other = true → reactionTime P other ≤ reactionTime P bundle) ↔
      ∀ other ∈ receivedBundles decode values, isValidReaction P client identity other = true →
        reactionTime P other ≤ reactionTime P bundle := by
    constructor
    · intro hAll other hOther hValid
      obtain ⟨merged, hMem, hSame⟩ := hMerged other hOther
      rw [← hSame.isValidReaction_eq, isValidReaction, Bool.and_eq_true] at hValid
      have hTime := hAll merged (List.mem_filter.mpr ⟨hMem, hValid.1⟩) hValid.2
      rwa [reactionTime, hSame.decodeEvent_eq] at hTime
    · intro hAll merged hMem hReaction
      obtain ⟨hMem, hValid⟩ := List.mem_filter.mp hMem
      obtain ⟨other, hOther, hSame⟩ := hReceived merged hMem
      have hTime := hAll other hOther (by
        rw [← hSame.isValidReaction_eq, isValidReaction, hValid, hReaction]
        rfl)
      rwa [reactionTime, ← hSame.decodeEvent_eq] at hTime
  rw [decide_eq_true_eq, hNewest, IsNewest, isValidReaction, Bool.and_eq_true, and_assoc]

theorem IsNewest.isSome_key (h : IsNewest P client bundles identity b) :
    (eventDedupKey P b).isSome = true := by
  have hValid := h.1
  rw [isValidReaction, Bool.and_eq_true] at hValid
  exact isValidated_eventDedupKey hValid.1

/-- Merging does not change which event the first newest reaction is. -/
theorem map_firstNewest_merge (hCopies : CopiesAgree P bundles) (identity : String) :
    (firstNewest P client bundles identity (mergeEventBundles P bundles)).map (eventDedupKey P) =
      (firstNewest P client bundles identity bundles).map (eventDedupKey P) := by
  classical
  obtain ⟨hReceived, -⟩ := mergeEventBundles_copies hCopies
  -- being the newest is a property of the key
  let isNewestKey : Option EventDedupKey → Bool := fun key =>
    ∃ received ∈ bundles, eventDedupKey P received = key ∧ IsNewest P client bundles identity received
  have hKey : ∀ bundle, (∃ received ∈ bundles, SameParts bundle received) →
      decide (IsNewest P client bundles identity bundle) = isNewestKey (eventDedupKey P bundle) := by
    intro bundle hCopy
    obtain ⟨received, hMem, hSame⟩ := hCopy
    have hSameKey : eventDedupKey P bundle = eventDedupKey P received := by
      rw [eventDedupKey, hSame.decodeEvent_eq]
      rfl
    refine decide_eq_decide.mpr ⟨fun hNewest => ?_, fun hKeyed => ?_⟩
    · exact ⟨received, hMem, hSameKey.symm, hSame.isNewest_iff.mp hNewest⟩
    · obtain ⟨other, hOther, hOtherKey, hNewest⟩ := hKeyed
      obtain ⟨k, hk⟩ := Option.isSome_iff_exists.mp hNewest.isSome_key
      have hAgree := hCopies received hMem other hOther k
        (hSameKey.symm.trans (hOtherKey.symm.trans hk)) hk
      exact hSame.isNewest_iff.mpr (hAgree.isNewest_iff.mpr hNewest)
  have hBundles : firstNewest P client bundles identity bundles =
      bundles.find? fun bundle => isNewestKey (eventDedupKey P bundle) :=
    List.find?_congr fun bundle hMem => hKey bundle ⟨bundle, hMem, rfl, rfl, rfl⟩
  have hMerged : firstNewest P client bundles identity (mergeEventBundles P bundles) =
      (mergeEventBundles P bundles).find? fun bundle => isNewestKey (eventDedupKey P bundle) :=
    List.find?_congr fun bundle hMem => hKey bundle (hReceived bundle hMem)
  rw [hBundles, hMerged]
  exact (keepsKey_mergeBundle P).map_find?_mergeByKey isNewestKey bundles

variable (P) in
/-- Of each identity with a valid reaction exactly one is kept, one that none is newer than. -/
def KeepsNewest (decode : Bytes → Option BundleResponse) (values : List Bytes) (client : PolycentricClient) :
    Prop :=
  ∀ identity, (∃ received ∈ receivedBundles decode values, isValidReaction P client identity received = true) →
    ∃ kept, ((mergeReactionResponses P decode values client).eventBundles.filter
        (isReactionOf P identity)) = [kept] ∧
      IsNewest P client (receivedBundles decode values) identity kept

variable (P) in
/-- All responses that have one of the newest reactions of an identity have the same one of
them first. -/
def SameFirst (decode : Bytes → Option BundleResponse) (values : List Bytes) (client : PolycentricClient) :
    Prop :=
  ∀ identity, ∀ response ∈ values.filterMap decode, ∀ other ∈ values.filterMap decode, ∀ a b,
    firstNewest P client (receivedBundles decode values) identity response.eventBundles = some a →
    firstNewest P client (receivedBundles decode values) identity other.eventBundles = some b →
    eventDedupKey P a = eventDedupKey P b

theorem isNewest_of_firstNewest {received : List EventBundle}
    (h : firstNewest P client received identity bundles = some b) : IsNewest P client received identity b := by
  have hFound := List.find?_some h
  simpa using hFound

/-- Among valid reactions of an identity there is a newest one. -/
theorem exists_newest (h : ∃ received ∈ bundles, isValidReaction P client identity received = true) :
    ∃ newest, firstNewest P client bundles identity bundles = some newest := by
  obtain ⟨received, hMem, hValid⟩ := h
  cases hValids : bundles.filter (isValidReaction P client identity) with
  | nil => exact absurd hValid (List.filter_eq_nil_iff.mp hValids received hMem)
  | cons first rest =>
      have hFirst := (isFirstGreatest_foldl (f := reactionTime P) first rest).find?_eq
      rw [← hValids, List.find?_filter] at hFirst
      refine ⟨_, Eq.trans (List.find?_congr fun bundle _ => decide_eq_decide.mpr ?_) hFirst⟩
      simp only [IsNewest, List.mem_filter, and_imp, decide_eq_true_eq]

/-- The newest reaction survives the merge. -/
theorem keepsNewest (hCopies : CopiesAgree P (receivedBundles decode values)) :
    KeepsNewest P decode values client := by
  intro identity hValid
  obtain ⟨newest, hNewest⟩ := @exists_newest P client _ identity hValid
  have hKey := @map_firstNewest_merge P client _ hCopies identity
  rw [hNewest] at hKey
  obtain ⟨kept, hKept, -⟩ := Option.map_eq_some_iff.mp hKey
  refine ⟨kept, ?_, isNewest_of_firstNewest hKept⟩
  rw [filter_mergeReactionResponses hCopies, hKept]
  rfl

/-- What is kept is a reaction of its identity. -/
theorem isReactionOf_of_kept (h : b ∈ (mergeReactionResponses P decode values client).eventBundles) :
    ∃ identity, isReactionOf P identity b = true := by
  obtain ⟨reaction, hReaction, rfl⟩ := List.mem_map.mp h
  obtain ⟨bundle, -, hDecoded⟩ := List.mem_filterMap.mp (latestOfEach_subset hReaction)
  refine ⟨reaction.identity, ?_⟩
  rw [(decodeReaction_bundle hDecoded).1, isReactionOf, hDecoded]
  exact decide_eq_true rfl

/-- The event that is kept of an identity is the first newest one of all responses. -/
theorem kept_iff (hCopies : CopiesAgree P (receivedBundles decode values)) :
    (b ∈ (mergeReactionResponses P decode values client).eventBundles ∧ isReactionOf P identity b = true) ↔
      b ∈ mergeEventBundles P (receivedBundles decode values) ∧
        ∃ first, firstNewest P client (receivedBundles decode values) identity (receivedBundles decode values) =
          some first ∧ eventDedupKey P b = eventDedupKey P first := by
  have hKey := @map_firstNewest_merge P client _ hCopies identity
  rw [← List.mem_filter, filter_mergeReactionResponses hCopies, Option.mem_toList]
  constructor
  · intro hKept
    rw [hKept] at hKey
    obtain ⟨first, hFirst, hSame⟩ := Option.map_eq_some_iff.mp hKey.symm
    exact ⟨List.mem_of_find?_eq_some hKept, first, hFirst, hSame.symm⟩
  · rintro ⟨hMem, first, hFirst, hSame⟩
    rw [hFirst] at hKey
    obtain ⟨kept, hKept, hKeptKey⟩ := Option.map_eq_some_iff.mp hKey
    obtain ⟨k, hk⟩ := Option.isSome_iff_exists.mp (isNewest_of_firstNewest hKept).isSome_key
    -- both are the merged copies of the key
    have hCopy : ∀ bundle ∈ mergeEventBundles P (receivedBundles decode values), eventDedupKey P bundle = some k →
        mergeAll mergeBundle (copies (eventDedupKey P) k (receivedBundles decode values)) = some bundle := by
      intro bundle hBundle hBundleKey
      have hMember : bundle ∈ copies (eventDedupKey P) k (mergeEventBundles P (receivedBundles decode values)) := by
        simp [copies, hBundle, hBundleKey]
      rw [mergeEventBundles, (keepsKey_mergeBundle P).copies_mergeByKey, Option.mem_toList] at hMember
      exact hMember
    have hb := hCopy b hMem (hSame.trans (hKeptKey.symm.trans hk))
    rw [hCopy kept (List.mem_of_find?_eq_some hKept) hk] at hb
    rw [hKept, hb]

/-- The newest reaction depends on what was received, and not on the order. -/
theorem isNewest_congr {received received' : List EventBundle} (h : ∀ b, b ∈ received ↔ b ∈ received') :
    IsNewest P client received identity = IsNewest P client received' identity := by
  funext bundle
  unfold IsNewest
  simp only [h]

theorem firstNewest_congr {received received' : List EventBundle} (h : ∀ b, b ∈ received ↔ b ∈ received') :
    firstNewest P client received identity = firstNewest P client received' identity := by
  funext bundles
  exact List.find?_congr fun bundle _ => decide_eq_decide.mpr (isNewest_congr h ▸ Iff.rfl)

/-- The first newest reaction of all responses is the first one of some response. -/
theorem firstNewest_receivedBundles (received : List EventBundle) (identity : String) :
    firstNewest P client received identity (receivedBundles decode values) =
      (values.filterMap decode).findSome? fun response =>
        firstNewest P client received identity response.eventBundles :=
  List.find?_flatMap

theorem receivedBundles_perm (hPerm : values.Perm values') :
    (receivedBundles decode values).Perm (receivedBundles decode values') :=
  (hPerm.filterMap decode).flatMap_right _

theorem CopiesAgree.perm {bundles' : List EventBundle} (h : CopiesAgree P bundles) (hPerm : bundles'.Perm bundles) :
    CopiesAgree P bundles' :=
  fun a ha b hb => h a (hPerm.mem_iff.mp ha) b (hPerm.mem_iff.mp hb)

/-- The reaction of a permutation is decided by the response that comes first there. -/
theorem kept_perm_iff (hCopies : CopiesAgree P (receivedBundles decode values)) (hPerm : values'.Perm values) :
    (b ∈ (mergeReactionResponses P decode values' client).eventBundles ∧ isReactionOf P identity b = true) ↔
      b ∈ mergeEventBundles P (receivedBundles decode values) ∧
        ∃ first, ((values'.filterMap decode).findSome? fun response =>
            firstNewest P client (receivedBundles decode values) identity response.eventBundles) = some first ∧
          eventDedupKey P b = eventDedupKey P first := by
  have hReceived := @receivedBundles_perm decode _ _ hPerm
  rw [kept_iff (hCopies.perm hReceived), mem_mergeEventBundles_perm (hCopies.perm hReceived) hReceived,
    firstNewest_congr fun b => hReceived.mem_iff, firstNewest_receivedBundles]

/-- If the responses agree, all orders of them start with a newest reaction of one key. -/
theorem SameFirst.first {values₁ values₂ : List Bytes} (h : SameFirst P decode values client)
    (hPerm₁ : values₁.Perm values) (hPerm₂ : values₂.Perm values)
    (ha : ((values₁.filterMap decode).findSome? fun response =>
      firstNewest P client (receivedBundles decode values) identity response.eventBundles) = some a) :
    ∃ b, ((values₂.filterMap decode).findSome? fun response =>
        firstNewest P client (receivedBundles decode values) identity response.eventBundles) = some b ∧
      eventDedupKey P a = eventDedupKey P b := by
  obtain ⟨response, hResponse, hFirst⟩ := List.exists_of_findSome?_eq_some ha
  have hMem := (hPerm₁.filterMap decode).mem_iff.mp hResponse
  cases hb : (values₂.filterMap decode).findSome? fun response =>
      firstNewest P client (receivedBundles decode values) identity response.eventBundles with
  | none =>
      have hNone := List.findSome?_eq_none_iff.mp hb response ((hPerm₂.filterMap decode).mem_iff.mpr hMem)
      rw [hFirst] at hNone
      cases hNone
  | some b =>
      obtain ⟨other, hOther, hOtherFirst⟩ := List.exists_of_findSome?_eq_some hb
      exact ⟨b, rfl, h identity response hMem other ((hPerm₂.filterMap decode).mem_iff.mp hOther) a b
        hFirst hOtherFirst⟩

/-- Every response that has a newest reaction decides what is kept if it comes first. -/
theorem exists_kept_of_first (hCopies : CopiesAgree P (receivedBundles decode values)) {response : BundleResponse}
    (hResponse : response ∈ values.filterMap decode)
    (ha : firstNewest P client (receivedBundles decode values) identity response.eventBundles = some a) :
    ∃ values', values'.Perm values ∧ ∃ kept,
      (kept ∈ (mergeReactionResponses P decode values' client).eventBundles ∧
        isReactionOf P identity kept = true) ∧ eventDedupKey P kept = eventDedupKey P a := by
  obtain ⟨value, hValue, hDecode⟩ := List.mem_filterMap.mp hResponse
  have hPerm := (List.perm_cons_erase hValue).symm
  have hReceived := @receivedBundles_perm decode _ _ hPerm
  have hFirst : (((value :: values.erase value).filterMap decode).findSome? fun response =>
      firstNewest P client (receivedBundles decode values) identity response.eventBundles) = some a := by
    rw [List.filterMap_cons_some hDecode, List.findSome?_cons, ha]
  have hKey := @map_firstNewest_merge P client _ (hCopies.perm hReceived) identity
  rw [firstNewest_receivedBundles, firstNewest_congr fun b => hReceived.mem_iff, hFirst] at hKey
  obtain ⟨kept, hKept, hKeptKey⟩ := Option.map_eq_some_iff.mp hKey
  have hMem := (mem_mergeEventBundles_perm (hCopies.perm hReceived) hReceived).mp (List.mem_of_find?_eq_some hKept)
  exact ⟨_, hPerm, kept, (kept_perm_iff hCopies hPerm).mpr ⟨hMem, a, hFirst, hKeptKey⟩, hKeptKey⟩

/-- The same reactions are kept in every order of the responses if and only if the responses
that have a newest reaction of an identity agree on the first one. -/
theorem sameKept_iff (hCopies : CopiesAgree P (receivedBundles decode values)) :
    (∀ values', values'.Perm values → ∀ b,
        b ∈ (mergeReactionResponses P decode values' client).eventBundles ↔
          b ∈ (mergeReactionResponses P decode values client).eventBundles) ↔
      SameFirst P decode values client := by
  constructor
  · intro hSame identity response hResponse other hOther a b ha hb
    obtain ⟨valuesA, hPermA, keptA, ⟨hKeptA, hReactionA⟩, hKeyA⟩ := exists_kept_of_first hCopies hResponse ha
    obtain ⟨valuesB, hPermB, keptB, ⟨hKeptB, hReactionB⟩, hKeyB⟩ := exists_kept_of_first hCopies hOther hb
    obtain ⟨-, first, hFirst, hFirstA⟩ :=
      (kept_iff hCopies).mp ⟨(hSame _ hPermA keptA).mp hKeptA, hReactionA⟩
    obtain ⟨-, first', hFirst', hFirstB⟩ :=
      (kept_iff hCopies).mp ⟨(hSame _ hPermB keptB).mp hKeptB, hReactionB⟩
    obtain rfl := Option.some.inj (hFirst.symm.trans hFirst')
    rw [← hKeyA, ← hKeyB, hFirstA, hFirstB]
  · intro hSame values' hPerm b
    have hAgree : ∀ identity, (b ∈ (mergeReactionResponses P decode values' client).eventBundles ∧
        isReactionOf P identity b = true) ↔
        (b ∈ (mergeReactionResponses P decode values client).eventBundles ∧ isReactionOf P identity b = true) := by
      intro identity
      rw [kept_perm_iff hCopies hPerm, kept_perm_iff hCopies (List.Perm.refl values)]
      refine and_congr_right fun _ => ⟨fun hFirst => ?_, fun hFirst => ?_⟩
      · obtain ⟨a, ha, hKey⟩ := hFirst
        obtain ⟨first, hFirst, hSameKey⟩ := hSame.first hPerm (List.Perm.refl _) ha
        exact ⟨first, hFirst, hKey.trans hSameKey⟩
      · obtain ⟨a, ha, hKey⟩ := hFirst
        obtain ⟨first, hFirst, hSameKey⟩ := hSame.first (List.Perm.refl _) hPerm ha
        exact ⟨first, hFirst, hKey.trans hSameKey⟩
    constructor
    · intro hb
      obtain ⟨identity, hReaction⟩ := isReactionOf_of_kept hb
      exact ((hAgree identity).mp ⟨hb, hReaction⟩).1
    · intro hb
      obtain ⟨identity, hReaction⟩ := isReactionOf_of_kept hb
      exact ((hAgree identity).mpr ⟨hb, hReaction⟩).1

/-- With copies that agree, one newest valid reaction of each identity is kept in every order
of the responses. It is the same one in all orders if and only if the responses that have a
newest reaction of an identity have the same one of them first. -/
theorem current_reaction_iff (P : Primitives) (decode : Bytes → Option BundleResponse) (values : List Bytes)
    (client : PolycentricClient) (hCopies : CopiesAgree P (receivedBundles decode values)) :
    (∀ values', values'.Perm values → KeepsNewest P decode values' client) ∧
      ((∀ values', values'.Perm values → ∀ b,
          b ∈ (mergeReactionResponses P decode values' client).eventBundles ↔
            b ∈ (mergeReactionResponses P decode values client).eventBundles) ↔
        SameFirst P decode values client) :=
  ⟨fun _ hPerm => keepsNewest (hCopies.perm (receivedBundles_perm hPerm)), sameKept_iff hCopies⟩

end Polycentric.Client

namespace Polycentric.TableInstance

open Proto Client

/-- Events `[3]` and `[5]` are reactions of one identity at the same time. -/
def reactionPrimitives : Primitives := primitives
  [([1], event Collections.identity aliceIdentity (key 1) 1 [] [11]),
    ([3], event Collections.interactions aliceIdentity (key 2) 1 [0, 1] [13]),
    ([5], event Collections.interactions aliceIdentity (key 2) 2 [0, 2] [15])]
  [([11], ⟨some (.identity genesis)⟩)]

def reaction (eventBytes : Bytes) : Proto.EventBundle :=
  ⟨some ⟨sign (key 2).key eventBytes, eventBytes⟩, none, [], none⟩

/-- Each server knows one of the reactions. -/
def reactionAnswer (page : Bytes) : Option BundleResponse :=
  some ⟨[reaction (if page = [1] then [3] else [5])], [], none⟩

end Polycentric.TableInstance

namespace Polycentric.Client

open TableInstance

theorem reactionAnswers_equal (a : Proto.EventBundle) (ha : a ∈ receivedBundles reactionAnswer [[1], [2]])
    (b : Proto.EventBundle) (hb : b ∈ receivedBundles reactionAnswer [[1], [2]])
    (hKey : eventDedupKey reactionPrimitives a = eventDedupKey reactionPrimitives b) : a = b := by
  have hPair : receivedBundles reactionAnswer [[1], [2]] = [reaction [3], reaction [5]] := rfl
  have hDistinct : eventDedupKey reactionPrimitives (reaction [3]) ≠
      eventDedupKey reactionPrimitives (reaction [5]) := by decide +kernel
  rw [hPair, List.mem_pair] at ha hb
  rcases ha with rfl | rfl <;> rcases hb with rfl | rfl
  · rfl
  · exact absurd hKey hDistinct
  · exact absurd hKey.symm hDistinct
  · rfl

theorem reactionAnswers_agree :
    CopiesAgree reactionPrimitives (receivedBundles reactionAnswer [[1], [2]]) := by
  intro a ha b hb k hKeyA hKeyB
  obtain rfl := reactionAnswers_equal a ha b hb (hKeyA.trans hKeyB.symm)
  exact ⟨rfl, rfl, rfl⟩

theorem current_reaction_two :
    KeepsNewest reactionPrimitives reactionAnswer [[2], [1]] aliceClient :=
  (current_reaction_iff reactionPrimitives reactionAnswer [[1], [2]] aliceClient reactionAnswers_agree).1
    _ (List.Perm.swap _ _ _)

/-- Of two reactions at the same time the one of the server that is asked first is kept. -/
theorem tied_reaction_depends :
    (∀ a ∈ receivedBundles reactionAnswer [[1], [2]], ∀ b ∈ receivedBundles reactionAnswer [[1], [2]],
        eventDedupKey reactionPrimitives a = eventDedupKey reactionPrimitives b → a = b) ∧
      ¬∀ values', values'.Perm [[1], [2]] → ∀ b,
        b ∈ (mergeReactionResponses reactionPrimitives reactionAnswer values' aliceClient).eventBundles ↔
          b ∈ (mergeReactionResponses reactionPrimitives reactionAnswer [[1], [2]] aliceClient).eventBundles := by
  refine ⟨reactionAnswers_equal, fun h => ?_⟩
  have hFirst : reaction [3] ∈
      (mergeReactionResponses reactionPrimitives reactionAnswer [[1], [2]] aliceClient).eventBundles := by
    decide +kernel
  have hSecond : reaction [3] ∉
      (mergeReactionResponses reactionPrimitives reactionAnswer [[2], [1]] aliceClient).eventBundles := by
    decide +kernel
  exact hSecond ((h [[2], [1]] (List.Perm.swap _ _ _) _).mpr hFirst)

end Polycentric.Client
