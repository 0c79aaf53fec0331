import Polycentric.Common.IdentityChain

/-! Two parties that know the same identity candidates resolve the same chain,
whatever the order in which they learned them and however often. Every tie of the
selection is broken by fields that determine the event: a genesis document is
determined by the identity, and a successor document by its digest. -/
namespace Polycentric

open Proto

variable (P : Primitives)

instance : Std.TransCmp compareSigners :=
  inferInstanceAs (Std.TransCmp (compareLex (compareOn PublicKey.keyType) (compareOn PublicKey.key)))

/-- Comparing by the signer of something is an order like comparing signers. -/
theorem compareSigners_on {α : Type} (signer : α → PublicKey) :
    Std.TransCmp fun a b => compareSigners (signer a) (signer b) where
  eq_swap := Std.OrientedCmp.eq_swap
  isLE_trans := Std.TransCmp.isLE_trans

theorem compareSigners_eq {a b : PublicKey} (h : compareSigners a b = .eq) : a = b := by
  rw [compareSigners, Ordering.then_eq_eq] at h
  obtain ⟨hType, hKey⟩ := h
  cases a
  cases b
  rw [PublicKey.mk.injEq]
  exact ⟨Std.LawfulEqOrd.eq_of_compare hType, Std.LawfulEqOrd.eq_of_compare hKey⟩

instance : Std.TransCmp (compareSuccessors P) := by
  have hSigner := compareSigners_on fun a : IdentityEvent × SuccessionReason => a.1.signer
  exact inferInstanceAs (Std.TransCmp
    (compareLex (compareOn fun a : IdentityEvent × SuccessionReason => a.1.sequence)
      (compareLex (compareOn fun a => a.2.rank)
        (compareLex (fun a b => compareSigners a.1.signer b.1.signer)
          (compareOn fun a => a.1.document.deriveHexKey P)))))

theorem SuccessionReason.rank_injective : Function.Injective SuccessionReason.rank := by
  intro a b h
  cases a <;> cases b <;> simp_all [SuccessionReason.rank]

/-- The keys of the comparison, read off a tie. -/
theorem compareSuccessors_eq {a b : IdentityEvent × SuccessionReason}
    (h : compareSuccessors P a b = .eq) :
    a.1.sequence = b.1.sequence ∧ a.2 = b.2 ∧ a.1.signer = b.1.signer ∧
      a.1.document.deriveHexKey P = b.1.document.deriveHexKey P := by
  simp only [compareSuccessors, Ordering.then_eq_eq] at h
  obtain ⟨hSequence, hReason, hSigner, hDocument⟩ := h
  exact ⟨Std.LawfulEqOrd.eq_of_compare hSequence,
    SuccessionReason.rank_injective (Std.LawfulEqOrd.eq_of_compare hReason),
    compareSigners_eq hSigner, Std.LawfulEqOrd.eq_of_compare hDocument⟩

/-- Documents of these events are told apart by their hexadecimal digests. -/
def DigestsApart (events : List IdentityEvent) : Prop :=
  ∀ a ∈ events, ∀ b ∈ events,
    a.document.deriveHexKey P = b.document.deriveHexKey P → a.document = b.document

variable {P}

theorem DigestsApart.subset {events some : List IdentityEvent} (h : DigestsApart P events)
    (hSub : some ⊆ events) : DigestsApart P some :=
  fun a ha b hb => h a (hSub ha) b (hSub hb)

/-- Collision freedom and an injective encoding, each only for the documents at
hand, tell the documents apart. -/
theorem DigestsApart.of_injOn {events : List IdentityEvent}
    (hEncode : Set.InjOn P.encodeIdentity {d | ∃ e ∈ events, e.document = d})
    (hHash : Set.InjOn P.sha256 (P.encodeIdentity '' {d | ∃ e ∈ events, e.document = d})) :
    DigestsApart P events := by
  intro a ha b hb h
  have hBytes := hexEncode_injective h
  have hMemA : a.document ∈ {d | ∃ e ∈ events, e.document = d} := ⟨a, ha, rfl⟩
  have hMemB : b.document ∈ {d | ∃ e ∈ events, e.document = d} := ⟨b, hb, rfl⟩
  exact hEncode hMemA hMemB (hHash (Set.mem_image_of_mem _ hMemA)
    (Set.mem_image_of_mem _ hMemB) (Subtype.val_injective hBytes))

theorem selectGenesis_congr (identity : String) {first second : List IdentityEvent}
    (hSame : ∀ e, e ∈ first ↔ e ∈ second) (hDigests : DigestsApart P first)
    (hSequence : ∀ e ∈ first, e.sequence = 1) :
    selectGenesis P identity first = selectGenesis P identity second := by
  have hOrder := compareSigners_on IdentityEvent.signer
  apply Selection.maxBy_congr
  · intro e
    simp only [List.mem_filter, hSame]
  · intro a ha b hb hEq
    simp only [List.mem_filter, beq_iff_eq] at ha hb
    have hSigner := compareSigners_eq hEq
    have hDocument := hDigests a ha.1.1 b hb.1.1 (ha.1.2.trans hb.1.2.symm)
    have hSeq := (hSequence a ha.1.1).trans (hSequence b hb.1.1).symm
    cases a
    cases b
    simp_all

theorem selectNext_congr {identity : String} {head : IdentityEvent}
    {first second : List IdentityEvent} (hSame : ∀ e, e ∈ first ↔ e ∈ second)
    (hDigests : DigestsApart P first) :
    selectNext P identity head first = selectNext P identity head second := by
  apply Selection.maxBy_congr
  · intro pair
    simp only [List.mem_filterMap, hSame]
  · intro a ha b hb hEq
    simp only [List.mem_filterMap, Option.map_eq_some_iff] at ha hb
    obtain ⟨e₁, he₁, r₁, -, rfl⟩ := ha
    obtain ⟨e₂, he₂, r₂, -, rfl⟩ := hb
    obtain ⟨hSequence, hReason, hSigner, hDigest⟩ := compareSuccessors_eq P hEq
    have hDocument := hDigests e₁ he₁ e₂ he₂ hDigest
    cases e₁
    cases e₂
    simp_all

/-- Lists with the same elements have the same buckets, as sets, and leave lists
with the same elements behind. -/
theorem takeBucket_congr (seq : UInt64) {first second : List IdentityEvent}
    (hSame : ∀ e, e ∈ first ↔ e ∈ second) :
    (takeBucket seq first = none ∧ takeBucket seq second = none) ∨
      ∃ bucket₁ rest₁ bucket₂ rest₂, takeBucket seq first = some (bucket₁, rest₁) ∧
        takeBucket seq second = some (bucket₂, rest₂) ∧
        (∀ e, e ∈ bucket₁ ↔ e ∈ bucket₂) ∧ (∀ e, e ∈ rest₁ ↔ e ∈ rest₂) := by
  cases h₁ : takeBucket seq first with
  | none =>
      refine Or.inl ⟨rfl, takeBucket_eq_none_iff.mpr fun e he => ?_⟩
      exact takeBucket_eq_none_iff.mp h₁ e ((hSame e).mpr he)
  | some pair₁ =>
      cases h₂ : takeBucket seq second with
      | none =>
          have hNone : takeBucket seq first = none := takeBucket_eq_none_iff.mpr fun e he =>
            takeBucket_eq_none_iff.mp h₂ e ((hSame e).mp he)
          rw [hNone] at h₁
          cases h₁
      | some pair₂ =>
          obtain ⟨-, hBucket₁, hRest₁⟩ := takeBucket_eq_some h₁
          obtain ⟨-, hBucket₂, hRest₂⟩ := takeBucket_eq_some h₂
          refine Or.inr ⟨_, _, _, _, rfl, rfl, ?_, ?_⟩
          · intro e
            simp only [hBucket₁, hBucket₂, List.mem_filter, hSame]
          · intro e
            simp only [hRest₁, hRest₂, List.mem_filter, hSame]

theorem takeBucket_subset {seq : UInt64} {bySeq bucket rest : List IdentityEvent}
    (h : takeBucket seq bySeq = some (bucket, rest)) : bucket ⊆ bySeq ∧ rest ⊆ bySeq := by
  obtain ⟨-, rfl, rfl⟩ := takeBucket_eq_some h
  exact ⟨fun e he => (List.mem_filter.mp he).1, fun e he => (List.mem_filter.mp he).1⟩

/-- The greedy loop depends on the set of events only. Both runs take the same
successor in each round, by induction on the rounds of the first one. -/
theorem growChain_congr (identity : String) (rounds₁ rounds₂ : Nat)
    {first second : List IdentityEvent} (head : IdentityEvent)
    (hSame : ∀ e, e ∈ first ↔ e ∈ second) (hDigests : DigestsApart P first)
    (h₁ : first.length ≤ rounds₁) (h₂ : second.length ≤ rounds₂) :
    growChain P identity rounds₁ first head = growChain P identity rounds₂ second head := by
  induction rounds₁ generalizing rounds₂ first second head with
  | zero =>
      have hNil : first = [] := List.length_eq_zero_iff.mp (by omega)
      subst hNil
      have hNil₂ : second = [] := List.eq_nil_iff_forall_not_mem.mpr fun e he => by
        simpa using (hSame e).mpr he
      subst hNil₂
      cases rounds₂ <;> simp [growChain, takeBucket]
  | succ rounds₁ ih =>
      rw [growChain_eq P identity head h₂ (Nat.le_succ_of_le h₂)]
      simp only [growChain]
      rcases takeBucket_congr (head.sequence + 1) hSame with
        ⟨hNone₁, hNone₂⟩ | ⟨bucket₁, rest₁, bucket₂, rest₂, hSome₁, hSome₂, hBucket, hRest⟩
      · rw [hNone₁, hNone₂]
      · rw [hSome₁, hSome₂]
        obtain ⟨hSubBucket, hSubRest⟩ := takeBucket_subset hSome₁
        have hLt₁ := takeBucket_length_lt hSome₁
        have hLt₂ := takeBucket_length_lt hSome₂
        simp only [selectNext_congr hBucket (hDigests.subset hSubBucket)]
        split
        · rfl
        · next next reason _ =>
            exact congrArg (next :: ·)
              (ih rounds₂ next hRest (hDigests.subset hSubRest) (by omega) (by omega))

variable (P)

/-- Resolution is independent of the order and the multiplicity of candidates. -/
theorem resolveChain_eq_of_same_candidates (identity : String)
    {first second : List IdentityCandidate} (hSame : ∀ c, c ∈ first ↔ c ∈ second)
    (hEncode : Set.InjOn P.encodeIdentity
      {d | ∃ e ∈ decodedEvents P identity first, e.document = d})
    (hHash : Set.InjOn P.sha256 (P.encodeIdentity ''
      {d | ∃ e ∈ decodedEvents P identity first, e.document = d})) :
    resolveChain P identity first = resolveChain P identity second := by
  have hDigests := DigestsApart.of_injOn hEncode hHash
  have hEvents : ∀ e, e ∈ decodedEvents P identity first ↔
      e ∈ decodedEvents P identity second := by
    intro e
    simp only [decodedEvents, List.mem_filterMap, hSame]
  simp only [resolveChain]
  rcases takeBucket_congr 1 hEvents with
    ⟨hNone₁, hNone₂⟩ | ⟨bucket₁, rest₁, bucket₂, rest₂, hSome₁, hSome₂, hBucket, hRest⟩
  · rw [decodedEvents] at hNone₁ hNone₂
    rw [hNone₁, hNone₂]
  · obtain ⟨hSubBucket, hSubRest⟩ := takeBucket_subset hSome₁
    have hSequence : ∀ e ∈ bucket₁, e.sequence = 1 := by
      obtain ⟨-, rfl, -⟩ := takeBucket_eq_some hSome₁
      intro e he
      simpa using (List.mem_filter.mp he).2
    have hGenesis := selectGenesis_congr identity hBucket
      (hDigests.subset hSubBucket) hSequence
    have hGrow := fun genesis => growChain_congr identity rest₁.length rest₂.length
      genesis hRest (hDigests.subset hSubRest) le_rfl le_rfl
    rw [decodedEvents] at hSome₁ hSome₂
    simp only [hSome₁, hSome₂, Option.bind_eq_bind, Option.bind_some, hGenesis, hGrow]

open TableInstance

/-- Two candidates, once in order and once reversed with a repetition. -/
theorem resolveChain_eq_of_same_candidates_alice :
    resolveChain alicePrimitives aliceIdentity [genesisCandidate, successorCandidate] =
      some ⟨[⟨1, key 1, genesis⟩, ⟨2, key 1, successor⟩]⟩ ∧
    resolveChain alicePrimitives aliceIdentity [genesisCandidate, successorCandidate] =
      resolveChain alicePrimitives aliceIdentity
        [successorCandidate, genesisCandidate, successorCandidate] := by
  have hDecoded : decodedEvents alicePrimitives aliceIdentity [genesisCandidate, successorCandidate] =
      [⟨1, key 1, genesis⟩, ⟨2, key 1, successor⟩] := by decide +kernel
  have hDocuments : {d | ∃ e ∈ decodedEvents alicePrimitives aliceIdentity
      [genesisCandidate, successorCandidate], e.document = d} = {genesis, successor} := by
    rw [hDecoded]
    ext d
    simp [eq_comm]
  refine ⟨by decide +kernel, ?_⟩
  apply resolveChain_eq_of_same_candidates
  · intro c
    simp only [List.mem_cons, List.not_mem_nil, or_false]
    tauto
  · rw [hDocuments, Set.injOn_pair]
    exact fun h => absurd h (by decide +kernel)
  · rw [hDocuments, Set.image_pair, Set.injOn_pair]
    exact fun h => absurd h (by decide +kernel)

end Polycentric
