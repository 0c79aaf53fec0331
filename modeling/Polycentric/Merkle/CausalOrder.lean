import Polycentric.Common.Identity
import Polycentric.Merkle.Leaves

/-! Whether the canonical order extends causality. The sum of a clock grows along
happens-before, but the sort key takes it in `u64`: where the sums wrap, a later event may
sort before an earlier one. -/
namespace Polycentric

open Proto SortedEntries

variable (P : Primitives)

/-- The loop of `happens_before` over the entries of both clocks. -/
def happensBeforeLoop : List (UInt64 × UInt64) → Bool → Bool
  | [], strict => strict
  | (a, b) :: rest, strict =>
      if a > b then false else happensBeforeLoop rest (if a < b then true else strict)

/-- Every entry is at most the corresponding one, and one of them is less. Clocks of
different length are incomparable. -/
def Proto.VectorClock.happensBefore (self other : VectorClock) : Bool :=
  if self.sequence.length ≠ other.sequence.length then false
  else happensBeforeLoop (self.sequence.zip other.sequence) false

/-- The sum of the entries, as a natural number. -/
def Proto.VectorClock.total (clock : VectorClock) : ℕ := (clock.sequence.map UInt64.toNat).sum

/-- The keys of the events in canonical order. -/
def canonicalKeys (items : List (Bytes × Bytes)) : List CanonicalKey :=
  (items.filterMap fun item => canonicalKey P item.1 item.2).insertionSort fun a b => (a.cmp b).isLE

/-- A place of the event in the canonical order. -/
def PlacedAt (items : List (Bytes × Bytes)) (item : Bytes × Bytes) (n : ℕ) : Prop :=
  ∃ key, canonicalKey P item.1 item.2 = some key ∧ (canonicalKeys P items)[n]? = some key

/-- The first event comes before the second one. -/
def Precedes (items : List (Bytes × Bytes)) (earlier later : Bytes × Bytes) : Prop :=
  ∀ i j, PlacedAt P items earlier i → PlacedAt P items later j → i < j

/-- Modulo 2^64 the sum of the earlier clock is still the lesser one, or both are equal and
the creation time or the signature decides for the earlier event. -/
def SumsStayInOrder (clock clock' : VectorClock) (createdAt createdAt' : UInt64)
    (signature signature' : Bytes) : Prop :=
  clock.total % 2 ^ 64 < clock'.total % 2 ^ 64 ∨
    clock.total % 2 ^ 64 = clock'.total % 2 ^ 64 ∧
      (createdAt < createdAt' ∨ createdAt = createdAt' ∧ compare signature signature' = .lt)

/-! ### Sums -/

theorem toNat_sum (entries : List UInt64) :
    entries.sum.toNat = (entries.map UInt64.toNat).sum % 2 ^ 64 := by
  induction entries with
  | nil => rfl
  | cons entry rest ih =>
      rw [List.sum_cons, UInt64.toNat_add, ih, List.map_cons, List.sum_cons, Nat.add_mod_mod]

/-- The loop compares the sums of what is left. -/
theorem sum_of_happensBeforeLoop {entries entries' : List UInt64} {strict : Bool}
    (hLength : entries.length = entries'.length)
    (h : happensBeforeLoop (entries.zip entries') strict = true) :
    (entries.map UInt64.toNat).sum ≤ (entries'.map UInt64.toNat).sum ∧
      (strict = false → (entries.map UInt64.toNat).sum < (entries'.map UInt64.toNat).sum) := by
  induction entries generalizing entries' strict with
  | nil =>
      obtain rfl := List.eq_nil_of_length_eq_zero hLength.symm
      have hStrict : strict = true := h
      simp [hStrict]
  | cons a rest ih =>
      cases entries' with
      | nil => cases hLength
      | cons b rest' =>
          rw [List.zip_cons_cons, happensBeforeLoop] at h
          split at h
          · cases h
          · next hLe =>
              obtain ⟨hRest, hRestStrict⟩ := ih (Nat.succ.inj hLength) h
              have hEntry : a.toNat ≤ b.toNat := UInt64.le_iff_toNat_le.mp (UInt64.not_lt.mp hLe)
              simp only [List.map_cons, List.sum_cons]
              refine ⟨by omega, fun hStrict => ?_⟩
              by_cases hLess : a < b
              · have hEntryLess : a.toNat < b.toNat := UInt64.lt_iff_toNat_lt.mp hLess
                omega
              · have := hRestStrict (by rw [if_neg hLess, hStrict])
                omega

/-- The sum is a linear extension as long as it is a natural number. -/
theorem total_lt_of_happensBefore {clock clock' : VectorClock}
    (h : clock.happensBefore clock' = true) : clock.total < clock'.total := by
  unfold VectorClock.happensBefore at h
  split at h
  · cases h
  · next hLength => exact (sum_of_happensBeforeLoop (not_not.mp hLength) h).2 rfl

/-- Sums that do not wrap stay in order. -/
theorem sumsStayInOrder_of_lt {clock clock' : VectorClock}
    (h : clock.happensBefore clock' = true) (hSmall : clock'.total < 2 ^ 64)
    (createdAt createdAt' : UInt64) (signature signature' : Bytes) :
    SumsStayInOrder clock clock' createdAt createdAt' signature signature' := by
  have hLt := total_lt_of_happensBefore h
  left
  rw [Nat.mod_eq_of_lt hSmall, Nat.mod_eq_of_lt (hLt.trans hSmall)]
  exact hLt

/-! ### Places -/

section Places

variable {P} {items items' : List (Bytes × Bytes)} {item earlier later : Bytes × Bytes}

theorem canonicalSignatures_eq_map (items : List (Bytes × Bytes)) :
    canonicalSignatures P items = (canonicalKeys P items).map CanonicalKey.signature := rfl

theorem signature_of_canonicalKey {eventBytes signature : Bytes} {key : CanonicalKey}
    (h : canonicalKey P eventBytes signature = some key) : key.signature = signature := by
  unfold canonicalKey at h
  cases hDecode : (P.decodeEvent eventBytes).toOption with
  | none => simp [hDecode] at h
  | some event =>
      rw [hDecode] at h
      exact (congrArg CanonicalKey.signature (Option.some.inj h)).symm

/-- At the place of an event there is its signature. -/
theorem PlacedAt.signature {n : ℕ} (h : PlacedAt P items item n) :
    (canonicalSignatures P items)[n]? = some item.2 := by
  obtain ⟨key, hKey, hPlace⟩ := h
  rw [canonicalSignatures_eq_map, List.getElem?_map, hPlace, ← signature_of_canonicalKey hKey]
  rfl

/-- The order in which the events are given does not matter: events with equal keys have
equal signatures. -/
theorem canonicalSignatures_perm (hPerm : items'.Perm items) :
    canonicalSignatures P items' = canonicalSignatures P items := by
  unfold canonicalSignatures
  rw [insertionSort_eq_of_perm (hPerm.filterMap _)]
  intro a _ b _ hab hba
  exact Std.LawfulEqCmp.eq_of_compare (Std.OrientedCmp.isLE_antisymm hab hba)

theorem precedes_iff {key key' : CanonicalKey} (hEarlier : earlier ∈ items) (hLater : later ∈ items)
    (hKey : canonicalKey P earlier.1 earlier.2 = some key)
    (hKey' : canonicalKey P later.1 later.2 = some key') :
    Precedes P items earlier later ↔ key.cmp key' = .lt := by
  have hMem : key ∈ items.filterMap fun item => canonicalKey P item.1 item.2 :=
    List.mem_filterMap.mpr ⟨earlier, hEarlier, hKey⟩
  have hMem' : key' ∈ items.filterMap fun item => canonicalKey P item.1 item.2 :=
    List.mem_filterMap.mpr ⟨later, hLater, hKey'⟩
  rw [← insertionSort_precedes_iff hMem hMem']
  constructor
  · intro h i j hi hj
    exact h i j ⟨key, hKey, hi⟩ ⟨key', hKey', hj⟩
  · rintro h i j ⟨k, hk, hi⟩ ⟨k', hk', hj⟩
    obtain rfl : key = k := Option.some.inj (hKey.symm.trans hk)
    obtain rfl : key' = k' := Option.some.inj (hKey'.symm.trans hk')
    exact h i j hi hj

theorem cmp_eq_lt_iff {key key' : CanonicalKey} : key.cmp key' = .lt ↔
    key.clockSum < key'.clockSum ∨ key.clockSum = key'.clockSum ∧
      (key.createdAt < key'.createdAt ∨
        key.createdAt = key'.createdAt ∧ compare key.signature key'.signature = .lt) := by
  simp only [CanonicalKey.cmp, Ordering.then_eq_lt, Std.compare_eq_lt,
    Std.LawfulEqCmp.compare_eq_iff_eq]

end Places

/-- The canonical order does not depend on the order of the events, and an event comes
before one that it happened before exactly if their sums stay in order in `u64`. -/
theorem canonical_causal_iff (items : List (Bytes × Bytes)) :
    (∀ items', items'.Perm items → canonicalSignatures P items' = canonicalSignatures P items) ∧
    (∀ item n, PlacedAt P items item n → (canonicalSignatures P items)[n]? = some item.2) ∧
    ∀ earlier ∈ items, ∀ later ∈ items, ∀ event event' clock clock',
      P.decodeEvent earlier.1 = .ok event → P.decodeEvent later.1 = .ok event' →
      event.vectorClock = some clock → event'.vectorClock = some clock' →
      clock.happensBefore clock' = true →
        (Precedes P items earlier later ↔
          SumsStayInOrder clock clock' event.createdAt event'.createdAt earlier.2 later.2) := by
  refine ⟨fun items' hPerm => canonicalSignatures_perm hPerm, fun item n h => h.signature, ?_⟩
  intro earlier hEarlier later hLater event event' clock clock' hEvent hEvent' hClock hClock' _
  rw [precedes_iff hEarlier hLater (canonicalKey_eq_some hEvent) (canonicalKey_eq_some hEvent'),
    cmp_eq_lt_iff]
  simp only [hClock, hClock', Option.map_some, Option.getD_some]
  rw [UInt64.lt_iff_toNat_lt, ← UInt64.toNat_inj, toNat_sum, toNat_sum]
  rfl

end Polycentric

namespace Polycentric.TableInstance

open Proto

/-! Alice posts, sees her post on another device and posts there. The second clock is
`[1, 1]`, or the entries of both are at the limit of `u64`. -/

def clockedPost (clock : List UInt64) : Event :=
  event Collections.feed "alice" (key 1) 1 clock [13]

def causalPrimitives : Primitives := primitives
  [([1], clockedPost [1, 0]), ([2], clockedPost [1, 1]),
    ([3], clockedPost [0xffffffffffffffff, 0]), ([4], clockedPost [0xffffffffffffffff, 1])] []

end Polycentric.TableInstance

namespace Polycentric

open TableInstance

theorem canonical_causal_small : Precedes causalPrimitives [([2], [8]), ([1], [9])] ([1], [9]) ([2], [8]) := by
  have hBefore : Proto.VectorClock.happensBefore ⟨[1, 0]⟩ ⟨[1, 1]⟩ = true := by decide
  refine ((canonical_causal_iff causalPrimitives [([2], [8]), ([1], [9])]).2.2 _ (by decide) _
    (by decide) (clockedPost [1, 0]) (clockedPost [1, 1]) _ _ rfl rfl rfl rfl hBefore).mpr ?_
  exact sumsStayInOrder_of_lt hBefore (by decide) _ _ _ _

/-- The sum of the second clock wraps to zero, and its event is sorted first. -/
theorem canonical_causal_wrapped :
    Proto.VectorClock.happensBefore ⟨[0xffffffffffffffff, 0]⟩ ⟨[0xffffffffffffffff, 1]⟩ = true ∧
      canonicalSignatures causalPrimitives [([3], [8]), ([4], [9])] = [[9], [8]] ∧
      ¬Precedes causalPrimitives [([3], [8]), ([4], [9])] ([3], [8]) ([4], [9]) := by
  refine ⟨by decide, by decide +kernel, fun hPrecedes => ?_⟩
  have hSecond : PlacedAt causalPrimitives [([3], [8]), ([4], [9])] ([3], [8]) 1 :=
    ⟨⟨0xffffffffffffffff, 0, [8]⟩, by decide +kernel, by decide +kernel⟩
  have hFirst : PlacedAt causalPrimitives [([3], [8]), ([4], [9])] ([4], [9]) 0 :=
    ⟨⟨0, 0, [9]⟩, by decide +kernel, by decide +kernel⟩
  exact absurd (hPrecedes 1 0 hSecond hFirst) (by decide)

end Polycentric
