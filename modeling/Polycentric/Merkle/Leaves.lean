import Polycentric.Common.Primitives
import Polycentric.Library.SortedEntries

/-! The canonical order of the signatures of an event stream, `merkle/leaves.rs`.
Client and server build their trees over this list. -/
namespace Polycentric

open Proto SortedEntries

variable (P : Primitives)

/-- Sort key of one event: the sum of its clock in `u64`, its creation time and
its signature. -/
structure CanonicalKey where
  clockSum : UInt64
  createdAt : UInt64
  signature : Bytes
  deriving DecidableEq, Repr

def CanonicalKey.cmp (a b : CanonicalKey) : Ordering :=
  (compare a.clockSum b.clockSum).then <|
    (compare a.createdAt b.createdAt).then <| compare a.signature b.signature

def canonicalKey (eventBytes signature : Bytes) : Option CanonicalKey := do
  let event ← (P.decodeEvent eventBytes).toOption
  return {
    clockSum := (event.vectorClock.map fun clock => clock.sequence.sum).getD 0
    createdAt := event.createdAt
    signature := signature }

/-- Canonically ordered signatures of pairs of event bytes and signature. -/
def canonicalSignatures (items : List (Bytes × Bytes)) : List Bytes :=
  ((items.filterMap fun item => canonicalKey P item.1 item.2).insertionSort
    fun a b => (a.cmp b).isLE).map CanonicalKey.signature

/-! ### The order -/

instance : Std.TransCmp CanonicalKey.cmp :=
  inferInstanceAs (Std.TransCmp (compareLex (compareOn CanonicalKey.clockSum)
    (compareLex (compareOn CanonicalKey.createdAt) (compareOn CanonicalKey.signature))))

instance : Std.LawfulEqCmp CanonicalKey.cmp where
  eq_of_compare {a b} h := by
    simp only [CanonicalKey.cmp, Ordering.then_eq_eq, Std.LawfulEqCmp.compare_eq_iff_eq] at h
    obtain ⟨hSum, hCreated, hSignature⟩ := h
    cases a
    cases b
    simp_all

section Last

variable {P} {items items' : List (Bytes × Bytes)} {eventBytes signature : Bytes} {key : CanonicalKey}

theorem canonicalKey_eq_some {event : Event} (h : P.decodeEvent eventBytes = .ok event) :
    canonicalKey P eventBytes signature = some
      ⟨(event.vectorClock.map fun clock => clock.sequence.sum).getD 0, event.createdAt, signature⟩ := by
  unfold canonicalKey
  rw [h]
  rfl

/-- The signature of an event with a higher clock than all others is last. -/
theorem canonicalSignatures_concat (hPerm : items'.Perm ((eventBytes, signature) :: items))
    (hKey : canonicalKey P eventBytes signature = some key) (hSignature : key.signature = signature)
    (hLast : ∀ other ∈ items, ∀ otherKey, canonicalKey P other.1 other.2 = some otherKey →
      otherKey.clockSum < key.clockSum) :
    canonicalSignatures P items' = canonicalSignatures P items ++ [signature] := by
  unfold canonicalSignatures
  have hKeys := hPerm.filterMap fun item => canonicalKey P item.1 item.2
  rw [List.filterMap_cons, hKey] at hKeys
  rw [insertionSort_concat _ hKeys, List.map_append, List.map_singleton, hSignature]
  · intro other hOther
    obtain ⟨item, hItem, hItemKey⟩ := List.mem_filterMap.mp hOther
    have hLt : compare other.clockSum key.clockSum = .lt :=
      Std.compare_eq_lt.mpr (hLast item hItem other hItemKey)
    simp [CanonicalKey.cmp, hLt]
  · intro a b hab hba
    exact Std.LawfulEqCmp.eq_of_compare (Std.OrientedCmp.isLE_antisymm hab hba)

end Last

end Polycentric
