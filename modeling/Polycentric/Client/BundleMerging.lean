import Polycentric.Client.PageOrder

/-! Merging bundles part by part. What is merged of two lists is merged again without a
difference, since every field of two copies is merged by an associative rule; of metadata it
does not matter either which copy is the left one. -/
namespace Polycentric.Client

open Proto KeyedMerge

/-! ### Metadata -/

theorem max_count_assoc (a b c : Int32) : max (max a b) c = max a (max b c) := by
  rw [max_count_right_comm, max_count_comm a c, max_count_right_comm, max_count_comm c b,
    max_count_comm]

theorem max_count_self (a : Int32) : max a a = a := by
  rw [← Int32.toInt_inj, toInt_max, max_self]

theorem max_optional_self (a : Option Int32) : max a a = a := by
  cases a with
  | none => rfl
  | some a => simp [max_count_self]

/-- A commutative operation is associative if operands on the right commute. -/
theorem assoc_of_right_comm {α : Type} {merge : α → α → α} (hComm : ∀ a b, merge a b = merge b a)
    (h : ∀ a b c, merge (merge a b) c = merge (merge a c) b) (a b c : α) :
    merge (merge a b) c = merge a (merge b c) := by
  calc merge (merge a b) c = merge (merge b a) c := by rw [hComm a b]
    _ = merge (merge b c) a := h b a c
    _ = merge a (merge b c) := hComm _ _

theorem mergeTally_assoc (a b c : ReactionTally) :
    mergeTally (mergeTally a b) c = mergeTally a (mergeTally b c) := by
  simp only [mergeTally, max_count_assoc]

theorem mergeBundleMeta_assoc (a b c : EventMetadata) :
    mergeBundleMeta (mergeBundleMeta a b) c = mergeBundleMeta a (mergeBundleMeta b c) :=
  assoc_of_right_comm mergeBundleMeta_comm mergeBundleMeta_right_comm a b c

/-- Tallies that are listed twice count once. -/
theorem tallied_twice (tallies : List ReactionTally) :
    tallied (tallies ++ tallies) = tallied tallies := by
  refine tallied_congr fun tally => ?_
  rw [mem_mergeByKey_iff, mem_mergeByKey_iff, List.mem_append, or_self]
  refine or_congr_right (exists_congr fun k => ?_)
  rw [copies_append, mergeAll_append mergeTally_assoc]
  cases mergeAll mergeTally (copies tallyKey k tallies) with
  | none => rfl
  | some merged =>
      have hSame : mergeTally merged merged = merged := by simp [mergeTally, max_count_self]
      rw [Option.merge, hSame]

theorem tallied_tallied_append (left right : List ReactionTally) :
    tallied (left ++ tallied right) = tallied (left ++ right) := by
  rw [tallied_perm List.perm_append_comm, tallied_append]
  exact tallied_perm List.perm_append_comm

/-- Merged metadata stays the same when it is merged with itself. -/
theorem mergeBundleMeta_self (a b : EventMetadata) :
    mergeBundleMeta (mergeBundleMeta a b) (mergeBundleMeta a b) = mergeBundleMeta a b := by
  have hReactions : ∀ tallies, tallied (tallied tallies ++ tallied tallies) = tallied tallies := by
    intro tallies
    rw [tallied_append, tallied_tallied_append, tallied_twice]
  simp only [mergeBundleMeta, max_optional_self, mergeReactions_eq, hReactions]

/-! ### Bundles -/

theorem mergeOpt_assoc {α : Type} {merge : α → α → α}
    (h : ∀ a b c, merge (merge a b) c = merge a (merge b c)) (a b c : Option α) :
    mergeOpt (mergeOpt a b merge) c merge = mergeOpt a (mergeOpt b c merge) merge := by
  cases a with
  | none => cases b <;> cases c <;> rfl
  | some a =>
      cases b with
      | none => cases c <;> rfl
      | some b =>
          cases c with
          | none => rfl
          | some c => exact congrArg some (h a b c)

theorem mergeBundle_assoc (a b c : EventBundle) :
    mergeBundle (mergeBundle a b) c = mergeBundle a (mergeBundle b c) := by
  have hProofs : ∀ l m r : List EventProof,
      (if (if l.isEmpty then m else l).isEmpty then r else if l.isEmpty then m else l) =
        if l.isEmpty then (if m.isEmpty then r else m) else l := by
    intro l m r
    cases hLeft : l.isEmpty with
    | true => simp
    | false => simp [hLeft]
  simp only [mergeBundle, EventBundle.mk.injEq]
  exact ⟨Option.or_assoc, Option.or_assoc, hProofs _ _ _, mergeOpt_assoc mergeBundleMeta_assoc _ _ _⟩

/-- Merging bundles is a homomorphism that leaves one bundle of every key, in the order of
the first ones, and all bundles without a key. Merging metadata is a join. -/
theorem merge_bundles_join (P : Primitives) (left right : List EventBundle) :
    mergeEventBundles P (left ++ right) =
        mergeEventBundles P (mergeEventBundles P left ++ mergeEventBundles P right) ∧
      ((mergeEventBundles P left).filterMap (eventDedupKey P) =
        (left.filterMap (eventDedupKey P)).eraseDups) ∧
      (((mergeEventBundles P left).filter fun bundle => eventDedupKey P bundle = none) =
        left.filter fun bundle => eventDedupKey P bundle = none) ∧
      (∀ a b, mergeBundleMeta a b = mergeBundleMeta b a) ∧
      (∀ a b c, mergeBundleMeta (mergeBundleMeta a b) c = mergeBundleMeta a (mergeBundleMeta b c)) ∧
      ∀ a b, mergeBundleMeta (mergeBundleMeta a b) (mergeBundleMeta a b) = mergeBundleMeta a b := by
  have hKeeps := keepsKey_mergeBundle P
  exact ⟨(hKeeps.mergeByKey_append mergeBundle_assoc left right).symm,
    hKeeps.filterMap_mergeByKey left, hKeeps.filter_none_mergeByKey left, mergeBundleMeta_comm,
    mergeBundleMeta_assoc, mergeBundleMeta_self⟩

end Polycentric.Client
