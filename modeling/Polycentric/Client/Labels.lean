import Polycentric.Client.Merge

/-! The labels that come with a response, `query/event/labels.rs`. They are grouped by the
event they are for, and an app asks whether two groups differ. -/
namespace Polycentric.Client.Labels

open Proto KeyedMerge

/-- Mirror of the protocol's key, with a signer. -/
structure EventKey where
  collection : Int32
  identity : String
  signedBy : PublicKey
  sequence : UInt64
  deriving DecidableEq, Repr

/-- `None` when it has no signer. -/
def EventKey.fromProto (key : Proto.EventKey) : Option EventKey :=
  key.signedBy.map fun signedBy => ⟨key.collection, key.identity, signedBy, key.sequence⟩

def EventKey.dedupKey (key : EventKey) : EventDedupKey :=
  (key.collection, key.identity, key.signedBy.keyType, key.signedBy.key, key.sequence)

structure PostLabel where
  value : String
  labeledBy : String
  deriving DecidableEq, Repr

def PostLabel.key (label : PostLabel) : String × String := (label.value, label.labeledBy)

/-- All labels applied to some target event. -/
structure LabelSet where
  target : EventKey
  labels : List PostLabel
  deriving DecidableEq, Repr

/-- A label is pushed unless it is there. -/
def pushNew (merged : List PostLabel) (label : PostLabel) : List PostLabel :=
  if merged.any fun kept => kept.key = label.key then merged else merged ++ [label]

/-- Union two label sets, deduplicated. -/
def mergeLabels (orig latest : List PostLabel) : List PostLabel := (orig ++ latest).foldl pushNew []

def LabelSet.merge (existing set : LabelSet) : LabelSet :=
  { existing with labels := mergeLabels existing.labels set.labels }

/-- Whether two label sets differ, ignoring order. -/
def labelsChanged (a b : List PostLabel) : Bool :=
  if a.length ≠ b.length then true
  else b.any fun label => !a.any fun other => other.key = label.key

section Hints

variable (P : Primitives)

/-- Decode one hint bundle as a Labels event. -/
def decodeLabelsBundle (bundle : EventBundle) : Option LabelSet := do
  let signed ← bundle.signedEvent
  let serialized ← bundle.serializedContent
  let content ← (P.decodeContent serialized.contentBytes).toOption
  match content.contentBody with
  | some (.labels eventKey labelValues) =>
      let event ← (P.decodeEvent signed.eventBytes).toOption
      let target ← eventKey.bind EventKey.fromProto
      let labeledBy := event.key.elim "" Proto.EventKey.identity
      return ⟨target, labelValues.map fun value => ⟨value, labeledBy⟩⟩
  | _ => none

/-- The sets that the hints carry, one for each Labels event. -/
def hintedSets (hints : List EventHint) : List LabelSet :=
  hints.filterMap fun hint => hint.eventBundle.bind (decodeLabelsBundle P)

/-- Group them by the event they target. The index of the source maps a key to the position
of its set. -/
def buildLabelSets (hints : List EventHint) : List LabelSet :=
  mergeByKey (fun set => some set.target.dedupKey) LabelSet.merge (hintedSets P hints)

end Hints

/-! ### Two lists of labels -/

theorem PostLabel.key_inj {a b : PostLabel} (h : a.key = b.key) : a = b := by
  obtain ⟨value, labeledBy⟩ := a
  obtain ⟨hValue, hLabeledBy⟩ := Prod.mk.inj h
  cases hValue
  cases hLabeledBy
  rfl

/-- A label is found by its key. -/
theorem any_key_iff {labels : List PostLabel} {label : PostLabel} :
    (labels.any fun other => other.key = label.key) = true ↔ label ∈ labels := by
  rw [List.any_eq_true]
  constructor
  · intro h
    obtain ⟨other, hMem, hKey⟩ := h
    exact PostLabel.key_inj (of_decide_eq_true hKey) ▸ hMem
  · intro hMem
    exact ⟨label, hMem, decide_eq_true rfl⟩

/-- A label is added if it is not there yet. -/
theorem pushNew_eq (merged : List PostLabel) (label : PostLabel) :
    pushNew merged label = if label ∈ merged then merged else merged ++ [label] := by
  unfold pushNew
  simp only [any_key_iff]

theorem mem_foldl_pushNew {labels : List PostLabel} {label : PostLabel} :
    label ∈ labels.foldl pushNew [] ↔ label ∈ labels := by
  induction labels using List.reverseRecOn with
  | nil => exact Iff.rfl
  | append_singleton labels last ih =>
      rw [List.foldl_concat, pushNew_eq, List.mem_append, List.mem_singleton, ← ih]
      split
      · next hLast => exact ⟨Or.inl, fun h => h.elim id fun hEq => hEq ▸ hLast⟩
      · rw [List.mem_append, List.mem_singleton]

theorem nodup_foldl_pushNew (labels : List PostLabel) : (labels.foldl pushNew []).Nodup := by
  induction labels using List.reverseRecOn with
  | nil => exact List.nodup_nil
  | append_singleton labels last ih =>
      rw [List.foldl_concat, pushNew_eq]
      split
      · exact ih
      · next hLast =>
          refine List.nodup_append.mpr ⟨ih, List.nodup_singleton _, fun a ha b hb hEq => hLast ?_⟩
          rwa [← List.mem_singleton.mp hb, ← hEq]

/-- Merging keeps every label of both sides. -/
theorem mem_mergeLabels {orig latest : List PostLabel} {label : PostLabel} :
    label ∈ mergeLabels orig latest ↔ label ∈ orig ∨ label ∈ latest :=
  mem_foldl_pushNew.trans List.mem_append

/-- Merging lists no label twice. -/
theorem nodup_mergeLabels (orig latest : List PostLabel) : (mergeLabels orig latest).Nodup :=
  nodup_foldl_pushNew (orig ++ latest)

/-- Lists count as unchanged if they are as long and the second has nothing new. -/
theorem labelsChanged_eq_false_iff {a b : List PostLabel} :
    labelsChanged a b = false ↔ a.length = b.length ∧ b ⊆ a := by
  unfold labelsChanged
  split
  · next hLength => simp [hLength]
  · next hLength =>
      rw [not_not] at hLength
      rw [List.any_eq_false]
      refine ⟨fun h => ⟨hLength, fun label hLabel => ?_⟩, fun h label hLabel => ?_⟩
      · exact any_key_iff.mp (by simpa using h label hLabel)
      · simpa using any_key_iff.mpr (h.2 hLabel)

/-- Lists without repetitions that pass for unchanged are the same up to order. -/
theorem perm_of_unchanged {a b : List PostLabel} (hb : b.Nodup) (h : labelsChanged a b = false) : b.Perm a := by
  obtain ⟨hLength, hSub⟩ := labelsChanged_eq_false_iff.mp h
  exact (List.subperm_of_subset hb hSub).perm_of_length_le hLength.le

/-- For lists without repetitions the comparison is exact. -/
theorem labelsChanged_iff {a b : List PostLabel} (ha : a.Nodup) (hb : b.Nodup) :
    labelsChanged a b = true ↔ ¬∀ label, label ∈ a ↔ label ∈ b := by
  rw [← not_iff_not, not_not, Bool.not_eq_true]
  constructor
  · intro h label
    exact (perm_of_unchanged hb h).mem_iff.symm
  · intro hSame
    have hPerm := (List.perm_ext_iff_of_nodup ha hb).mpr hSame
    exact labelsChanged_eq_false_iff.mpr ⟨hPerm.length_eq, fun label hLabel => (hSame label).mpr hLabel⟩

/-! ### Sets by target -/

theorem EventKey.dedupKey_inj {a b : EventKey} (h : a.dedupKey = b.dedupKey) : a = b := by
  obtain ⟨_, _, ⟨_, _⟩, _⟩ := a
  obtain ⟨_, _, ⟨_, _⟩, _⟩ := b
  simp only [EventKey.dedupKey, Prod.mk.injEq] at h
  obtain ⟨rfl, rfl, rfl, rfl, rfl⟩ := h
  rfl

theorem keepsTarget : KeepsKey (fun set : LabelSet => some set.target.dedupKey) LabelSet.merge :=
  fun _ _ _ ha _ => ha

/-- The sets of one target, in order. -/
def setsOf (target : EventKey) (sets : List LabelSet) : List LabelSet := sets.filter fun set => set.target = target

/-- Merged sets of one target have its labels, once each if there are several of them. -/
theorem mergeAll_sets {target : EventKey} {sets : List LabelSet} {merged : LabelSet}
    (hSets : ∀ set ∈ sets, set.target = target) (h : mergeAll LabelSet.merge sets = some merged) :
    merged.target = target ∧ (∀ label, label ∈ merged.labels ↔ ∃ set ∈ sets, label ∈ set.labels) ∧
      (sets = [merged] ∨ merged.labels.Nodup) := by
  induction sets using List.reverseRecOn generalizing merged with
  | nil => cases h
  | append_singleton sets last ih =>
      rw [mergeAll_concat] at h
      obtain rfl := Option.some.inj h
      cases hEarlier : mergeAll LabelSet.merge sets with
      | none =>
          obtain rfl : sets = [] := by
            cases sets with
            | nil => rfl
            | cons _ _ => cases hEarlier
          exact ⟨hSets last (by simp), by simp, Or.inl (by simp)⟩
      | some earlier =>
          obtain ⟨hTarget, hLabels, -⟩ := ih (fun set hSet => hSets set (by simp [hSet])) hEarlier
          refine ⟨hTarget, fun label => ?_, Or.inr (nodup_mergeLabels _ _)⟩
          show label ∈ mergeLabels earlier.labels last.labels ↔ _
          rw [mem_mergeLabels, hLabels]
          simp [or_and_right, exists_or]

variable {P : Primitives} {hints hints' : List EventHint} {set : LabelSet}

/-- A set of the result is the merge of all that was hinted for its target. -/
theorem mem_buildLabelSets :
    set ∈ buildLabelSets P hints ↔ mergeAll LabelSet.merge (setsOf set.target (hintedSets P hints)) = some set := by
  have hCopies : ∀ target : EventKey, copies (fun set : LabelSet => some set.target.dedupKey) target.dedupKey
      (hintedSets P hints) = setsOf target (hintedSets P hints) := by
    intro target
    refine List.filter_congr fun set _ => decide_eq_decide.mpr ?_
    rw [Option.some.injEq]
    exact ⟨EventKey.dedupKey_inj, fun h => h ▸ rfl⟩
  rw [buildLabelSets, mem_mergeByKey_iff, ← hCopies]
  constructor
  · rintro (⟨-, hNone⟩ | ⟨k, hMerge⟩)
    · cases hNone
    · have hKey : some set.target.dedupKey = some k :=
        keepsTarget.mergeAll (fun x hx => of_decide_eq_true (List.mem_filter.mp hx).2) hMerge
      rwa [Option.some.inj hKey]
  · intro hMerge
    exact Or.inr ⟨_, hMerge⟩

/-! ### Exactness -/

section Exactness

variable (P) in
/-- Some Labels hint has the label for the target. -/
def Hinted (hints : List EventHint) (target : EventKey) (label : PostLabel) : Prop :=
  ∃ set ∈ hintedSets P hints, set.target = target ∧ label ∈ set.labels

variable (P) in
/-- Every target of a Labels hint has one set, which holds each of its labels once. -/
structure LabelsOnce (hints : List EventHint) : Prop where
  targets : ((buildLabelSets P hints).map LabelSet.target).Nodup
  covers : ∀ hinted ∈ hintedSets P hints, ∃ set ∈ buildLabelSets P hints, set.target = hinted.target
  labels : ∀ set ∈ buildLabelSets P hints, ∀ label, label ∈ set.labels ↔ Hinted P hints set.target label
  once : ∀ set ∈ buildLabelSets P hints, set.labels.Nodup

variable (P) in
/-- The lists of labels that an app can build from the hints of two responses. -/
inductive Built (hints hints' : List EventHint) : List PostLabel → Prop
  | first {set : LabelSet} : set ∈ buildLabelSets P hints → Built hints hints' set.labels
  | second {set : LabelSet} : set ∈ buildLabelSets P hints' → Built hints hints' set.labels
  | merged {a b : List PostLabel} : Built hints hints' a → Built hints hints' b →
      Built hints hints' (mergeLabels a b)

variable (P) in
def ChangesExact (hints hints' : List EventHint) : Prop :=
  ∀ a b, Built P hints hints' a → Built P hints hints' b →
    (labelsChanged a b = true ↔ ¬∀ label, label ∈ a ↔ label ∈ b)

variable (P) in
/-- A Labels hint that is the only one for its target repeats no value. -/
def LoneHintsDistinct (hints : List EventHint) : Prop :=
  ∀ set, setsOf set.target (hintedSets P hints) = [set] → set.labels.Nodup

theorem setsOf_target {target : EventKey} {sets : List LabelSet} : ∀ set ∈ setsOf target sets, set.target = target :=
  fun _ hSet => of_decide_eq_true (List.mem_filter.mp hSet).2

/-- A label of a set was hinted for its target. -/
theorem mem_labels_iff (hSet : set ∈ buildLabelSets P hints) (label : PostLabel) :
    label ∈ set.labels ↔ Hinted P hints set.target label := by
  obtain ⟨-, hLabels, -⟩ := mergeAll_sets setsOf_target (mem_buildLabelSets.mp hSet)
  rw [hLabels]
  simp only [setsOf, List.mem_filter, decide_eq_true_eq, and_assoc, Hinted]

/-- Every target has one set. -/
theorem nodup_targets (hints : List EventHint) : ((buildLabelSets P hints).map LabelSet.target).Nodup := by
  have hKeys := keepsTarget.nodup (hintedSets P hints)
  rw [List.filterMap_eq_map', ← Function.comp_def EventKey.dedupKey, ← List.map_map] at hKeys
  exact hKeys.of_map

/-- Every hinted target has a set. -/
theorem covers_targets : ∀ hinted ∈ hintedSets P hints, ∃ set ∈ buildLabelSets P hints, set.target = hinted.target := by
  intro hinted hMem
  have hOwn : hinted ∈ setsOf hinted.target (hintedSets P hints) := List.mem_filter.mpr ⟨hMem, decide_eq_true rfl⟩
  cases hMerge : mergeAll LabelSet.merge (setsOf hinted.target (hintedSets P hints)) with
  | none =>
      cases hSets : setsOf hinted.target (hintedSets P hints) with
      | nil => rw [hSets] at hOwn; cases hOwn
      | cons _ _ => rw [hSets] at hMerge; cases hMerge
  | some set =>
      have hTarget := (mergeAll_sets setsOf_target hMerge).1
      exact ⟨set, mem_buildLabelSets.mpr (hTarget ▸ hMerge), hTarget⟩

/-- A set repeats a label only if it comes from the only hint for its target. -/
theorem nodup_sets_iff :
    (∀ set ∈ buildLabelSets P hints, set.labels.Nodup) ↔ LoneHintsDistinct P hints := by
  constructor
  · intro hAll set hLone
    exact hAll set (mem_buildLabelSets.mpr (by rw [hLone]; rfl))
  · intro hLone set hSet
    obtain ⟨-, -, hOnce⟩ := mergeAll_sets setsOf_target (mem_buildLabelSets.mp hSet)
    rcases hOnce with hOnly | hNodup
    · exact hLone set hOnly
    · exact hNodup

theorem labelsOnce_iff : LabelsOnce P hints ↔ LoneHintsDistinct P hints :=
  ⟨fun h => nodup_sets_iff.mp h.once, fun h =>
    ⟨nodup_targets hints, covers_targets, fun _ hSet => mem_labels_iff hSet, nodup_sets_iff.mpr h⟩⟩

theorem changesExact_iff :
    ChangesExact P hints hints' ↔ LoneHintsDistinct P hints ∧ LoneHintsDistinct P hints' := by
  rw [← nodup_sets_iff, ← nodup_sets_iff]
  constructor
  · intro hExact
    -- a list is compared with itself merged
    have hBuilt : ∀ labels, Built P hints hints' labels → labels.Nodup := by
      intro labels hLabels
      have hUnchanged : labelsChanged labels (mergeLabels labels labels) = false := by
        rw [← Bool.not_eq_true, hExact _ _ hLabels (.merged hLabels hLabels), not_not]
        intro label
        rw [mem_mergeLabels, or_self]
      exact (perm_of_unchanged (nodup_mergeLabels _ _) hUnchanged).nodup_iff.mp (nodup_mergeLabels _ _)
    exact ⟨fun set hSet => hBuilt _ (.first hSet), fun set hSet => hBuilt _ (.second hSet)⟩
  · intro hNodup a b ha hb
    have hBuilt : ∀ labels, Built P hints hints' labels → labels.Nodup := by
      intro labels hLabels
      induction hLabels with
      | first hSet => exact hNodup.1 _ hSet
      | second hSet => exact hNodup.2 _ hSet
      | merged _ _ _ _ => exact nodup_mergeLabels _ _
    exact labelsChanged_iff (hBuilt a ha) (hBuilt b hb)

/-- The labels of a target depend on which hints there are, not on their order. -/
theorem labels_order {reordered : List EventHint} (hSame : ∀ hint, hint ∈ reordered ↔ hint ∈ hints)
    {set set' : LabelSet} (hSet : set ∈ buildLabelSets P hints) (hSet' : set' ∈ buildLabelSets P reordered)
    (hTarget : set'.target = set.target) (label : PostLabel) : label ∈ set'.labels ↔ label ∈ set.labels := by
  have hHinted : ∀ hinted, hinted ∈ hintedSets P reordered ↔ hinted ∈ hintedSets P hints := by
    intro hinted
    simp only [hintedSets, List.mem_filterMap, hSame]
  rw [mem_labels_iff hSet, mem_labels_iff hSet', hTarget, Hinted, Hinted]
  simp only [hHinted]

variable (P) in
/-- Both responses yield the labels of every target once, whatever the order of their hints,
and what is built of them passes for changed exactly if it is. -/
structure LabelsExact (hints hints' : List EventHint) : Prop where
  first : LabelsOnce P hints
  second : LabelsOnce P hints'
  order : ∀ listed ∈ [hints, hints'], ∀ reordered : List EventHint, (∀ hint, hint ∈ reordered ↔ hint ∈ listed) →
    ∀ set ∈ buildLabelSets P listed, ∀ set' ∈ buildLabelSets P reordered, set'.target = set.target →
      ∀ label, label ∈ set'.labels ↔ label ∈ set.labels
  changes : ChangesExact P hints hints'

/-- Changes of labels are exact if and only if no Labels event that is alone for its target
repeats a value. The comparison alone depends on that, too. -/
theorem label_changes_iff (P : Primitives) (hints hints' : List EventHint) :
    (LabelsExact P hints hints' ↔ LoneHintsDistinct P hints ∧ LoneHintsDistinct P hints') ∧
      (ChangesExact P hints hints' ↔ LoneHintsDistinct P hints ∧ LoneHintsDistinct P hints') := by
  refine ⟨⟨fun h => changesExact_iff.mp h.changes, fun h => ?_⟩, changesExact_iff⟩
  exact ⟨labelsOnce_iff.mpr h.1, labelsOnce_iff.mpr h.2,
    fun _ _ _ hSame _ hSet _ hSet' => labels_order hSame hSet hSet', changesExact_iff.mpr h⟩

end Exactness

end Polycentric.Client.Labels

namespace Polycentric.TableInstance

open Proto

/-- Event `[4]` labels a post of Alice "spam", twice. -/
def repeatedPrimitives : Primitives := primitives
  [([4], event Collections.labels "moderator" (key 3) 1 [1] [14])]
  [([14], ⟨some (.labels (some ⟨Collections.feed, "alice", some (key 2), 1⟩) ["spam", "spam"])⟩)]

def repeatedHint : EventHint := ⟨some ⟨some ⟨sign (key 3).key [4], [4]⟩, some ⟨[14]⟩, [], none⟩⟩

end Polycentric.TableInstance

namespace Polycentric.Client.Labels

open TableInstance

/-- The repeated value is listed twice. -/
theorem repeated_value_kept : ¬LabelsExact repeatedPrimitives [repeatedHint] [] := by
  intro h
  have hBuilt : (⟨⟨Collections.feed, "alice", key 2, 1⟩, [⟨"spam", "moderator"⟩, ⟨"spam", "moderator"⟩]⟩ : LabelSet) ∈
      buildLabelSets repeatedPrimitives [repeatedHint] := by decide +kernel
  exact absurd (h.first.once _ hBuilt) (by decide)

end Polycentric.Client.Labels
