import Polycentric.Server.FeedFilter

/-! Which rows a feed leaves out for their labels. -/
namespace Polycentric.Server.Feeds

open Proto

variable (P : Primitives)

/-- Whether a row of the moderator labels the key. -/
def labels (row : EventWithContentRow) (key : EventKeyParts) : Bool :=
  (labelOf P row).any fun label => label.1 = key

/-- Whether it labels the key with a value of the omit set. -/
def omits (omitLabels : List String) (row : EventWithContentRow) (key : EventKeyParts) : Bool :=
  (labelOf P row).any fun label =>
    label.1 = key && label.2.any fun value => omitLabels.contains value

/-- Some label event for the key carries a value of the omit set. -/
def OmittedByLabel (labelEvents : List EventWithContentRow) (omitLabels : List String) (key : EventKeyParts) : Prop :=
  ∃ row ∈ labelEvents, omits P omitLabels row key = true

/-- If a label event for the key carries a value of the omit set, the first one for the
key does. -/
def FirstOmits (labelEvents : List EventWithContentRow) (omitLabels : List String) (key : EventKeyParts) : Prop :=
  ∀ before row after, labelEvents = before ++ row :: after →
    (∀ other ∈ before, labels P other key = false) → labels P row key = true →
    OmittedByLabel P labelEvents omitLabels key → omits P omitLabels row key = true

/-- A row labels the key with an omitted value only if it labels the key. -/
theorem labels_of_omits {omitLabels : List String} {row : EventWithContentRow} {key : EventKeyParts}
    (h : omits P omitLabels row key = true) : labels P row key = true := by
  unfold omits at h
  unfold labels
  cases hLabel : labelOf P row with
  | none =>
      rw [hLabel] at h
      exact h
  | some label =>
      rw [hLabel, Option.any_some, Bool.and_eq_true] at h
      exact h.1

/-- The first row that labels the key decides. -/
theorem hasMatchingLabel_cons (row : EventWithContentRow) (rest : List EventWithContentRow) (key : EventKeyParts)
    (omitLabels : List String) :
    hasMatchingLabel P (row :: rest) key omitLabels =
      if labels P row key then omits P omitLabels row key else hasMatchingLabel P rest key omitLabels := by
  unfold hasMatchingLabel labels omits
  cases hLabel : labelOf P row with
  | none => rw [List.filterMap_cons_none hLabel]; rfl
  | some label =>
      rw [List.filterMap_cons_some hLabel, List.find?_cons, Option.any_some, Option.any_some]
      by_cases hKey : label.1 = key
      · simp only [hKey, decide_true, Bool.true_and, if_true]
      · simp only [hKey, decide_false, Bool.false_eq_true, if_false]

/-- A match is the match of some row, whatever row decides. -/
theorem omitted_of_hasMatchingLabel {labelEvents : List EventWithContentRow} {omitLabels : List String}
    {key : EventKeyParts} (h : hasMatchingLabel P labelEvents key omitLabels = true) :
    OmittedByLabel P labelEvents omitLabels key := by
  induction labelEvents with
  | nil => cases h
  | cons row rest ih =>
      rw [hasMatchingLabel_cons] at h
      split at h
      · exact ⟨row, List.mem_cons_self, h⟩
      · obtain ⟨other, hOther, hOmits⟩ := ih h
        exact ⟨other, List.mem_cons_of_mem _ hOther, hOmits⟩

/-- Rows for other keys are skipped. -/
theorem hasMatchingLabel_skip {before : List EventWithContentRow} {key : EventKeyParts}
    (hBefore : ∀ other ∈ before, labels P other key = false) (rest : List EventWithContentRow)
    (omitLabels : List String) :
    hasMatchingLabel P (before ++ rest) key omitLabels = hasMatchingLabel P rest key omitLabels := by
  induction before with
  | nil => rfl
  | cons row before ih =>
      rw [List.cons_append, hasMatchingLabel_cons, hBefore row List.mem_cons_self]
      exact ih fun other hOther => hBefore other (List.mem_cons_of_mem _ hOther)

theorem hasMatchingLabel_iff (labelEvents : List EventWithContentRow) (omitLabels : List String)
    (key : EventKeyParts) :
    (hasMatchingLabel P labelEvents key omitLabels = true ↔ OmittedByLabel P labelEvents omitLabels key) ↔
      FirstOmits P labelEvents omitLabels key := by
  constructor
  · intro hExact before row after hEvents hBefore hRow hOmitted
    have hMatch := hExact.mpr hOmitted
    rw [hEvents, hasMatchingLabel_skip P hBefore, hasMatchingLabel_cons, if_pos hRow] at hMatch
    exact hMatch
  · intro hFirst
    refine ⟨omitted_of_hasMatchingLabel P, fun hOmitted => ?_⟩
    obtain ⟨omitting, hMem, hOmits⟩ := hOmitted
    -- the first row that labels the key
    cases hFind : labelEvents.find? fun row => labels P row key with
    | none => exact absurd (labels_of_omits P hOmits) (List.find?_eq_none.mp hFind omitting hMem)
    | some row =>
        obtain ⟨hRow, before, after, hEvents, hBefore⟩ := List.find?_eq_some_iff_append.mp hFind
        have hSkipped : ∀ other ∈ before, labels P other key = false :=
          fun other hOther => by simpa using hBefore other hOther
        rw [hEvents, hasMatchingLabel_skip P hSkipped, hasMatchingLabel_cons, if_pos hRow]
        exact hFirst before row after hEvents hSkipped hRow ⟨omitting, hMem, hOmits⟩

/-- Without an omit set no label counts. -/
theorem hasMatchingLabel_nil (labelEvents : List EventWithContentRow) (key : EventKeyParts) :
    hasMatchingLabel P labelEvents key [] = false := by
  induction labelEvents with
  | nil => rfl
  | cons row rest ih =>
      have hNone : omits P [] row key = false := by
        unfold omits
        cases labelOf P row with
        | none => rfl
        | some label => simp
      rw [hasMatchingLabel_cons, hNone, ih, ite_self]

theorem isOmitLabeled_eq (hydration : HydrationState) (omitLabels : List String) (key : EventKeyParts) :
    isOmitLabeled P hydration omitLabels key = hasMatchingLabel P hydration.labelEvents key omitLabels := by
  unfold isOmitLabeled
  cases omitLabels with
  | nil => exact (hasMatchingLabel_nil P hydration.labelEvents key).symm
  | cons value rest => rfl

section Rows

variable (hydration : HydrationState) (omitLabels : List String)

/-- Whether a row goes for the labels of its own key or of the key that it reposts. -/
def goesForLabels (row : EventWithContentRow) : Bool :=
  hasMatchingLabel P hydration.labelEvents row.1.key omitLabels ||
    match referencedTarget P row with
    | some (.repost target) => hasMatchingLabel P hydration.labelEvents target omitLabels
    | _ => false

/-- A key is omitted without the omit set, or for its labels. -/
theorem isOmitted_eq (key : EventKeyParts) :
    isOmitted P hydration omitLabels key =
      (isOmitted P hydration [] key || hasMatchingLabel P hydration.labelEvents key omitLabels) := by
  unfold isOmitted
  rw [isOmitLabeled_eq, isOmitLabeled_eq, hasMatchingLabel_nil, Bool.or_false]

/-- The omit set only takes rows away, those that go for labels. -/
theorem judgeRow_labels (row : EventWithContentRow) :
    (judgeRow P hydration omitLabels row).1 =
      ((judgeRow P hydration [] row).1 && !goesForLabels P hydration omitLabels row) := by
  unfold judgeRow goesForLabels
  cases hydration.deletesByTarget.lookup row.1.key with
  | some bundles => rfl
  | none =>
      rw [isOmitLabeled_eq, isOmitLabeled_eq, hasMatchingLabel_nil]
      cases hasMatchingLabel P hydration.labelEvents row.1.key omitLabels with
      | true => simp
      | false =>
          cases referencedTarget P row with
          | none => rfl
          | some referenced =>
              cases referenced with
              | quote target => rfl
              | repost target => simp [isOmitted_eq P hydration omitLabels target]

theorem filterLive_labels (cascadeBlockedReplies : Bool) (rows : List EventWithContentRow)
    (droppedForBlock : List EventKeyParts) :
    (filterLive P hydration omitLabels cascadeBlockedReplies rows droppedForBlock).1 =
      (filterLive P hydration [] cascadeBlockedReplies rows droppedForBlock).1.filter fun row =>
        !goesForLabels P hydration omitLabels row := by
  induction rows generalizing droppedForBlock with
  | nil => rfl
  | cons row rest ih =>
      simp only [filterLive]
      split
      · exact ih _
      · rw [judgeRow_labels P hydration omitLabels row, ih]
        cases (judgeRow P hydration [] row).1 with
        | false => rfl
        | true =>
            rw [if_pos rfl, List.filter_cons]
            rfl

end Rows

variable {P}

/-- What a page says about a key when label omission is exact there. A row that is left
without the omit set, and is not a repost of something labeled, goes exactly for its own
labels, and so does a hint. -/
structure OmitsExactly (hydration : HydrationState) (omitLabels : List String) (key : EventKeyParts) : Prop where
  answers : hasMatchingLabel P hydration.labelEvents key omitLabels = true ↔
    OmittedByLabel P hydration.labelEvents omitLabels key
  rows : ∀ {SortedBy : Type} (fetched : Fetched EventWithContentRow SortedBy) (cascadeBlockedReplies : Bool),
    ∀ row ∈ (filterRows P fetched hydration [] cascadeBlockedReplies).liveRows, row.1.key = key →
      (∀ target, referencedTarget P row = some (.repost target) →
        hasMatchingLabel P hydration.labelEvents target omitLabels = false) →
      (row ∉ (filterRows P fetched hydration omitLabels cascadeBlockedReplies).liveRows ↔
        OmittedByLabel P hydration.labelEvents omitLabels key)
  hints : ∀ {SortedBy : Type} (fetched : Fetched EventWithContentRow SortedBy) (cascadeBlockedReplies : Bool),
    ∀ row ∈ (filterRows P fetched hydration [] cascadeBlockedReplies).eventHints, row.1.key = key →
      (row ∉ (filterRows P fetched hydration omitLabels cascadeBlockedReplies).eventHints ↔
        OmittedByLabel P hydration.labelEvents omitLabels key)

theorem mem_liveRows_labels {SortedBy : Type} {hydration : HydrationState} {omitLabels : List String}
    {fetched : Fetched EventWithContentRow SortedBy} {cascadeBlockedReplies : Bool} {row : EventWithContentRow} :
    row ∈ (filterRows P fetched hydration omitLabels cascadeBlockedReplies).liveRows ↔
      row ∈ (filterRows P fetched hydration [] cascadeBlockedReplies).liveRows ∧
        goesForLabels P hydration omitLabels row = false := by
  show row ∈ (filterLive P hydration omitLabels cascadeBlockedReplies fetched.rows []).1 ↔ _
  rw [filterLive_labels, List.mem_filter, Bool.not_eq_true']
  rfl

theorem mem_eventHints_labels {SortedBy : Type} {hydration : HydrationState} {omitLabels : List String}
    {fetched : Fetched EventWithContentRow SortedBy} {cascadeBlockedReplies : Bool} {row : EventWithContentRow} :
    row ∈ (filterRows P fetched hydration omitLabels cascadeBlockedReplies).eventHints ↔
      row ∈ (filterRows P fetched hydration [] cascadeBlockedReplies).eventHints ∧
        hasMatchingLabel P hydration.labelEvents row.1.key omitLabels = false := by
  simp only [filterRows, List.mem_filter, isOmitted_eq P hydration omitLabels, Bool.not_or, Bool.and_eq_true,
    Bool.not_eq_true', and_assoc]

theorem omitsExactly_iff (hydration : HydrationState) (omitLabels : List String) (key : EventKeyParts) :
    OmitsExactly (P := P) hydration omitLabels key ↔ FirstOmits P hydration.labelEvents omitLabels key := by
  rw [← hasMatchingLabel_iff]
  refine ⟨OmitsExactly.answers, fun hAnswers => ⟨hAnswers, ?_, ?_⟩⟩
  · intro SortedBy fetched cascadeBlockedReplies row hRow hKey hRepost
    have hOwn : goesForLabels P hydration omitLabels row =
        hasMatchingLabel P hydration.labelEvents key omitLabels := by
      unfold goesForLabels
      rw [hKey]
      cases hReferenced : referencedTarget P row with
      | none => exact Bool.or_false _
      | some referenced =>
          cases referenced with
          | quote target => exact Bool.or_false _
          | repost target =>
              show (_ || hasMatchingLabel P hydration.labelEvents target omitLabels) = _
              rw [hRepost target hReferenced, Bool.or_false]
    rw [mem_liveRows_labels, hOwn, ← hAnswers]
    simp [hRow]
  · intro SortedBy fetched cascadeBlockedReplies row hRow hKey
    rw [mem_eventHints_labels, hKey, ← hAnswers]
    simp [hRow]

/-- Every order of the label events is fine exactly when they agree about the key. -/
theorem firstOmits_perm_iff (labelEvents : List EventWithContentRow) (omitLabels : List String)
    (key : EventKeyParts) :
    (∀ reordered, reordered.Perm labelEvents → FirstOmits P reordered omitLabels key) ↔
      ∀ row ∈ labelEvents, ∀ other ∈ labelEvents, omits P omitLabels row key = true →
        labels P other key = true → omits P omitLabels other key = true := by
  constructor
  · intro hFirst row hRow other hOther hOmits hLabels
    have hPerm := (List.perm_cons_erase hOther).symm
    exact hFirst _ hPerm [] other (labelEvents.erase other) rfl (by simp) hLabels
      ⟨row, hPerm.mem_iff.mpr hRow, hOmits⟩
  · intro hAgree reordered hPerm before row after hEvents _ hLabels hOmitted
    obtain ⟨omitting, hMem, hOmits⟩ := hOmitted
    have hRow : row ∈ reordered := by rw [hEvents]; exact List.mem_append_right _ List.mem_cons_self
    exact hAgree omitting (hPerm.mem_iff.mp hMem) row (hPerm.mem_iff.mp hRow) hOmits hLabels

/-- A page hides exactly what the labels ask for if and only if the first label event for
the key carries an omitted value whenever one of them does. So it does for every order of
the label events if and only if they agree. -/
theorem labels_hide_iff (P : Primitives) (hydration : HydrationState) (omitLabels : List String)
    (key : EventKeyParts) :
    (OmitsExactly (P := P) hydration omitLabels key ↔ FirstOmits P hydration.labelEvents omitLabels key) ∧
      ((∀ reordered, reordered.Perm hydration.labelEvents →
          OmitsExactly (P := P) { hydration with labelEvents := reordered } omitLabels key) ↔
        ∀ row ∈ hydration.labelEvents, ∀ other ∈ hydration.labelEvents, omits P omitLabels row key = true →
          labels P other key = true → omits P omitLabels other key = true) := by
  refine ⟨omitsExactly_iff hydration omitLabels key, ?_⟩
  rw [← firstOmits_perm_iff]
  exact forall₂_congr fun reordered _ =>
    omitsExactly_iff { hydration with labelEvents := reordered } omitLabels key

end Polycentric.Server.Feeds

namespace Polycentric.TableInstance

open Proto Server

/-- Two label events for Alice's post: the first says "nsfw", the second "spam". -/
def twoLabelsPrimitives : Primitives := primitives []
  [([1], ⟨some (.labels (some ⟨Collections.feed, "alice", some (key 2), 1⟩) ["nsfw"])⟩),
   ([2], ⟨some (.labels (some ⟨Collections.feed, "alice", some (key 2), 1⟩) ["spam"])⟩)]

def labelRow (id : Nat) (contentBytes : Bytes) : EventWithContentRow :=
  (⟨id, ⟨Collections.feed.toInt16, "moderator", keyTypeEd25519.toInt16, (key 9).key, id.toInt64⟩,
    some ⟨contentDigestTypeSha256, (digest contentBytes).val⟩, sign (key 9).key contentBytes, contentBytes, 0⟩,
    some ⟨⟨contentDigestTypeSha256, (digest contentBytes).val⟩, contentBytes⟩)

def labeledKey : EventKeyParts := .of ⟨Collections.feed, "alice", some (key 2), 1⟩ (key 2)

end Polycentric.TableInstance

namespace Polycentric.Server.Feeds

open TableInstance

/-- A reader who omits "spam" sees the post that the second label event calls so. -/
theorem second_label_ignored :
    ¬∀ key, OmitsExactly (P := twoLabelsPrimitives) ⟨[], [], [], [labelRow 1 [1], labelRow 2 [2]], []⟩ ["spam"] key := by
  intro h
  have hMatch := (h labeledKey).answers.mpr
    ⟨labelRow 2 [2], List.mem_cons_of_mem _ List.mem_cons_self, by decide +kernel⟩
  have hNone : hasMatchingLabel twoLabelsPrimitives [labelRow 1 [1], labelRow 2 [2]] labeledKey ["spam"] = false := by
    decide +kernel
  rw [hNone] at hMatch
  cases hMatch

end Polycentric.Server.Feeds
