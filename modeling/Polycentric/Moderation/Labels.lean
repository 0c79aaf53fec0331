import Mathlib

/-! The labels that the moderation service gives: `labels.rs`, and `moderation_label.rs`
of the common crate. They are read off the answers of Azure's content analysis, or off the
report of a moderator. -/
namespace Polycentric.Moderation

/-- `serde_json::Value`, its numbers by their value as an `i64` if they have one. -/
inductive Json where
  | null
  | bool (value : Bool)
  | number (i64 : Option Int)
  | string (value : String)
  | array (elements : List Json)
  | object (members : List (String × Json))

namespace Json

def get (value : Json) (name : String) : Option Json :=
  match value with
  | .object members => members.lookup name
  | _ => none

def asArray : Json → Option (List Json)
  | .array elements => some elements
  | _ => none

def asStr : Json → Option String
  | .string value => some value
  | _ => none

def asI64 : Json → Option Int
  | .number i64 => i64
  | _ => none

end Json

inductive ModerationLabel where
  | hate
  | selfHarm
  | sexuallySuggestive
  | sexuallyExplicit
  | violence
  deriving DecidableEq, Repr

/-- The defined string-value for this moderation label. -/
def ModerationLabel.value : ModerationLabel → String
  | .hate => "hate"
  | .selfHarm => "self-harm"
  | .sexuallySuggestive => "sexually-suggestive"
  | .sexuallyExplicit => "sexually-explicit"
  | .violence => "violence"

/-- Top of Azure's default (FourSeverityLevels) severity scale. -/
def maxSeverityLevel : Int := 6

/-- A label and the Azure category and inclusive severity band that triggers it. -/
structure LabelRule where
  label : ModerationLabel
  category : String
  min : Int
  max : Int
  deriving DecidableEq, Repr

/-- Label rules, in the order labels are emitted. -/
def labelRules : List LabelRule :=
  [⟨.hate, "Hate", 4, maxSeverityLevel⟩,
    ⟨.selfHarm, "SelfHarm", 4, maxSeverityLevel⟩,
    ⟨.sexuallySuggestive, "Sexual", 2, 4⟩,
    ⟨.sexuallyExplicit, "Sexual", 5, maxSeverityLevel⟩,
    ⟨.violence, "Violence", 4, maxSeverityLevel⟩]

/-- Severity for `category` within a single Azure analysis result, or 0 if not present. -/
def severityIn (result : Json) (category : String) : Int :=
  let entries := ((result.get "categoriesAnalysis").bind Json.asArray).getD []
  ((entries.find? fun entry => (entry.get "category").bind Json.asStr = some category).bind
    fun entry => (entry.get "severity").bind Json.asI64).getD 0

/-- The text result and all image results. -/
def analysisResults (response : Json) : List Json :=
  (response.get "text").toList ++ ((response.get "images").bind Json.asArray).getD []

/-- Highest severity reported for `category` across all results. -/
def maxSeverity (response : Json) (category : String) : Int :=
  ((analysisResults response).map fun result => severityIn result category).max?.getD 0

def labelsFromAzure (response : Json) : List String :=
  (labelRules.filter fun rule =>
    maxSeverity response rule.category ≥ rule.min && maxSeverity response rule.category ≤ rule.max).map
      fun rule => rule.label.value

/-- Some report categories correspond to label events. -/
def labelFromReportCategory (category : Int32) : Option ModerationLabel :=
  if category = 11 then some .hate
  else if category = 9 then some .selfHarm
  else if category = 10 then some .sexuallyExplicit
  else if category = 8 then some .violence
  else none

section Evidence

variable {response : Json} {category : String} {rule : LabelRule}

/-- Some result is within the band of the rule, and none is above it. -/
def Evident (response : Json) (rule : LabelRule) : Prop :=
  (∃ result ∈ analysisResults response, rule.min ≤ severityIn result rule.category) ∧
    ∀ result ∈ analysisResults response, severityIn result rule.category ≤ rule.max

theorem severityIn_le_maxSeverity {result : Json} (h : result ∈ analysisResults response) :
    severityIn result category ≤ maxSeverity response category := by
  unfold maxSeverity
  have hMem := List.mem_map_of_mem (f := fun result => severityIn result category) h
  cases hMax : ((analysisResults response).map fun result => severityIn result category).max? with
  | none =>
      rw [List.max?_eq_none_iff] at hMax
      rw [hMax] at hMem
      cases hMem
  | some severity => exact (List.max?_eq_some_iff.mp hMax).2 _ hMem

/-- A severity that is not the default comes from a result. -/
theorem exists_maxSeverity (h : maxSeverity response category ≠ 0) :
    ∃ result ∈ analysisResults response, severityIn result category = maxSeverity response category := by
  unfold maxSeverity at h ⊢
  cases hMax : ((analysisResults response).map fun result => severityIn result category).max? with
  | none =>
      rw [hMax] at h
      exact absurd rfl h
  | some severity => exact List.mem_map.mp (List.max?_eq_some_iff.mp hMax).1

theorem labelRules_positive : ∀ rule ∈ labelRules, 0 < rule.min := by decide

/-- A label is given exactly if a rule for it has evidence. -/
theorem mem_labelsFromAzure {label : String} :
    label ∈ labelsFromAzure response ↔
      ∃ rule ∈ labelRules, rule.label.value = label ∧ Evident response rule := by
  simp only [labelsFromAzure, List.mem_map, List.mem_filter, Bool.and_eq_true, decide_eq_true_iff]
  constructor
  · rintro ⟨rule, ⟨hRule, hMin, hMax⟩, hLabel⟩
    have hPositive := labelRules_positive rule hRule
    obtain ⟨result, hResult, hSeverity⟩ := exists_maxSeverity (show maxSeverity response rule.category ≠ 0 by omega)
    refine ⟨rule, hRule, hLabel, ⟨result, hResult, by omega⟩, ?_⟩
    intro other hOther
    exact (severityIn_le_maxSeverity hOther).trans hMax
  · rintro ⟨rule, hRule, hLabel, ⟨result, hResult, hMin⟩, hMax⟩
    have hPositive := labelRules_positive rule hRule
    have hReached := hMin.trans (severityIn_le_maxSeverity hResult)
    obtain ⟨worst, hWorst, hSeverity⟩ := exists_maxSeverity (show maxSeverity response rule.category ≠ 0 by omega)
    exact ⟨rule, ⟨hRule, hReached, hSeverity ▸ hMax worst hWorst⟩, hLabel⟩

end Evidence

end Polycentric.Moderation
