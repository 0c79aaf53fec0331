import Polycentric.Moderation.Screening

/-! What the calls of the moderation service are for. What a row says, a scan or an analysis has
answered, so a process that goes on from a row goes on from what was answered, also when the
row was read in a replica. -/
namespace Polycentric.Moderation

open Proto Runs

variable (P : Primitives) (decodeBody : Bytes → Option Body)

/-- What is asked of Azure about a content of this text and these images. -/
def requests (text : Option String) (images : List (Bytes × String)) : List ModerationRequest :=
  (images.filterMap fun image => ModerationRequest.fromParts text (some image.1)) ++
    if images.isEmpty then (ModerationRequest.fromParts text none).toList else []

/-- Azure has found, in a content of this digest, a severity in the band of the rule. -/
def Found (calls : List Call) (digest : ContentDigest) (rule : LabelRule) : Prop :=
  ∃ content images analyze request result, .analysis content images (some analyze) ∈ calls ∧
    content.digest = digest ∧ request ∈ requests (contentText content.body) images ∧
    analyze request = some result ∧
    rule.min ≤ severityIn result rule.category ∧ severityIn result rule.category ≤ rule.max

/-- The filter of PhotoDNA has answered about a content of this digest. -/
def Told (calls : List Call) (digest : ContentDigest) (verdict : Bool) : Prop :=
  .scan digest (some verdict) ∈ calls

/-- The response was put together from what Azure answered about a content of this digest. -/
def Answered (calls : List Call) (digest : ContentDigest) (response : Json) : Prop :=
  ∃ content images azure, .analysis content images azure ∈ calls ∧ content.digest = digest ∧
    moderate azure (contentText content.body) images = some response

section Calls

variable (Topic : Message → Prop) (Moderator : String → Prop)

/-- The message is on the topic and carries the content. -/
def Carries (message : Message) (content : BundleContent) : Prop :=
  Topic message ∧ message.content P decodeBody = some content

/-- What a call is for. -/
def Justified (calls : List Call) : Call → Prop
  | .scan _ _ => True
  | .analysis content images _ => Told calls content.digest false ∧
      ∃ message readBlob, Carries P decodeBody Topic message content ∧
        images = fetchImages readBlob content.body
  | .purge blob => ∃ message content, Carries P decodeBody Topic message content ∧
      Told calls content.digest true ∧ blob ∈ (imageBlobs content.body).map Prod.fst
  | .report target => ∃ message content, Carries P decodeBody Topic message content ∧
      Told calls content.digest true ∧ message.key = some target
  | .label target labels => labels ≠ [] ∧
      ((∃ message content, Carries P decodeBody Topic message content ∧
        Told calls content.digest false ∧ message.key = some target ∧
        ∀ label ∈ labels, ∃ rule ∈ labelRules, rule.label.value = label ∧ Found calls content.digest rule) ∨
      ∃ message author digest category label,
        Carries P decodeBody Topic message ⟨author, digest, .report (some target) category⟩ ∧
        Moderator author ∧ labelFromReportCategory category = some label ∧ labels = [label.value])

/-- What a process knows about its message. -/
def Work.Known (calls : List Call) : Work → Prop
  | .idle => True
  | .reserving message content => Carries P decodeBody Topic message content
  | .scanning message content => Carries P decodeBody Topic message content
  | .marking message content => Carries P decodeBody Topic message content ∧ Told calls content.digest true
  | .purging message content => Carries P decodeBody Topic message content ∧ Told calls content.digest true
  | .reporting message => ∃ content, Carries P decodeBody Topic message content ∧
      Told calls content.digest true
  | .analyzing message content images => Carries P decodeBody Topic message content ∧
      Told calls content.digest false ∧ ∃ readBlob, images = fetchImages readBlob content.body
  | .storing message content response => Carries P decodeBody Topic message content ∧
      Told calls content.digest false ∧ Answered calls content.digest response
  | .failing message content => Carries P decodeBody Topic message content
  | .labelling message response => ∃ content, Carries P decodeBody Topic message content ∧
      Told calls content.digest false ∧ Answered calls content.digest response

/-- The message of an action is on the topic, and it knows who is a moderator. -/
def Action.Brings : Action → Prop
  | .begin _ message _ _ => Topic message
  | .moderatorReport message isModerator _ => Topic message ∧ (isModerator = some true →
      ∀ content, message.content P decodeBody = some content → Moderator content.authorIdentity)
  | .proceed _ _ => True
  | .stop _ => True

/-- What holds of the calls made so far, and of what every process is about to do. -/
structure Accounted (s : Screen) : Prop where
  consistent : Consistent s
  known (process : Nat) : (s.work process).Known P decodeBody Topic s.calls
  justified : ∀ call ∈ s.calls, Justified P decodeBody Topic Moderator s.calls call

end Calls

section Calls

variable {P decodeBody} {Topic : Message → Prop} {Moderator : String → Prop} {s : Screen}
  {calls calls' : List Call} {digest : ContentDigest} {response : Json}

/-! More calls justify no less. -/

theorem Answered.mono (h : Answered calls digest response) (hCalls : calls ⊆ calls') :
    Answered calls' digest response := by
  obtain ⟨content, images, azure, hMem, hDigest, hResponse⟩ := h
  exact ⟨content, images, azure, hCalls hMem, hDigest, hResponse⟩

theorem Found.mono {rule : LabelRule} (h : Found calls digest rule) (hCalls : calls ⊆ calls') :
    Found calls' digest rule := by
  obtain ⟨content, images, analyze, request, result, hMem, hFound⟩ := h
  exact ⟨content, images, analyze, request, result, hCalls hMem, hFound⟩

/-- What a call is for is not undone by later calls. -/
theorem Justified.mono {call : Call} (h : Justified P decodeBody Topic Moderator calls call)
    (hCalls : calls ⊆ calls') : Justified P decodeBody Topic Moderator calls' call := by
  cases call with
  | scan digest verdict => trivial
  | analysis content images azure => exact ⟨hCalls h.1, h.2⟩
  | purge blob =>
      obtain ⟨message, content, hCarries, hTold, hBlob⟩ := h
      exact ⟨message, content, hCarries, hCalls hTold, hBlob⟩
  | report target =>
      obtain ⟨message, content, hCarries, hTold, hKey⟩ := h
      exact ⟨message, content, hCarries, hCalls hTold, hKey⟩
  | label target labels =>
      obtain ⟨hSome, ⟨message, content, hCarries, hTold, hKey, hFound⟩ | hReported⟩ := h
      · refine ⟨hSome, .inl ⟨message, content, hCarries, hCalls hTold, hKey, ?_⟩⟩
        intro label hLabel
        obtain ⟨rule, hRule, hValue, hBand⟩ := hFound label hLabel
        exact ⟨rule, hRule, hValue, hBand.mono hCalls⟩
      · exact ⟨hSome, .inr hReported⟩

/-- What a process knows, it knows after the calls of the others as well. -/
theorem Work.Known.mono {work : Work} (h : work.Known P decodeBody Topic calls) (hCalls : calls ⊆ calls') :
    work.Known P decodeBody Topic calls' := by
  cases work with
  | idle => trivial
  | reserving message content => exact h
  | scanning message content => exact h
  | marking message content => exact ⟨h.1, hCalls h.2⟩
  | purging message content => exact ⟨h.1, hCalls h.2⟩
  | reporting message =>
      obtain ⟨content, hCarries, hTold⟩ := h
      exact ⟨content, hCarries, hCalls hTold⟩
  | analyzing message content images => exact ⟨h.1, hCalls h.2.1, h.2.2⟩
  | storing message content response => exact ⟨h.1, hCalls h.2.1, h.2.2.mono hCalls⟩
  | failing message content => exact h
  | labelling message response =>
      obtain ⟨content, hCarries, hTold, hAnswered⟩ := h
      exact ⟨content, hCarries, hCalls hTold, hAnswered.mono hCalls⟩

/-! What a response says was found. -/

/-- Every result of the requests is the answer to one of them. -/
theorem mapM_mem {analyze : ModerationRequest → Option Json} {asked : List ModerationRequest}
    {results : List Json} (h : asked.mapM analyze = some results) :
    ∀ result ∈ results, ∃ request ∈ asked, analyze request = some result := by
  induction asked generalizing results with
  | nil =>
      rw [List.mapM_nil] at h
      obtain rfl := Option.some.inj h
      exact fun _ hMem => absurd hMem List.not_mem_nil
  | cons request rest ih =>
      simp only [List.mapM_cons, Option.bind_eq_bind, Option.bind_eq_some_iff, Option.pure_def,
        Option.some.injEq] at h
      obtain ⟨first, hFirst, others, hOthers, rfl⟩ := h
      intro result hMem
      rcases List.mem_cons.mp hMem with rfl | hRest
      · exact ⟨request, List.mem_cons_self, hFirst⟩
      · obtain ⟨other, hOther, hAnalyze⟩ := ih hOthers result hRest
        exact ⟨other, List.mem_cons_of_mem _ hOther, hAnalyze⟩

theorem severityIn_null (category : String) : severityIn .null category = 0 := rfl

/-- A severity in the response is one that Azure has found. -/
theorem exists_request {azure : Option (ModerationRequest → Option Json)} {text : Option String}
    {images : List (Bytes × String)} {result : Json} (h : moderate azure text images = some response)
    (hResult : result ∈ analysisResults response) (hSeverity : ∃ category, severityIn result category ≠ 0) :
    ∃ analyze request, azure = some analyze ∧ request ∈ requests text images ∧
      analyze request = some result := by
  obtain ⟨category, hSeverity⟩ := hSeverity
  have hNull : result ≠ .null := by
    rintro rfl
    exact hSeverity (severityIn_null category)
  cases azure with
  | none =>
      obtain rfl := Option.some.inj h
      exact absurd (List.mem_singleton.mp hResult) hNull
  | some analyze =>
      simp only [moderate, Option.bind_eq_bind, Option.bind_eq_some_iff, Option.pure_def, Option.some.injEq] at h
      obtain ⟨imageResults, hImages, textResult, hText, rfl⟩ := h
      have hResults : analysisResults
          (.object [("text", textResult.getD .null), ("images", .array imageResults)]) =
          textResult.getD .null :: imageResults := by
        simp [analysisResults, Json.get, Json.asArray, List.lookup]
      rw [hResults] at hResult
      rcases List.mem_cons.mp hResult with hOfText | hOfImage
      · cases textResult with
        | none => exact absurd hOfText hNull
        | some found =>
            obtain rfl : result = found := hOfText
            unfold analyzeText at hText
            split at hText
            · rename_i request hRequest
              obtain ⟨answer, hAnswer, hSome⟩ := Option.map_eq_some_iff.mp hText
              obtain rfl := Option.some.inj hSome
              refine ⟨analyze, request, rfl, List.mem_append_right _ ?_, hAnswer⟩
              split at hRequest
              · rename_i hEmpty
                rw [if_pos hEmpty, hRequest]
                exact List.mem_cons_self
              · cases hRequest
            · cases hText
      · obtain ⟨request, hRequest, hAnalyze⟩ := mapM_mem hImages result hOfImage
        exact ⟨analyze, request, rfl, List.mem_append_left _ hRequest, hAnalyze⟩

/-- Each label of a response is for something that was found. -/
theorem Answered.found (h : Answered calls digest response) {label : String}
    (hLabel : label ∈ labelsFromAzure response) :
    ∃ rule ∈ labelRules, rule.label.value = label ∧ Found calls digest rule := by
  obtain ⟨content, images, azure, hMem, hDigest, hResponse⟩ := h
  obtain ⟨rule, hRule, hValue, ⟨result, hResult, hMin⟩, hMax⟩ := mem_labelsFromAzure.mp hLabel
  have hPositive := labelRules_positive rule hRule
  obtain ⟨analyze, request, rfl, hRequest, hAnalyze⟩ := exists_request hResponse hResult
    ⟨rule.category, by omega⟩
  exact ⟨rule, hRule, hValue, content, images, analyze, request, result, hMem, hDigest, hRequest,
    hAnalyze, hMin, hMax result hResult⟩

/-! What a row says was answered. -/

/-- A row marked as a match was written after a scan that matched, and a row with a response
after a scan that did not and an analysis that gave it. -/
theorem Screened.of_row {record : Record} {row : ProcessedContent} (h : Screened digest record)
    (hRow : row ∈ record.rows) :
    (row.isCsam = some true → record.scans = [some true]) ∧
      ∀ response, row.azureResponse = some response →
        record.scans = [some false] ∧ record.analyses = [some response] := by
  cases h with
  | new => cases hRow
  | reserved =>
      obtain rfl := List.mem_singleton.mp hRow
      exact ⟨nofun, nofun⟩
  | scanned _ =>
      obtain rfl := List.mem_singleton.mp hRow
      exact ⟨nofun, nofun⟩
  | analyzed _ =>
      obtain rfl := List.mem_singleton.mp hRow
      exact ⟨nofun, nofun⟩
  | csam =>
      rcases List.mem_pair.mp hRow with rfl | rfl
      · exact ⟨nofun, nofun⟩
      · exact ⟨fun _ => rfl, nofun⟩
  | stored response =>
      rcases List.mem_pair.mp hRow with rfl | rfl
      · exact ⟨nofun, nofun⟩
      · refine ⟨nofun, ?_⟩
        rintro other hOther
        obtain rfl := Option.some.inj hOther
        exact ⟨rfl, rfl⟩
  | failed =>
      rcases List.mem_pair.mp hRow with rfl | rfl
      · exact ⟨nofun, nofun⟩
      · exact ⟨nofun, nofun⟩

/-- A scan on record is among the calls. -/
theorem told_of_scans {verdict : Bool} (h : some verdict ∈ (s.record digest).scans) :
    Told s.calls digest verdict := by
  obtain ⟨call, hCall, hScanned⟩ := List.mem_filterMap.mp h
  cases call with
  | scan other answer =>
      simp only [Call.scanned, Option.ite_none_right_eq_some, Option.some.injEq] at hScanned
      obtain ⟨rfl, rfl⟩ := hScanned
      exact hCall
  | analysis _ _ _ => cases hScanned
  | purge _ => cases hScanned
  | report _ => cases hScanned
  | label _ _ => cases hScanned

/-- An analysis on record is among the calls. -/
theorem answered_of_analyses (h : some response ∈ (s.record digest).analyses) :
    Answered s.calls digest response := by
  obtain ⟨call, hCall, hAnalyzed⟩ := List.mem_filterMap.mp h
  cases call with
  | analysis content images azure =>
      simp only [Call.analyzed, Option.ite_none_right_eq_some, Option.some.injEq] at hAnalyzed
      obtain ⟨hDigest, hResponse⟩ := hAnalyzed
      exact ⟨content, images, azure, hCall, hDigest, hResponse⟩
  | scan _ _ => cases hAnalyzed
  | purge _ => cases hAnalyzed
  | report _ => cases hAnalyzed
  | label _ _ => cases hAnalyzed

/-- The replica may lag behind, but what it says was so. -/
theorem Consistent.of_replica (h : Consistent s) {replicated : Nat} {row : ProcessedContent}
    (hRow : getContent (s.writes.take replicated) digest = some row) :
    (row.isCsam = some true → Told s.calls digest true) ∧
      ∀ response, row.azureResponse = some response →
        Told s.calls digest false ∧ Answered s.calls digest response := by
  obtain ⟨hWritten, hDigest⟩ := List.mem_filter.mp (List.mem_of_getLast? hRow)
  have hVersion : row ∈ (s.record digest).rows :=
    List.mem_filter.mpr ⟨List.mem_of_mem_take hWritten, hDigest⟩
  obtain ⟨hCsam, hStored⟩ := (h.screened digest).of_row hVersion
  refine ⟨?_, ?_⟩
  · intro hIs
    apply told_of_scans
    rw [hCsam hIs]
    exact List.mem_cons_self
  · intro response hResponse
    obtain ⟨hScans, hAnalyses⟩ := hStored response hResponse
    refine ⟨told_of_scans ?_, answered_of_analyses ?_⟩
    · rw [hScans]
      exact List.mem_cons_self
    · rw [hAnalyses]
      exact List.mem_cons_self

/-! One step. -/

/-- A process makes calls that are justified and turns to what it knows. -/
theorem Accounted.turn (h : Accounted P decodeBody Topic Moderator s) {s' : Screen} {process : Nat}
    {work : Work} (hConsistent : Consistent s') (hWork : s'.work = Function.update s.work process work)
    (hCalls : s'.calls = s.calls ++ calls)
    (hJustified : ∀ call ∈ calls, Justified P decodeBody Topic Moderator s'.calls call)
    (hKnown : work.Known P decodeBody Topic s'.calls) : Accounted P decodeBody Topic Moderator s' := by
  have hGrows : s.calls ⊆ s'.calls := hCalls ▸ List.subset_append_left _ _
  constructor
  case consistent => exact hConsistent
  case known =>
    intro other
    rw [hWork]
    rcases eq_or_ne other process with rfl | hNe
    · rw [Function.update_self]
      exact hKnown
    · rw [Function.update_of_ne hNe]
      exact (h.known other).mono hGrows
  case justified =>
    intro call hMem
    rw [hCalls] at hMem
    rcases List.mem_append.mp hMem with hOld | hNew
    · exact (h.justified call hOld).mono hGrows
    · exact hJustified call hNew

/-- A process makes no call. -/
theorem Accounted.silent (h : Accounted P decodeBody Topic Moderator s) {s' : Screen} {process : Nat}
    {work : Work} (hConsistent : Consistent s') (hWork : s'.work = Function.update s.work process work)
    (hCalls : s'.calls = s.calls ++ []) (hKnown : work.Known P decodeBody Topic s.calls) :
    Accounted P decodeBody Topic Moderator s' := by
  apply h.turn hConsistent hWork hCalls (fun _ hMem => absurd hMem List.not_mem_nil)
  rw [hCalls, List.append_nil]
  exact hKnown

/-- What a process does next is what it knows to be justified. Each case goes on to the work
that its own call, if any, has made known. -/
theorem Accounted.proceed (h : Accounted P decodeBody Topic Moderator s) (process : Nat) (answer : Answer) :
    Accounted P decodeBody Topic Moderator (s.proceed process answer) := by
  have hConsistent := h.consistent.changes (h.consistent.proceed_changes process answer)
  have hKnown := h.known process
  unfold Screen.proceed at hConsistent ⊢
  cases hWork : s.work process with
  | idle => exact h
  | reserving message content =>
      simp only [hWork] at hConsistent hKnown ⊢
      split at hConsistent
      · exact h.silent hConsistent rfl rfl trivial
      · exact h.silent hConsistent rfl rfl hKnown
  | scanning message content =>
      simp only [hWork] at hConsistent hKnown ⊢
      have hScan : ∀ {digest verdict calls}, ∀ call ∈ [Call.scan digest verdict],
          Justified P decodeBody Topic Moderator calls call := by
        intro digest verdict calls call hMem
        rw [List.mem_singleton.mp hMem]
        trivial
      split at hConsistent
      · rename_i hVerdict
        refine h.turn hConsistent rfl rfl hScan ⟨hKnown, ?_⟩
        rw [hVerdict]
        exact List.mem_append_right _ List.mem_cons_self
      · rename_i hVerdict
        refine h.turn hConsistent rfl rfl hScan ⟨hKnown, ?_, answer.readBlob, rfl⟩
        rw [hVerdict]
        exact List.mem_append_right _ List.mem_cons_self
      · exact h.turn hConsistent rfl rfl hScan trivial
  | marking message content =>
      simp only [hWork] at hConsistent hKnown ⊢
      split at hConsistent
      · exact h.silent hConsistent rfl rfl trivial
      · exact h.silent hConsistent rfl rfl hKnown
  | purging message content =>
      simp only [hWork] at hConsistent hKnown ⊢
      have hGrows : Told (s.calls ++ (imageBlobs content.body).map fun blob => .purge blob.1)
          content.digest true := List.mem_append_left _ hKnown.2
      apply h.turn hConsistent rfl rfl
      · intro call hMem
        obtain ⟨blob, hBlob, rfl⟩ := List.mem_map.mp hMem
        exact ⟨message, content, hKnown.1, hGrows, List.mem_map_of_mem hBlob⟩
      · split
        · exact ⟨content, hKnown.1, hGrows⟩
        · trivial
  | reporting message =>
      simp only [hWork] at hConsistent hKnown ⊢
      obtain ⟨content, hCarries, hTold⟩ := hKnown
      split at hConsistent
      · rename_i target hKey _
        refine h.turn hConsistent rfl rfl ?_ trivial
        intro call hMem
        rw [List.mem_singleton.mp hMem]
        exact ⟨message, content, hCarries, List.mem_append_left _ hTold, hKey⟩
      · exact h.silent hConsistent rfl rfl trivial
  | analyzing message content images =>
      simp only [hWork] at hConsistent hKnown ⊢
      obtain ⟨hCarries, hTold, hImages⟩ := hKnown
      have hAnalysis : ∀ call ∈ [Call.analysis content images answer.azure],
          Justified P decodeBody Topic Moderator (s.calls ++ [.analysis content images answer.azure]) call := by
        intro call hMem
        rw [List.mem_singleton.mp hMem]
        obtain ⟨readBlob, hImages⟩ := hImages
        exact ⟨List.mem_append_left _ hTold, message, readBlob, hCarries, hImages⟩
      split at hConsistent
      · rename_i response hResponse
        refine h.turn hConsistent rfl rfl hAnalysis ⟨hCarries, List.mem_append_left _ hTold, ?_⟩
        exact ⟨content, images, answer.azure, List.mem_append_right _ List.mem_cons_self, rfl, hResponse⟩
      · exact h.turn hConsistent rfl rfl hAnalysis hCarries
  | storing message content response =>
      simp only [hWork] at hConsistent hKnown ⊢
      split at hConsistent
      · exact h.silent hConsistent rfl rfl trivial
      · exact h.silent hConsistent rfl rfl ⟨content, hKnown⟩
  | failing message content =>
      simp only [hWork] at hConsistent hKnown ⊢
      split at hConsistent
      · exact h.silent hConsistent rfl rfl trivial
      · exact h.silent hConsistent rfl rfl trivial
  | labelling message response =>
      simp only [hWork] at hConsistent hKnown ⊢
      obtain ⟨content, hCarries, hTold, hAnswered⟩ := hKnown
      split at hConsistent
      · rename_i target hKey _
        by_cases hEmpty : (labelsFromAzure response).isEmpty = true
        · rw [if_pos hEmpty] at hConsistent ⊢
          exact h.silent hConsistent rfl rfl trivial
        · rw [if_neg hEmpty] at hConsistent ⊢
          refine h.turn hConsistent rfl rfl ?_ trivial
          intro call hMem
          rw [List.mem_singleton.mp hMem]
          have hGrows := List.subset_append_left s.calls [.label target (labelsFromAzure response)]
          refine ⟨fun hNone => hEmpty (hNone ▸ rfl), .inl ⟨message, content, hCarries, hGrows hTold, hKey, ?_⟩⟩
          intro label hLabel
          exact (hAnswered.mono hGrows).found hLabel
      · exact h.silent hConsistent rfl rfl trivial

/-- A process that begins with a row, also one of a replica, begins with what was answered. -/
theorem Accounted.begin (h : Accounted P decodeBody Topic Moderator s) (process : Nat) {message : Message}
    (replicated : Nat) (works : Bool) (hTopic : Topic message) :
    Accounted P decodeBody Topic Moderator (s.begin P decodeBody process message replicated works) := by
  have hTurn : ∀ {work : Work}, work.expects = none → Consistent (s.turn process work []) :=
    fun hExpects => h.consistent.changes (.silent s process hExpects)
  unfold Screen.begin
  split
  · exact h
  · rename_i content hContent
    split
    · split
      · exact h.silent (hTurn rfl) rfl rfl ⟨hTopic, hContent⟩
      · rename_i row hRow
        obtain ⟨hCsam, hStored⟩ := h.consistent.of_replica hRow
        split
        · rename_i response hResponse
          exact h.silent (hTurn rfl) rfl rfl
            ⟨content, ⟨hTopic, hContent⟩, hStored response hResponse⟩
        · split
          · rename_i hIs
            exact h.silent (hTurn rfl) rfl rfl ⟨⟨hTopic, hContent⟩, hCsam hIs⟩
          · exact h.silent (hTurn rfl) rfl rfl trivial
    · exact h

/-- The label of a moderator's report is for the report. -/
theorem Accounted.moderatorReport (h : Accounted P decodeBody Topic Moderator s) {message : Message}
    {isModerator contentExists : Option Bool} (hTopic : Topic message)
    (hModerator : isModerator = some true → ∀ content, message.content P decodeBody = some content →
      Moderator content.authorIdentity) :
    Accounted P decodeBody Topic Moderator
      (s.moderatorReport P decodeBody message isModerator contentExists) := by
  unfold Screen.moderatorReport
  split
  · rename_i eventKey category hBody
    split
    · rename_i label target hLabel
      obtain ⟨content, hContent, hReport⟩ := Option.map_eq_some_iff.mp hBody
      obtain ⟨author, digest, body⟩ := content
      obtain rfl : body = .report (some target) category := hReport
      have hGrows := List.subset_append_left s.calls [.label target [label.value]]
      refine ⟨h.consistent.changes (label_changes s target [label.value]), ?_, ?_⟩
      · exact fun process => (h.known process).mono hGrows
      · intro call hMem
        rcases List.mem_append.mp hMem with hOld | hNew
        · exact (h.justified call hOld).mono hGrows
        · rw [List.mem_singleton.mp hNew]
          exact ⟨List.cons_ne_nil _ _, .inr ⟨message, author, digest, category, label, ⟨hTopic, hContent⟩,
            hModerator rfl _ hContent, hLabel, rfl⟩⟩
    · exact h
  · exact h

/-- Every action keeps the account, as long as its message is on the topic. -/
theorem Accounted.step (h : Accounted P decodeBody Topic Moderator s) {action : Action}
    (hBrings : action.Brings P decodeBody Topic Moderator) :
    Accounted P decodeBody Topic Moderator (s.step P decodeBody action) := by
  cases action with
  | begin process message replicated works => exact h.begin process replicated works hBrings
  | moderatorReport message isModerator contentExists => exact h.moderatorReport hBrings.1 hBrings.2
  | proceed process answer => exact h.proceed process answer
  | stop process =>
      exact h.silent (h.consistent.changes (.silent s process rfl)) rfl rfl trivial

end Calls

end Polycentric.Moderation

namespace Polycentric.Moderation

open Runs TableInstance

end Polycentric.Moderation
