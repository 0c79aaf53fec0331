import Polycentric.Common.Identity
import Polycentric.Library.Runs
import Polycentric.Moderation.Labels

/-! The screening of contents by the moderation service: `process` of `main.rs`, with the
table `processed_content` of `repository.rs`. Several processes work on the messages of one
topic. A content is reserved before it is looked at, a process may stop or fail between any
two calls, and rows are looked up in a replica that may lag behind. -/
namespace Polycentric.Moderation

open Proto Runs

structure Link where
  title : String
  description : String
  url : String
  deriving DecidableEq, Repr

/-- `Content.content_body`, as far as it is screened. -/
inductive Body where
  | post (text : String) (images : List ImageSet) (links : List Link)
  | profileUpdate (update : ProfileUpdate)
  | report (eventKey : Option EventKey) (category : Int32)
  | other
  deriving DecidableEq, Repr

/-- The content carried by an `EventBundle`, keyed by its content digest. -/
structure BundleContent where
  authorIdentity : String
  digest : ContentDigest
  body : Body
  deriving DecidableEq, Repr

/-- A message of the topic, as far as its key and its payload decode. -/
structure Message where
  key : Option EventKey
  bundle : Option EventBundle
  deriving DecidableEq, Repr

variable (P : Primitives) (decodeBody : Bytes → Option Body)

def contentFromBundle (bundle : EventBundle) : Option BundleContent := do
  let serialized ← bundle.serializedContent
  let signed ← bundle.signedEvent
  let event ← (P.decodeEvent signed.eventBytes).toOption
  let digest ← event.contentDigest
  let key ← event.key
  let body ← decodeBody serialized.contentBytes
  return ⟨key.identity, digest, body⟩

def Message.content (message : Message) : Option BundleContent :=
  message.bundle.bind (contentFromBundle P decodeBody)

/-- User-supplied text carried by the content, if any. -/
def contentText : Body → Option String
  | .post text _ links =>
      let parts := (text :: links.flatMap fun link => [link.title, link.description, link.url]).filter (· ≠ "")
      some ("\n".intercalate parts)
  | .profileUpdate update =>
      let parts := update.name.toList ++ update.description.toList ++ update.aliasName.toList
      if parts.isEmpty then none else some ("\n".intercalate parts)
  | _ => none

def imageSets : Body → List ImageSet
  | .post _ images _ => images
  | .profileUpdate update => update.avatar.toList ++ update.banner.toList
  | _ => []

/-- Digest and claimed MIME type of one variant per distinct image in the content. -/
def imageBlobs (body : Body) : List (ContentDigest × String) :=
  ((imageSets body).filterMap fun set => set.images.head?).filterMap fun image => do
    let blob ← image.blob
    let digest ← blob.digest
    return (digest, blob.mimeType)

/-- Whether the content can be fed to automated content scoring. -/
def hasScorableMedia (body : Body) : Bool := (contentText body).isSome || !(imageBlobs body).isEmpty

/-- The bytes of every image referenced by the content, without those that fail to fetch. -/
def fetchImages (readBlob : ContentDigest → Option Bytes) (body : Body) : List (Bytes × String) :=
  (imageBlobs body).filterMap fun (digest, mime) => (readBlob digest).map fun bytes => (bytes, mime)

/-- Which analysis bucket to submit. -/
inductive ModerationRequest where
  | text (text : String)
  | image (image : Bytes)
  | imageWithText (image : Bytes) (text : String)
  deriving DecidableEq, Repr

/-- White space of Unicode. -/
def isWhiteSpace (c : Char) : Bool :=
  (9 ≤ c.toNat && c.toNat ≤ 13) || (0x2000 ≤ c.toNat && c.toNat ≤ 0x200a) ||
    [0x20, 0x85, 0xa0, 0x1680, 0x2028, 0x2029, 0x202f, 0x205f, 0x3000].contains c.toNat

/-- Pick the appropriate bucket from whatever modalities are present. -/
def ModerationRequest.fromParts (text : Option String) (image : Option Bytes) : Option ModerationRequest :=
  match text.filter fun text => !text.toList.all isWhiteSpace, image.filter fun image => !image.isEmpty with
  | some text, some image => some (.imageWithText image text)
  | none, some image => some (.image image)
  | some text, none => some (.text text)
  | none, none => none

/-- An Azure-shaped response carrying no findings. -/
def noFindings : Json := .object [("text", .null), ("images", .array [])]

/-- The text on its own, if there are no images. -/
def analyzeText (analyze : ModerationRequest → Option Json) (text : Option String)
    (images : List (Bytes × String)) : Option (Option Json) :=
  match if images.isEmpty then ModerationRequest.fromParts text none else none with
  | some request => (analyze request).map some
  | none => some none

/-- Run the content through Azure, each image with the text, or the text on its own. It is
`none` if a request fails. -/
def moderate (azure : Option (ModerationRequest → Option Json)) (text : Option String)
    (images : List (Bytes × String)) : Option Json :=
  match azure with
  | none => some noFindings
  | some analyze => do
      let imageResults ← (images.filterMap fun image => ModerationRequest.fromParts text (some image.1)).mapM analyze
      let textResult ← analyzeText analyze text images
      return .object [("text", textResult.getD .null), ("images", .array imageResults)]

/-- Run every image through PhotoDNA, up to the first match. It is `none` if a call fails. -/
def photodnaFilter (photodna : Option (Bytes → Option String → Option Bool)) :
    List (Bytes × String) → Option Bool
  | [] => some false
  | (image, mime) :: rest =>
      match photodna with
      | none => some false
      | some isMatch =>
          match isMatch image (if mime = "" then none else some mime) with
          | some true => some true
          | some false => photodnaFilter photodna rest
          | none => none

/-! ### `processed_content` -/

inductive Status where
  | pending
  | success
  | failed
  deriving DecidableEq, Repr

/-- A row, keyed by its digest. -/
structure ProcessedContent where
  digest : ContentDigest
  status : Status
  isCsam : Option Bool
  azureResponse : Option Json

/-- The versions of a row among all that were written. -/
def versions (writes : List ProcessedContent) (digest : ContentDigest) : List ProcessedContent :=
  writes.filter fun row => row.digest = digest

/-- The row of a digest: its last version. -/
def getContent (writes : List ProcessedContent) (digest : ContentDigest) : Option ProcessedContent :=
  (versions writes digest).getLast?

/-- Insert a new row in the `PENDING` state, before processing begins. -/
def createPending (writes : List ProcessedContent) (digest : ContentDigest) :
    Option (List ProcessedContent) :=
  if (getContent writes digest).isSome then none
  else some (writes ++ [⟨digest, .pending, none, none⟩])

def updateRow (writes : List ProcessedContent) (digest : ContentDigest)
    (change : ProcessedContent → ProcessedContent) : Option (List ProcessedContent) :=
  (getContent writes digest).map fun row => writes ++ [change row]

def storeAzureResult (writes : List ProcessedContent) (digest : ContentDigest) (response : Json) :
    Option (List ProcessedContent) :=
  updateRow writes digest fun row =>
    { row with status := .success, isCsam := some false, azureResponse := some response }

def markCsam (writes : List ProcessedContent) (digest : ContentDigest) : Option (List ProcessedContent) :=
  updateRow writes digest fun row => { row with status := .success, isCsam := some true }

def markFailed (writes : List ProcessedContent) (digest : ContentDigest) : Option (List ProcessedContent) :=
  updateRow writes digest fun row => { row with status := .failed }

/-! ### Processes -/

/-- What a process does next with its message. -/
inductive Work where
  | idle
  | reserving (message : Message) (content : BundleContent)
  | scanning (message : Message) (content : BundleContent)
  | marking (message : Message) (content : BundleContent)
  | purging (message : Message) (content : BundleContent)
  | reporting (message : Message)
  | analyzing (message : Message) (content : BundleContent) (images : List (Bytes × String))
  | storing (message : Message) (content : BundleContent) (response : Json)
  | failing (message : Message) (content : BundleContent)
  | labelling (message : Message) (response : Json)

/-- What a process asks of the others, with the answer. A scan is one pass of the filter of
PhotoDNA over the images of a content, and an analysis one run of `moderate`: without
PhotoDNA or without images, and without Azure, nothing is asked, and the answer is a scan
without a match and a response without findings. -/
inductive Call where
  | scan (digest : ContentDigest) (verdict : Option Bool)
  | analysis (content : BundleContent) (images : List (Bytes × String))
      (azure : Option (ModerationRequest → Option Json))
  | purge (blob : ContentDigest)
  | report (target : EventKey)
  | label (target : EventKey) (labels : List String)

/-- Every version of every row, what each process is at, and the calls so far. -/
structure Screen where
  writes : List ProcessedContent
  work : Nat → Work
  calls : List Call

def Screen.new : Screen := ⟨[], fun _ => .idle, []⟩

/-- What the database, the object store and the other services answer. -/
structure Answer where
  works : Bool
  readBlob : ContentDigest → Option Bytes
  photodna : Option (Bytes → Option String → Option Bool)
  azure : Option (ModerationRequest → Option Json)
  contentExists : Option Bool

inductive Action where
  | begin (process : Nat) (message : Message) (replicated : Nat) (works : Bool)
  | moderatorReport (message : Message) (isModerator contentExists : Option Bool)
  | proceed (process : Nat) (answer : Answer)
  | stop (process : Nat)

def Screen.turn (s : Screen) (process : Nat) (work : Work) (calls : List Call) : Screen :=
  { s with work := Function.update s.work process work, calls := s.calls ++ calls }

/-- The row is looked up in a replica. -/
def Screen.begin (s : Screen) (process : Nat) (message : Message) (replicated : Nat) (works : Bool) : Screen :=
  match message.content P decodeBody with
  | none => s
  | some content =>
      if hasScorableMedia content.body && works then
        match getContent (s.writes.take replicated) content.digest with
        | none => s.turn process (.reserving message content) []
        | some row =>
            match row.azureResponse with
            | some response => s.turn process (.labelling message response) []
            | none =>
                if row.isCsam = some true then s.turn process (.purging message content) []
                else s.turn process .idle []
      else s

/-- `process_moderator_report`, with the call of `publish_labels`. -/
def Screen.moderatorReport (s : Screen) (message : Message) (isModerator contentExists : Option Bool) :
    Screen :=
  match (message.content P decodeBody).map BundleContent.body with
  | some (.report eventKey category) =>
      match isModerator, labelFromReportCategory category, eventKey, contentExists with
      | some true, some label, some target, some false =>
          { s with calls := s.calls ++ [.label target [label.value]] }
      | _, _, _, _ => s
  | _ => s

/-- One step of `process` after the lookup. A process that is done with its message, or is
to try it again, is idle. -/
def Screen.proceed (s : Screen) (process : Nat) (answer : Answer) : Screen :=
  match s.work process with
  | .idle => s
  | .reserving message content =>
      match if answer.works then createPending s.writes content.digest else none with
      | none => s.turn process .idle []
      | some writes => { s with writes := writes }.turn process (.scanning message content) []
  | .scanning message content =>
      let images := fetchImages answer.readBlob content.body
      let verdict := photodnaFilter answer.photodna images
      match verdict with
      | some true => s.turn process (.marking message content) [.scan content.digest verdict]
      | some false => s.turn process (.analyzing message content images) [.scan content.digest verdict]
      | none => s.turn process .idle [.scan content.digest verdict]
  | .marking message content =>
      match if answer.works then markCsam s.writes content.digest else none with
      | none => s.turn process .idle []
      | some writes => { s with writes := writes }.turn process (.purging message content) []
  | .purging message content =>
      s.turn process (if answer.works then .reporting message else .idle)
        ((imageBlobs content.body).map fun blob => .purge blob.1)
  | .reporting message =>
      match message.key, answer.contentExists with
      | some target, some false => s.turn process .idle [.report target]
      | _, _ => s.turn process .idle []
  | .analyzing message content images =>
      match moderate answer.azure (contentText content.body) images with
      | some response => s.turn process (.storing message content response) [.analysis content images answer.azure]
      | none => s.turn process (.failing message content) [.analysis content images answer.azure]
  | .storing message content response =>
      match if answer.works then storeAzureResult s.writes content.digest response else none with
      | none => s.turn process .idle []
      | some writes => { s with writes := writes }.turn process (.labelling message response) []
  | .failing _ content =>
      match if answer.works then markFailed s.writes content.digest else none with
      | none => s.turn process .idle []
      | some writes => { s with writes := writes }.turn process .idle []
  | .labelling message response =>
      let labels := labelsFromAzure response
      match message.key, answer.contentExists with
      | some target, some false =>
          if labels.isEmpty then s.turn process .idle [] else s.turn process .idle [.label target labels]
      | _, _ => s.turn process .idle []

def Screen.step (s : Screen) : Action → Screen
  | .begin process message replicated works => s.begin P decodeBody process message replicated works
  | .moderatorReport message isModerator contentExists =>
      s.moderatorReport P decodeBody message isModerator contentExists
  | .proceed process answer => s.proceed process answer
  | .stop process => s.turn process .idle []

/-! ### What is on record of a content -/

/-- The versions of its row, and the answers of its scans and its analyses. -/
structure Record where
  rows : List ProcessedContent
  scans : List (Option Bool)
  analyses : List (Option Json)

def Call.scanned (digest : ContentDigest) : Call → Option (Option Bool)
  | .scan other verdict => if other = digest then some verdict else none
  | _ => none

def Call.analyzed (digest : ContentDigest) : Call → Option (Option Json)
  | .analysis content images azure =>
      if content.digest = digest then some (moderate azure (contentText content.body) images) else none
  | _ => none

def Screen.record (s : Screen) (digest : ContentDigest) : Record where
  rows := versions s.writes digest
  scans := s.calls.filterMap (Call.scanned digest)
  analyses := s.calls.filterMap (Call.analyzed digest)

/-- A content is scanned once and then analyzed once, and its row is what they answered. -/
inductive Screened (digest : ContentDigest) : Record → Prop where
  | new : Screened digest ⟨[], [], []⟩
  | reserved : Screened digest ⟨[⟨digest, .pending, none, none⟩], [], []⟩
  | scanned (verdict : Option Bool) : Screened digest ⟨[⟨digest, .pending, none, none⟩], [verdict], []⟩
  | analyzed (response : Option Json) :
      Screened digest ⟨[⟨digest, .pending, none, none⟩], [some false], [response]⟩
  | csam : Screened digest
      ⟨[⟨digest, .pending, none, none⟩, ⟨digest, .success, some true, none⟩], [some true], []⟩
  | stored (response : Json) : Screened digest
      ⟨[⟨digest, .pending, none, none⟩, ⟨digest, .success, some false, some response⟩], [some false], [some response]⟩
  | failed : Screened digest
      ⟨[⟨digest, .pending, none, none⟩, ⟨digest, .failed, none, none⟩], [some false], [none]⟩

/-- The content that a process has reserved, and what is on record of it at this point. -/
def Work.expects : Work → Option (ContentDigest × Record)
  | .scanning _ content => some (content.digest, ⟨[⟨content.digest, .pending, none, none⟩], [], []⟩)
  | .marking _ content => some (content.digest, ⟨[⟨content.digest, .pending, none, none⟩], [some true], []⟩)
  | .analyzing _ content _ =>
      some (content.digest, ⟨[⟨content.digest, .pending, none, none⟩], [some false], []⟩)
  | .storing _ content response =>
      some (content.digest, ⟨[⟨content.digest, .pending, none, none⟩], [some false], [some response]⟩)
  | .failing _ content =>
      some (content.digest, ⟨[⟨content.digest, .pending, none, none⟩], [some false], [none]⟩)
  | _ => none

/-- No process is at work on the content. -/
def Screen.Left (s : Screen) (digest : ContentDigest) : Prop :=
  ∀ process record, (s.work process).expects ≠ some (digest, record)

section Records

variable {P decodeBody} {s : Screen} {digest : ContentDigest} {process : Nat} {work : Work}
  {calls : List Call} {writes : List ProcessedContent} {row : ProcessedContent} {record : Record}

/-- What is on record of each content, and of no content by two processes. -/
structure Consistent (s : Screen) : Prop where
  screened (digest : ContentDigest) : Screened digest (s.record digest)
  expected {process : Nat} {digest : ContentDigest} {record : Record} :
    (s.work process).expects = some (digest, record) → s.record digest = record
  apart {process other : Nat} {digest : ContentDigest} {record record' : Record} :
    (s.work process).expects = some (digest, record) →
    (s.work other).expects = some (digest, record') → process = other

theorem consistent_new : Consistent Screen.new where
  screened _ := .new
  expected h := nomatch h
  apart h := nomatch h

/-- What a step may change: nothing on record, the record of a content that nobody has
reserved yet, or the record of one that the process itself has reserved. -/
inductive Changes (s s' : Screen) : Prop where
  | quiet (hSame : ∀ digest, s'.record digest = s.record digest)
      (hWork : ∀ process held, (s'.work process).expects = some held → (s.work process).expects = some held)
  | reserves {process : Nat} {work : Work} (digest : ContentDigest)
      (hFree : (s.record digest).rows = [])
      (hOther : ∀ other, other ≠ digest → s'.record other = s.record other)
      (hRecord : s'.record digest = ⟨[⟨digest, .pending, none, none⟩], [], []⟩)
      (hWork : s'.work = Function.update s.work process work)
      (hExpects : work.expects = some (digest, s'.record digest))
  | proceeds {process : Nat} {work : Work} {record : Record} (digest : ContentDigest)
      (hHeld : (s.work process).expects = some (digest, record))
      (hOther : ∀ other, other ≠ digest → s'.record other = s.record other)
      (hScreened : Screened digest (s'.record digest))
      (hWork : s'.work = Function.update s.work process work)
      (hExpects : work.expects = none ∨ work.expects = some (digest, s'.record digest))

/-! What the steps put on record. -/

/-- A process at work on a content has written one version of its row, the pending one. -/
theorem Work.expects_rows {held : ContentDigest × Record} (h : work.expects = some held) :
    held.2.rows = [⟨held.1, .pending, none, none⟩] := by
  cases work with
  | scanning _ _ => exact Option.some.inj h ▸ rfl
  | marking _ _ => exact Option.some.inj h ▸ rfl
  | analyzing _ _ _ => exact Option.some.inj h ▸ rfl
  | storing _ _ _ => exact Option.some.inj h ▸ rfl
  | failing _ _ => exact Option.some.inj h ▸ rfl
  | idle => cases h
  | reserving _ _ => cases h
  | purging _ _ => cases h
  | reporting _ => cases h
  | labelling _ _ => cases h

/-- A process that neither scans nor analyzes a content puts nothing on its record. -/
theorem record_quiet (s : Screen) (process : Nat) (work : Work)
    (h : ∀ call ∈ calls, call.scanned digest = none ∧ call.analyzed digest = none) :
    (s.turn process work calls).record digest = s.record digest := by
  have hScans : calls.filterMap (Call.scanned digest) = [] :=
    List.filterMap_eq_nil_iff.mpr fun call hCall => (h call hCall).1
  have hAnalyses : calls.filterMap (Call.analyzed digest) = [] :=
    List.filterMap_eq_nil_iff.mpr fun call hCall => (h call hCall).2
  simp only [Screen.record, Screen.turn, List.filterMap_append, hScans, hAnalyses, List.append_nil]

theorem record_nothing (s : Screen) (process : Nat) (work : Work) :
    (s.turn process work []).record digest = s.record digest :=
  record_quiet s process work fun _ hMem => absurd hMem List.not_mem_nil

theorem record_scan (s : Screen) (process : Nat) (work : Work) (verdict : Option Bool) :
    (s.turn process work [.scan digest verdict]).record digest =
      { s.record digest with scans := (s.record digest).scans ++ [verdict] } := by
  simp [Screen.record, Screen.turn, Call.scanned, Call.analyzed]

theorem record_scan_other (s : Screen) (process : Nat) (work : Work) (verdict : Option Bool)
    {other : ContentDigest} (h : other ≠ digest) :
    (s.turn process work [.scan digest verdict]).record other = s.record other := by
  apply record_quiet
  intro call hCall
  rw [List.mem_singleton.mp hCall]
  exact ⟨if_neg (Ne.symm h), rfl⟩

theorem record_analysis (s : Screen) (process : Nat) (work : Work) (content : BundleContent)
    (images : List (Bytes × String)) (azure : Option (ModerationRequest → Option Json)) :
    (s.turn process work [.analysis content images azure]).record content.digest =
      { s.record content.digest with
        analyses := (s.record content.digest).analyses ++ [moderate azure (contentText content.body) images] } := by
  simp [Screen.record, Screen.turn, Call.scanned, Call.analyzed]

theorem record_analysis_other (s : Screen) (process : Nat) (work : Work) (content : BundleContent)
    (images : List (Bytes × String)) (azure : Option (ModerationRequest → Option Json))
    {other : ContentDigest} (h : other ≠ content.digest) :
    (s.turn process work [.analysis content images azure]).record other = s.record other := by
  apply record_quiet
  intro call hCall
  rw [List.mem_singleton.mp hCall]
  exact ⟨rfl, if_neg (Ne.symm h)⟩

theorem record_write (s : Screen) (process : Nat) (work : Work) (row : ProcessedContent) :
    ({ s with writes := s.writes ++ [row] }.turn process work []).record row.digest =
      { s.record row.digest with rows := (s.record row.digest).rows ++ [row] } := by
  rw [record_nothing]
  simp [Screen.record, versions]

theorem record_write_other (s : Screen) (process : Nat) (work : Work) {other : ContentDigest}
    (h : other ≠ row.digest) :
    ({ s with writes := s.writes ++ [row] }.turn process work []).record other = s.record other := by
  rw [record_nothing]
  simp [Screen.record, versions, Ne.symm h]

/-- A content is reserved only if it has no row yet. -/
theorem createPending_eq_some {writes' : List ProcessedContent}
    (h : createPending writes digest = some writes') :
    versions writes digest = [] ∧ writes' = writes ++ [⟨digest, .pending, none, none⟩] := by
  unfold createPending at h
  split at h
  · cases h
  · rename_i hNone
    have hEmpty : (versions writes digest).getLast? = none := by simpa [getContent] using hNone
    exact ⟨List.getLast?_eq_none_iff.mp hEmpty, (Option.some.inj h).symm⟩

/-- A row is changed by a further version of it. -/
theorem updateRow_eq_some {writes' : List ProcessedContent} {change : ProcessedContent → ProcessedContent}
    (hRows : versions writes digest = [row]) (h : updateRow writes digest change = some writes') :
    writes' = writes ++ [change row] := by
  simp only [updateRow, getContent, hRows, List.getLast?_singleton, Option.map_some,
    Option.some.injEq] at h
  exact h.symm

/-! One step of one process. -/

/-- Who is at work on a content after a process has turned to something else. -/
theorem expects_update {s' : Screen} (hWork : s'.work = Function.update s.work process work)
    {other : Nat} {held : ContentDigest × Record} (hHeld : (s'.work other).expects = some held) :
    (other = process ∧ work.expects = some held) ∨
      (other ≠ process ∧ (s.work other).expects = some held) := by
  rw [hWork] at hHeld
  rcases eq_or_ne other process with rfl | hNe
  · rw [Function.update_self] at hHeld
    exact .inl ⟨rfl, hHeld⟩
  · rw [Function.update_of_ne hNe] at hHeld
    exact .inr ⟨hNe, hHeld⟩

/-- Calls that are no scan and no analysis leave every record as it is. -/
theorem Changes.turn (s : Screen) (process : Nat) {work : Work}
    (hCalls : ∀ call ∈ calls, ∀ digest, call.scanned digest = none ∧ call.analyzed digest = none)
    (hExpects : work.expects = none) : Changes s (s.turn process work calls) := by
  refine .quiet (fun _ => record_quiet s process work fun call hCall => hCalls call hCall _) ?_
  intro other held hHeld
  rcases expects_update rfl hHeld with ⟨-, hNew⟩ | ⟨-, hOld⟩
  · exact absurd (hExpects.symm.trans hNew) nofun
  · exact hOld

theorem Changes.silent (s : Screen) (process : Nat) {work : Work} (hExpects : work.expects = none) :
    Changes s (s.turn process work []) :=
  .turn s process (fun _ hMem => absurd hMem List.not_mem_nil) hExpects

theorem Changes.refl (s : Screen) : Changes s s := .quiet (fun _ => rfl) fun _ _ => id

/-- A content that `create_pending` accepts is on no record yet. -/
theorem Consistent.reserved (h : Consistent s) (process : Nat) (message : Message) (content : BundleContent)
    (hNew : createPending s.writes content.digest = some writes) :
    Changes s ({ s with writes := writes }.turn process (.scanning message content) []) := by
  obtain ⟨hRows, rfl⟩ := createPending_eq_some hNew
  have hScreened := h.screened content.digest
  have hRecord : s.record content.digest = ⟨[], [], []⟩ := by
    generalize hSame : s.record content.digest = record at hScreened
    have hEmpty : record.rows = [] := hSame ▸ hRows
    cases hScreened with
    | new => rfl
    | reserved => cases hEmpty
    | scanned _ => cases hEmpty
    | analyzed _ => cases hEmpty
    | csam => cases hEmpty
    | stored _ => cases hEmpty
    | failed => cases hEmpty
  have hAfter := record_write s process (.scanning message content) ⟨content.digest, .pending, none, none⟩
  rw [hRecord] at hAfter
  refine .reserves content.digest hRows ?_ hAfter rfl ?_
  · intro other hOther
    exact record_write_other s process _ hOther
  · rw [hAfter]
    rfl

/-- The verdict is written to the row that the process has reserved. -/
theorem Consistent.written (h : Consistent s) {record : Record} {change : ProcessedContent → ProcessedContent}
    (hHeld : (s.work process).expects = some (digest, record))
    (hUpdate : updateRow s.writes digest change = some writes)
    (hDigest : (change ⟨digest, .pending, none, none⟩).digest = digest)
    (hScreened : Screened digest
      { record with rows := record.rows ++ [change ⟨digest, .pending, none, none⟩] })
    (hExpects : work.expects = none) :
    Changes s ({ s with writes := writes }.turn process work []) := by
  have hRecord := h.expected hHeld
  have hRows : versions s.writes digest = [⟨digest, .pending, none, none⟩] := by
    have hHeldRows := Work.expects_rows hHeld
    rw [← hRecord] at hHeldRows
    exact hHeldRows
  obtain rfl := updateRow_eq_some hRows hUpdate
  have hAfter := record_write s process work (change ⟨digest, .pending, none, none⟩)
  rw [hDigest, hRecord] at hAfter
  refine .proceeds digest hHeld ?_ ?_ rfl (.inl hExpects)
  · intro other hOther
    exact record_write_other s process work (hDigest.symm ▸ hOther)
  · rw [hAfter]
    exact hScreened

/-- A process goes on with the content that it has reserved, whatever is answered. The cases
are those of its work: each adds one entry to the record that the invariant gives it. -/
theorem Consistent.proceed_changes (h : Consistent s) (process : Nat) (answer : Answer) :
    Changes s (s.proceed process answer) := by
  unfold Screen.proceed
  cases hWork : s.work process with
  | idle => exact .refl s
  | reserving message content =>
      dsimp only
      split
      · exact Changes.silent s process rfl
      · rename_i hNew
        split at hNew
        · exact h.reserved process message content hNew
        · cases hNew
  | scanning message content =>
      have hHeld : (s.work process).expects = _ := congrArg Work.expects hWork
      have hRecord := h.expected hHeld
      dsimp only
      split
      all_goals
        rename_i hVerdict
        rw [hVerdict]
        refine .proceeds content.digest hHeld ?_ ?_ rfl ?_
        · intro other hOther
          exact record_scan_other s process _ _ hOther
        · rw [record_scan, hRecord]
          exact .scanned _
        · rw [record_scan, hRecord]
          first
            | exact .inr rfl
            | exact .inl rfl
  | marking message content =>
      have hHeld : (s.work process).expects = _ := congrArg Work.expects hWork
      dsimp only
      split
      · exact Changes.silent s process rfl
      · rename_i hUpdate
        split at hUpdate
        · exact h.written hHeld hUpdate rfl .csam rfl
        · cases hUpdate
  | purging message content =>
      dsimp only
      apply Changes.turn s process
      · intro call hCall digest
        obtain ⟨blob, -, rfl⟩ := List.mem_map.mp hCall
        exact ⟨rfl, rfl⟩
      · split <;> rfl
  | reporting message =>
      dsimp only
      split
      · apply Changes.turn s process ?_ rfl
        intro call hCall digest
        rw [List.mem_singleton.mp hCall]
        exact ⟨rfl, rfl⟩
      · exact Changes.silent s process rfl
  | analyzing message content images =>
      have hHeld : (s.work process).expects = _ := congrArg Work.expects hWork
      have hRecord := h.expected hHeld
      dsimp only
      split
      all_goals
        rename_i hResponse
        refine .proceeds content.digest hHeld ?_ ?_ rfl ?_
        · intro other hOther
          exact record_analysis_other s process _ content images _ hOther
        · rw [record_analysis, hRecord]
          exact .analyzed _
        · rw [record_analysis, hRecord, hResponse]
          exact .inr rfl
  | storing message content response =>
      have hHeld : (s.work process).expects = _ := congrArg Work.expects hWork
      dsimp only
      split
      · exact Changes.silent s process rfl
      · rename_i hUpdate
        split at hUpdate
        · exact h.written hHeld hUpdate rfl (.stored response) rfl
        · cases hUpdate
  | failing message content =>
      have hHeld : (s.work process).expects = _ := congrArg Work.expects hWork
      dsimp only
      split
      · exact Changes.silent s process rfl
      · rename_i hUpdate
        split at hUpdate
        · exact h.written hHeld hUpdate rfl .failed rfl
        · cases hUpdate
  | labelling message response =>
      dsimp only
      split
      · split
        · exact Changes.silent s process rfl
        · apply Changes.turn s process ?_ rfl
          intro call hCall digest
          rw [List.mem_singleton.mp hCall]
          exact ⟨rfl, rfl⟩
      · exact Changes.silent s process rfl

/-- The lookup writes nothing, whatever the replica says. -/
theorem begin_changes (s : Screen) (process : Nat) (message : Message) (replicated : Nat) (works : Bool) :
    Changes s (s.begin P decodeBody process message replicated works) := by
  unfold Screen.begin
  split
  · exact .refl s
  · split
    · split
      · exact .silent s process rfl
      · split
        · exact .silent s process rfl
        · split
          · exact .silent s process rfl
          · exact .silent s process rfl
    · exact .refl s

/-- A published label is on no record. -/
theorem label_changes (s : Screen) (target : EventKey) (labels : List String) :
    Changes s { s with calls := s.calls ++ [.label target labels] } := by
  refine .quiet ?_ fun _ _ => id
  intro digest
  simp [Screen.record, Call.scanned, Call.analyzed]

theorem moderatorReport_changes (s : Screen) (message : Message) (isModerator contentExists : Option Bool) :
    Changes s (s.moderatorReport P decodeBody message isModerator contentExists) := by
  unfold Screen.moderatorReport
  split
  · split
    · exact label_changes s _ _
    · exact .refl s
  · exact .refl s

/-- Every action is a quiet one, reserves a content or goes on with a reserved one. -/
theorem Consistent.step_changes (h : Consistent s) (action : Action) :
    Changes s (s.step P decodeBody action) := by
  cases action with
  | begin process message replicated works => exact begin_changes s process message replicated works
  | moderatorReport message isModerator contentExists =>
      exact moderatorReport_changes s message isModerator contentExists
  | proceed process answer => exact h.proceed_changes process answer
  | stop process => exact .silent s process rfl

/-- A content that is not reserved is nobody's. -/
theorem Consistent.left_of_free (h : Consistent s) (hFree : (s.record digest).rows = []) : s.Left digest := by
  intro process record hHeld
  have hRows := Work.expects_rows hHeld
  rw [← h.expected hHeld, hFree] at hRows
  cases hRows

/-- The record of one content changes, of which nobody else is in charge. -/
theorem Consistent.advance (h : Consistent s) {s' : Screen} (digest : ContentDigest)
    (hWork : s'.work = Function.update s.work process work)
    (hOwn : ∀ other record, (s.work other).expects = some (digest, record) → other = process)
    (hOther : ∀ other, other ≠ digest → s'.record other = s.record other)
    (hScreened : Screened digest (s'.record digest))
    (hExpects : work.expects = none ∨ work.expects = some (digest, s'.record digest)) :
    Consistent s' := by
  have hTurn : ∀ {other digest' record}, (s'.work other).expects = some (digest', record) →
      (other = process ∧ digest' = digest ∧ record = s'.record digest) ∨
      (other ≠ process ∧ digest' ≠ digest ∧ (s.work other).expects = some (digest', record)) := by
    intro other digest' record hHeld
    rcases expects_update hWork hHeld with ⟨rfl, hNew⟩ | ⟨hNe, hOld⟩
    · rcases hExpects with hNone | hSome
      · exact absurd (hNone.symm.trans hNew) nofun
      · obtain ⟨rfl, rfl⟩ := Prod.mk.inj (Option.some.inj (hSome.symm.trans hNew))
        exact .inl ⟨rfl, rfl, rfl⟩
    · refine .inr ⟨hNe, ?_, hOld⟩
      rintro rfl
      exact hNe (hOwn other record hOld)
  constructor
  case screened =>
    intro other
    rcases eq_or_ne other digest with rfl | hNe
    · exact hScreened
    · rw [hOther other hNe]
      exact h.screened other
  case expected =>
    intro other digest' record hHeld
    rcases hTurn hHeld with ⟨-, rfl, rfl⟩ | ⟨-, hNe, hOld⟩
    · rfl
    · exact (hOther digest' hNe).trans (h.expected hOld)
  case apart =>
    intro first second digest' record record' hFirst hSecond
    rcases hTurn hFirst with ⟨rfl, hSame, -⟩ | ⟨-, hNe, hOld⟩
    · rcases hTurn hSecond with ⟨rfl, -⟩ | ⟨-, hNe, -⟩
      · rfl
      · exact absurd hSame hNe
    · rcases hTurn hSecond with ⟨-, hSame, -⟩ | ⟨-, -, hOld'⟩
      · exact absurd hSame hNe
      · exact h.apart hOld hOld'

/-- The invariant follows from what a step may change, and not from the step. -/
theorem Consistent.changes (h : Consistent s) {s' : Screen} (hChanges : Changes s s') : Consistent s' := by
  cases hChanges with
  | quiet hSame hWork =>
      constructor
      case screened => exact fun digest => hSame digest ▸ h.screened digest
      case expected => exact fun hHeld => (hSame _).trans (h.expected (hWork _ _ hHeld))
      case apart => exact fun hFirst hSecond => h.apart (hWork _ _ hFirst) (hWork _ _ hSecond)
  | reserves digest hFree hOther hRecord hWork hExpects =>
      apply h.advance digest hWork ?_ hOther ?_ (.inr hExpects)
      · intro other record hHeld
        exact absurd hHeld (h.left_of_free hFree other record)
      · rw [hRecord]
        exact .reserved
  | proceeds digest hHeld hOther hScreened hWork hExpects =>
      apply h.advance digest hWork ?_ hOther hScreened hExpects
      intro other record hOther
      exact h.apart hOther hHeld

theorem Consistent.step (h : Consistent s) (action : Action) : Consistent (s.step P decodeBody action) :=
  h.changes (h.step_changes action)

/-- What is on record of a content that is reserved and left stays as it is. -/
theorem Changes.left {s' : Screen} (hChanges : Changes s s') (hReserved : (s.record digest).rows ≠ [])
    (hLeft : s.Left digest) : s'.record digest = s.record digest ∧ s'.Left digest := by
  cases hChanges with
  | quiet hSame hWork =>
      exact ⟨hSame digest, fun process record hHeld => hLeft process record (hWork _ _ hHeld)⟩
  | reserves other hFree hOther hRecord hWork hExpects =>
      have hNe : digest ≠ other := by
        rintro rfl
        exact hReserved hFree
      refine ⟨hOther digest hNe, ?_⟩
      intro process record hHeld
      rcases expects_update hWork hHeld with ⟨-, hNew⟩ | ⟨-, hOld⟩
      · exact hNe (Prod.mk.inj (Option.some.inj (hNew.symm.trans hExpects))).1
      · exact hLeft process record hOld
  | proceeds other hHeld hOther hScreened hWork hExpects =>
      have hNe : digest ≠ other := by
        rintro rfl
        exact hLeft _ _ hHeld
      refine ⟨hOther digest hNe, ?_⟩
      intro process record hHeld'
      rcases expects_update hWork hHeld' with ⟨-, hNew⟩ | ⟨-, hOld⟩
      · rcases hExpects with hNone | hSome
        · exact absurd (hNone.symm.trans hNew) nofun
        · exact hNe (Prod.mk.inj (Option.some.inj (hNew.symm.trans hSome))).1
      · exact hLeft process record hOld

end Records

/-- Each content is scanned at most once and analyzed at most once, whatever fails and
whoever stops: its row is reserved first, is written once more at most, and says then what
the scan and the analysis answered. What matches is never analyzed. -/
theorem screened_once (actions : List Action) (digest : ContentDigest) :
    Screened digest ((run (Screen.step P decodeBody) Screen.new actions).record digest) := by
  have h : Consistent (run (Screen.step P decodeBody) Screen.new actions) :=
    run_invariant (fun h _ => h.step _) consistent_new (along_true _ actions)
  exact h.screened digest

/-- A content that is left is never taken up again: once it is reserved and no process is
at work on it, its row stays as it is and it is neither scanned nor analyzed any more, also
if it has no verdict yet. -/
theorem left_is_final (before actions : List Action) {digest : ContentDigest}
    (hReserved : ((run (Screen.step P decodeBody) Screen.new before).record digest).rows ≠ [])
    (hLeft : (run (Screen.step P decodeBody) Screen.new before).Left digest) :
    let s := run (Screen.step P decodeBody) Screen.new before
    (run (Screen.step P decodeBody) s actions).record digest = s.record digest := by
  intro s
  have h : Consistent s := run_invariant (fun h _ => h.step _) consistent_new (along_true _ before)
  have hFinal : ∀ t, Consistent t ∧ t.record digest = s.record digest ∧ t.Left digest →
      (run (Screen.step P decodeBody) t actions).record digest = s.record digest := by
    induction actions with
    | nil => exact fun t hKept => hKept.2.1
    | cons action rest ih =>
        intro t hKept
        obtain ⟨hConsistent, hSame, hLeft⟩ := hKept
        have hChanges : Changes t (t.step P decodeBody action) := hConsistent.step_changes action
        obtain ⟨hStep, hStepLeft⟩ := hChanges.left (hSame ▸ hReserved) hLeft
        exact ih _ ⟨hConsistent.step action, hStep.trans hSame, hStepLeft⟩
  exact hFinal s ⟨h, rfl, hLeft⟩

end Polycentric.Moderation

namespace Polycentric.TableInstance

open Proto Runs Moderation

/-! Alice posts a text and an image. The content is screened, once while PhotoDNA fails and
once while Azure finds violence. -/

def imageDigest : ContentDigest := ⟨contentDigestTypeSha256, (digest [9]).val⟩

def screenPrimitives : Primitives :=
  primitives [([1], event Collections.feed "alice" (key 1) 1 [1] [13])] []

def decodeBody (bytes : Bytes) : Option Body :=
  if bytes = [13] then some (.post "text" [⟨[⟨some ⟨some imageDigest, "image/png", 1⟩⟩]⟩] []) else none

def screenTarget : EventKey := ⟨Collections.feed, "alice", some (key 1), 1⟩

def screenMessage : Moderation.Message :=
  ⟨some screenTarget, some ⟨some ⟨sign (key 1).key [1], [1]⟩, some ⟨[13]⟩, [], none⟩⟩

def screenContent : BundleContent :=
  ⟨"alice", ⟨contentDigestTypeSha256, (digest [13]).val⟩,
    .post "text" [⟨[⟨some ⟨some imageDigest, "image/png", 1⟩⟩]⟩] []⟩

def violentResult : Json :=
  .object [("categoriesAnalysis", .array
    [.object [("category", .string "Violence"), ("severity", .number (some 6))]])]

def screenAnswer : Answer where
  works := true
  readBlob := fun _ => some [9]
  photodna := some fun _ _ => some false
  azure := some fun _ => some violentResult
  contentExists := some false

def failedScan : List Moderation.Action :=
  [.begin 0 screenMessage 0 true, .proceed 0 screenAnswer,
    .proceed 0 { screenAnswer with photodna := some fun _ _ => none }]

def violentPost : List Moderation.Action :=
  .begin 0 screenMessage 0 true :: List.replicate 5 (.proceed 0 screenAnswer)

end Polycentric.TableInstance

namespace Polycentric.Moderation

open Runs TableInstance

/-- The message whose scan failed is delivered again. -/
theorem left_is_final_failed :
    (run (Screen.step screenPrimitives decodeBody)
      (run (Screen.step screenPrimitives decodeBody) Screen.new failedScan) violentPost).record
        screenContent.digest =
      (run (Screen.step screenPrimitives decodeBody) Screen.new failedScan).record screenContent.digest := by
  apply left_is_final screenPrimitives decodeBody failedScan violentPost
  · exact List.ne_nil_of_length_pos (by decide +kernel)
  · intro process record hHeld
    have hUpdates : (run (Screen.step screenPrimitives decodeBody) Screen.new failedScan).work =
        Function.update (Function.update (Function.update (fun _ => .idle) 0
          (.reserving screenMessage screenContent)) 0 (.scanning screenMessage screenContent)) 0 .idle := rfl
    have hIdle : (run (Screen.step screenPrimitives decodeBody) Screen.new failedScan).work =
        fun _ => .idle := by
      rw [hUpdates, Function.update_idem, Function.update_idem, Function.update_eq_self]
    rw [hIdle] at hHeld
    cases hHeld

end Polycentric.Moderation
