import Polycentric.Server.BlobSparing

/-! Whether the bytes of a known blob are in the object store. The row is committed before
the bytes are written, so an upload in progress may fail after its blob has become known. -/
namespace Polycentric.Server

open Proto Result Runs

variable (P : Primitives) (encodeBlob : Blob → Bytes) (runtime : Runtime)

/-- The server and the uploads in progress: rows are committed, bytes are still to be
written. -/
structure UploadServer where
  server : BlobServer
  inProgress : List (ContentDigest × Bytes)

inductive UploadAction where
  | put (step : AddStep)
  | commit (blob : Option Blob) (body : Bytes)
  | write (n : Nat) (succeeds : Bool)

namespace UploadServer

def empty : UploadServer := ⟨BlobServer.empty, []⟩

/-- The part of `upload_blob` up to the commit. -/
def commitUpload (s : UploadServer) (blob : Option Blob) (body : Bytes) : UploadServer :=
  match BlobServer.parseUploadBlobRequest P blob body with
  | .error _ => s
  | .ok (blob, digest, body) =>
      ⟨s.server.saveBlob P encodeBlob blob, s.inProgress ++ [(digest, body)]⟩

/-- The write of an upload in progress, which ends it. -/
def writeUpload (s : UploadServer) (n : Nat) (succeeds : Bool) : UploadServer :=
  match s.inProgress[n]? with
  | none => s
  | some (digest, body) =>
      ⟨if succeeds then s.server.writeBlob digest body else s.server, s.inProgress.eraseIdx n⟩

def step (s : UploadServer) : UploadAction → UploadServer
  | .put step => { s with server := { s.server with db := step.run runtime s.server.db } }
  | .commit blob body => s.commitUpload P encodeBlob blob body
  | .write n succeeds => s.writeUpload n succeeds

/-! ### Known blobs -/

/-- The bytes of the digest are stored. -/
def Stored (server : BlobServer) (digest : ContentDigest) : Prop :=
  ∃ bytes, (digest, bytes) ∈ server.filestore ∧ digest.verifyAgainst P bytes = .ok ()

/-- Every blob with a digest that `remove_present_blobs` removes has its bytes. -/
def KnownStored (server : BlobServer) : Prop :=
  ∀ blobs, ∀ blob ∈ blobs, ∀ digest, blob.digest = some digest →
    blob ∉ server.removePresentBlobs blobs → Stored P server digest

/-- All uploads in progress write their bytes. -/
def settle (s : UploadServer) : BlobServer :=
  s.inProgress.foldl (fun server upload => server.writeBlob upload.1 upload.2) s.server

/-- A write that fails does no harm: the blob is not known, its bytes are stored already, or
another upload of it is in progress. -/
def Harmless (s : UploadServer) : UploadAction → Prop
  | .write n false => ∀ upload, s.inProgress[n]? = some upload →
      (∀ row ∈ s.server.contentBlob, row.digest ≠ upload.1) ∨ Stored P s.server upload.1 ∨
        ∃ other ∈ s.inProgress.eraseIdx n, other.1 = upload.1
  | _ => True

/-- What was uploaded and what is stored has its digest, and a known blob is stored or being
uploaded. -/
structure Verified (s : UploadServer) : Prop where
  inProgress : ∀ upload ∈ s.inProgress, upload.1.verifyAgainst P upload.2 = .ok ()
  filestore : ∀ object ∈ s.server.filestore, object.1.verifyAgainst P object.2 = .ok ()

def Backed (s : UploadServer) : Prop :=
  ∀ row ∈ s.server.contentBlob, (∃ bytes, (row.digest, bytes) ∈ s.server.filestore) ∨
    ∃ upload ∈ s.inProgress, upload.1 = row.digest

section Known

variable {P} {encodeBlob} {runtime} {s : UploadServer} {server : BlobServer}

/-- A digest is known if the table has a row of it. -/
theorem mem_findDigestsInDb {digests : List ContentDigest} {digest : ContentDigest} :
    digest ∈ server.findDigestsInDb digests ↔
      digest ∈ digests ∧ ∃ row ∈ server.contentBlob, row.digest = digest := by
  simp only [BlobServer.findDigestsInDb, List.mem_map, List.mem_filter, List.contains_iff_mem]
  constructor
  · rintro ⟨row, ⟨hRow, hAsked⟩, rfl⟩
    exact ⟨hAsked, row, hRow, rfl⟩
  · rintro ⟨hAsked, row, hRow, rfl⟩
    exact ⟨row, ⟨hRow, hAsked⟩, rfl⟩

/-- The known blobs are those with a row. -/
theorem knownStored_iff :
    KnownStored P server ↔ ∀ row ∈ server.contentBlob, Stored P server row.digest := by
  constructor
  · intro h row hRow
    have hKnown : row.digest ∈ server.findDigestsInDb [row.digest] :=
      mem_findDigestsInDb.mpr ⟨List.mem_singleton_self _, row, hRow, rfl⟩
    refine h [⟨some row.digest, row.mimeType, row.size⟩] _ (List.mem_singleton_self _) _ rfl ?_
    simpa [BlobServer.removePresentBlobs] using hKnown
  · intro h blobs blob hBlob digest hDigest hRemoved
    have hKnown : digest ∈ server.findDigestsInDb (blobs.filterMap Blob.digest) := by
      simpa [BlobServer.removePresentBlobs, hBlob, hDigest] using hRemoved
    obtain ⟨-, row, hRow, rfl⟩ := mem_findDigestsInDb.mp hKnown
    exact h row hRow

/-- An upload replaces the object of its digest. -/
theorem mem_writeBlob {digest : ContentDigest} {body : Bytes} {object : ContentDigest × Bytes} :
    object ∈ (server.writeBlob digest body).filestore ↔
      object = (digest, body) ∨ object ∈ server.filestore ∧ object.1 ≠ digest := by
  simp [BlobServer.writeBlob]

theorem has_writeBlob_iff {digest written : ContentDigest} {body : Bytes} :
    (∃ bytes, (digest, bytes) ∈ (server.writeBlob written body).filestore) ↔
      digest = written ∨ ∃ bytes, (digest, bytes) ∈ server.filestore := by
  constructor
  · rintro ⟨bytes, hMem⟩
    rcases mem_writeBlob.mp hMem with hNew | ⟨hOld, -⟩
    · exact Or.inl (Prod.mk.inj hNew).1
    · exact Or.inr ⟨bytes, hOld⟩
  · intro h
    by_cases hSame : digest = written
    · exact ⟨body, mem_writeBlob.mpr (Or.inl (by rw [hSame]))⟩
    · obtain ⟨bytes, hOld⟩ := h.resolve_left hSame
      exact ⟨bytes, mem_writeBlob.mpr (Or.inr ⟨hOld, hSame⟩)⟩

/-- After all uploads have written, the objects of before and theirs are stored. -/
theorem has_settle_iff {digest : ContentDigest} (server : BlobServer)
    (uploads : List (ContentDigest × Bytes)) :
    (∃ bytes, (digest, bytes) ∈ (settle ⟨server, uploads⟩).filestore) ↔
      (∃ bytes, (digest, bytes) ∈ server.filestore) ∨ ∃ upload ∈ uploads, upload.1 = digest := by
  induction uploads generalizing server with
  | nil => simp [settle]
  | cons upload rest ih =>
      have hRest := ih (server.writeBlob upload.1 upload.2)
      rw [has_writeBlob_iff] at hRest
      refine hRest.trans ?_
      rw [List.exists_mem_cons_iff, eq_comm, or_assoc, or_left_comm]

theorem contentBlob_settle (server : BlobServer) (uploads : List (ContentDigest × Bytes)) :
    (settle ⟨server, uploads⟩).contentBlob = server.contentBlob := by
  induction uploads generalizing server with
  | nil => rfl
  | cons upload rest ih => exact ih (server.writeBlob upload.1 upload.2)

/-- An object that is written has the bytes of its digest. -/
theorem Verified.write {uploads : List (ContentDigest × Bytes)} {upload : ContentDigest × Bytes}
    {others : List (ContentDigest × Bytes)} (h : Verified P ⟨server, uploads⟩)
    (hUpload : upload ∈ uploads) (hOthers : ∀ other ∈ others, other ∈ uploads) :
    Verified P ⟨server.writeBlob upload.1 upload.2, others⟩ where
  inProgress other hOther := h.inProgress other (hOthers other hOther)
  filestore object hObject := by
    rcases mem_writeBlob.mp hObject with rfl | ⟨hOld, -⟩
    · exact h.inProgress upload hUpload
    · exact h.filestore object hOld

/-- After the uploads every object has the bytes of its digest. -/
theorem Verified.settle {uploads : List (ContentDigest × Bytes)}
    (h : Verified P ⟨server, uploads⟩) :
    ∀ object ∈ (settle ⟨server, uploads⟩).filestore, object.1.verifyAgainst P object.2 = .ok () := by
  induction uploads generalizing server with
  | nil => exact h.filestore
  | cons upload rest ih =>
      exact ih (h.write List.mem_cons_self fun other hOther => List.mem_cons_of_mem _ hOther)

/-- If all uploads in progress succeed, the known blobs have their bytes exactly if they
are backed. -/
theorem knownStored_settle_iff (h : Verified P s) : KnownStored P s.settle ↔ Backed s := by
  obtain ⟨server, uploads⟩ := s
  rw [knownStored_iff, contentBlob_settle]
  refine forall₂_congr fun row _ => ?_
  rw [← has_settle_iff server uploads]
  constructor
  · rintro ⟨bytes, hMem, -⟩
    exact ⟨bytes, hMem⟩
  · rintro ⟨bytes, hMem⟩
    exact ⟨bytes, hMem, h.settle _ hMem⟩

end Known

/-! ### What a step keeps -/

section Step

variable {P} {encodeBlob} {runtime} {s : UploadServer} {server : BlobServer}

/-- An accepted upload has the bytes that its digest says. -/
theorem parseUploadBlobRequest_eq_ok {request : Option Blob} {body body' : Bytes} {blob : Blob}
    {digest : ContentDigest}
    (h : BlobServer.parseUploadBlobRequest P request body = .ok (blob, digest, body')) :
    blob.digest = some digest ∧ digest.verifyAgainst P body' = .ok () := by
  simp only [BlobServer.parseUploadBlobRequest, bind_eq_ok_iff, okOr_eq_ok_iff, ensure_eq_ok_iff,
    mapError_eq_ok_iff, pure, Except.pure, Except.ok.injEq, Prod.mk.injEq] at h
  obtain ⟨_, -, _, hDigest, _, -, _, hVerify, rfl, rfl, rfl⟩ := h
  exact ⟨hDigest, hVerify⟩

theorem type_of_verifyAgainst {digest : ContentDigest} {bytes : Bytes}
    (h : digest.verifyAgainst P bytes = .ok ()) : digest.type = contentDigestTypeSha256 := by
  unfold ContentDigest.verifyAgainst verifyDigest at h
  split at h
  · assumption
  · cases h

theorem filestore_saveBlob (server : BlobServer) (blob : Blob) :
    (server.saveBlob P encodeBlob blob).filestore = server.filestore := by
  unfold BlobServer.saveBlob
  split
  · rfl
  · dsimp only
    split
    · rfl
    · rfl

/-- A new row is that of the blob. -/
theorem mem_contentBlob_saveBlob {blob : Blob} {digest : ContentDigest} {row : ContentBlobRow}
    (hDigest : blob.digest = some digest) (hType : digest.type = contentDigestTypeSha256)
    (hRow : row ∈ (server.saveBlob P encodeBlob blob).contentBlob) :
    row ∈ server.contentBlob ∨ row.digest = digest := by
  simp only [BlobServer.saveBlob, hDigest] at hRow
  split at hRow
  · exact Or.inl hRow
  · dsimp only at hRow
    split at hRow
    · exact Or.inl hRow
    · rcases List.mem_append.mp hRow with hOld | hNew
      · exact Or.inl hOld
      · right
        rw [List.mem_singleton.mp hNew]
        obtain ⟨type, value⟩ := digest
        obtain rfl : type = contentDigestTypeSha256 := hType
        rfl

/-- Every step writes bytes under their own digest only. -/
theorem Verified.run_step (h : Verified P s) {action : UploadAction} :
    Verified P (s.step P encodeBlob runtime action) := by
  cases action with
  | put step => exact ⟨h.inProgress, h.filestore⟩
  | commit request body =>
      unfold step commitUpload
      dsimp only
      split
      · exact h
      · next blob digest body' hParse =>
          obtain ⟨-, hVerify⟩ := parseUploadBlobRequest_eq_ok hParse
          refine ⟨?_, by rw [filestore_saveBlob]; exact h.filestore⟩
          intro upload hUpload
          rcases List.mem_append.mp hUpload with hOld | hNew
          · exact h.inProgress upload hOld
          · rw [List.mem_singleton.mp hNew]
            exact hVerify
  | write n succeeds =>
      unfold step writeUpload
      dsimp only
      split
      · exact h
      · next digest body hNth =>
          have hFewer : ∀ other ∈ s.inProgress.eraseIdx n, other ∈ s.inProgress :=
            fun other hOther => (List.eraseIdx_sublist _ _).subset hOther
          cases succeeds with
          | true => exact h.write (List.mem_of_getElem? hNth) hFewer
          | false => exact ⟨fun other hOther => h.inProgress other (hFewer other hOther), h.filestore⟩

theorem mem_eraseIdx_or {uploads : List (ContentDigest × Bytes)} {upload other : ContentDigest × Bytes}
    {n : Nat} (hNth : uploads[n]? = some upload) (hOther : other ∈ uploads) :
    other ∈ uploads.eraseIdx n ∨ other = upload := by
  obtain ⟨m, hMth⟩ := List.getElem?_of_mem hOther
  by_cases hSame : m = n
  · rw [hSame, hNth] at hMth
    exact Or.inr (Option.some.inj hMth).symm
  · exact Or.inl (List.mem_eraseIdx_iff_getElem?.mpr ⟨m, hSame, hMth⟩)

/-- A backed server stays backed exactly if the step does no harm. -/
theorem backed_step_iff (hVerified : Verified P s) (hBacked : Backed s) {action : UploadAction} :
    Backed (s.step P encodeBlob runtime action) ↔ Harmless P s action := by
  cases action with
  | put step => exact iff_of_true hBacked trivial
  | commit request body =>
      refine iff_of_true ?_ trivial
      unfold step commitUpload
      dsimp only
      split
      · exact hBacked
      · next blob digest body' hParse =>
          obtain ⟨hDigest, hVerify⟩ := parseUploadBlobRequest_eq_ok hParse
          intro row hRow
          rw [filestore_saveBlob]
          rcases mem_contentBlob_saveBlob hDigest (type_of_verifyAgainst hVerify) hRow with hOld | hNew
          · rcases hBacked row hOld with hStored | ⟨upload, hUpload, hSame⟩
            · exact Or.inl hStored
            · exact Or.inr ⟨upload, List.mem_append_left _ hUpload, hSame⟩
          · exact Or.inr ⟨_, List.mem_append_right _ (List.mem_singleton_self _), hNew.symm⟩
  | write n succeeds =>
      unfold step writeUpload
      dsimp only
      cases hNth : s.inProgress[n]? with
      | none => cases succeeds <;> simp [Harmless, hNth, hBacked]
      | some upload =>
          cases succeeds with
          | true =>
              refine iff_of_true ?_ trivial
              intro row hRow
              simp only [if_true, has_writeBlob_iff]
              rcases hBacked row hRow with hStored | ⟨other, hOther, hSame⟩
              · exact Or.inl (Or.inr hStored)
              · rcases mem_eraseIdx_or hNth hOther with hLeft | rfl
                · exact Or.inr ⟨other, hLeft, hSame⟩
                · exact Or.inl (Or.inl hSame.symm)
          | false =>
              have hFewer : ∀ other ∈ s.inProgress.eraseIdx n, other ∈ s.inProgress :=
                fun other hOther => (List.eraseIdx_sublist _ _).subset hOther
              constructor
              · rintro hAfter failed hFailed
                obtain rfl : upload = failed := Option.some.inj (hNth.symm.trans hFailed)
                by_cases hRow : ∃ row ∈ s.server.contentBlob, row.digest = upload.1
                · obtain ⟨row, hRow, hSame⟩ := hRow
                  rw [← hSame]
                  right
                  rcases hAfter row hRow with ⟨bytes, hStored⟩ | hOther
                  · exact Or.inl ⟨bytes, hStored, hVerified.filestore _ hStored⟩
                  · exact Or.inr hOther
                · exact Or.inl fun row hKnown hSame => hRow ⟨row, hKnown, hSame⟩
              · intro hHarmless row hRow
                rcases hBacked row hRow with hStored | ⟨other, hOther, hSame⟩
                · exact Or.inl hStored
                · rcases mem_eraseIdx_or hNth hOther with hLeft | rfl
                  · exact Or.inr ⟨other, hLeft, hSame⟩
                  · rcases hHarmless _ hNth with hUnknown | ⟨bytes, hStored, -⟩ | hAnother
                    · exact absurd hSame.symm (hUnknown row hRow)
                    · exact Or.inl ⟨bytes, hSame ▸ hStored⟩
                    · exact Or.inr (hSame ▸ hAnother)

theorem Verified.start : Verified P empty := ⟨nofun, nofun⟩

theorem Backed.start : Backed empty := nofun

end Step

/-- If every write that fails does no harm, then in every state of the run without an upload
in progress the known blobs have their bytes. The writes do no harm exactly if after every
step the uploads in progress are enough for the known blobs to get theirs. -/
theorem known_blobs_stored_iff (actions : List UploadAction) :
    (Along (step P encodeBlob runtime) (Harmless P) empty actions → ∀ n,
      (run (step P encodeBlob runtime) empty (actions.take n)).inProgress = [] →
        KnownStored P (run (step P encodeBlob runtime) empty (actions.take n)).server) ∧
    (Along (step P encodeBlob runtime) (Harmless P) empty actions ↔
      Along (step P encodeBlob runtime)
        (fun s action => KnownStored P (s.step P encodeBlob runtime action).settle) empty actions) := by
  constructor
  · intro hHarmless n hQuiet
    have hBoth := @run_invariant _ _ (step P encodeBlob runtime) (Harmless P) empty (actions.take n)
      (fun s => Verified P s ∧ Backed s)
      (fun h hHarm => ⟨h.1.run_step, (backed_step_iff h.1 h.2).mpr hHarm⟩)
      ⟨Verified.start, Backed.start⟩ (hHarmless.take n)
    have hSettled := (knownStored_settle_iff hBoth.1).mpr hBoth.2
    rwa [settle, hQuiet] at hSettled
  · have hAll := @along_true _ _ (step P encodeBlob runtime) empty actions
    have hKept := @along_kept_iff _ _ (step P encodeBlob runtime) _ empty actions (Verified P) Backed
      (Harmless P) (fun h _ => h.run_step)
      (fun hVerified hBacked _ => backed_step_iff hVerified hBacked) Verified.start Backed.start hAll
    refine hKept.symm.trans ?_
    exact @along_congr _ _ (step P encodeBlob runtime) _ empty actions (Verified P) _ _
      (fun h _ => h.run_step) (fun h _ => (knownStored_settle_iff h.run_step).symm) Verified.start hAll

end UploadServer

end Polycentric.Server

namespace Polycentric.Server.UploadServer

open Runs BlobSparing TableInstance

/-- An upload fails, and the one that is tried again writes the bytes. -/
def retried : List UploadAction :=
  [.commit (some imageBlob) [7], .commit (some imageBlob) [7], .write 0 false, .write 0 true]

theorem retried_blobs_stored :
    KnownStored imagePrimitives
      (run (step imagePrimitives encodeBlob runtime) empty retried).server := by
  have hHarmless : Along (step imagePrimitives encodeBlob runtime) (Harmless imagePrimitives) empty
      retried := by
    refine ⟨trivial, trivial, fun upload hUpload => ?_, trivial, trivial⟩
    right; right
    have hTwo : ((empty.step imagePrimitives encodeBlob runtime (.commit (some imageBlob) [7])).step
        imagePrimitives encodeBlob runtime (.commit (some imageBlob) [7])).inProgress =
          [(digestOf [7], [7]), (digestOf [7], [7])] := by decide +kernel
    rw [hTwo] at hUpload ⊢
    exact ⟨upload, by simp_all, rfl⟩
  have hQuiet : (run (step imagePrimitives encodeBlob runtime) empty retried).inProgress = [] := by
    decide +kernel
  exact (known_blobs_stored_iff imagePrimitives encodeBlob runtime retried).1 hHarmless 4 hQuiet

/-- The only upload of a blob fails. -/
def failed : List UploadAction := [.commit (some imageBlob) [7], .write 0 false]

/-- No upload is in progress, and the blob is not requested although it has no bytes. -/
theorem failed_blob_known :
    (run (step imagePrimitives encodeBlob runtime) empty failed).inProgress = [] ∧
      ¬KnownStored imagePrimitives
        (run (step imagePrimitives encodeBlob runtime) empty failed).server := by
  refine ⟨by decide +kernel, fun hKnown => ?_⟩
  have hEmpty : (run (step imagePrimitives encodeBlob runtime) empty failed).server.filestore = [] := by
    decide +kernel
  have hPresent : (run (step imagePrimitives encodeBlob runtime) empty
      failed).server.removePresentBlobs [imageBlob] = [] := by decide +kernel
  obtain ⟨bytes, hStored, -⟩ := hKnown [imageBlob] imageBlob (List.mem_singleton_self _) (digestOf [7])
    rfl (by rw [hPresent]; exact List.not_mem_nil)
  rw [hEmpty] at hStored
  cases hStored

end Polycentric.Server.UploadServer
