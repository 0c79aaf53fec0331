import Polycentric.Server.Blobs

/-! Whether erasing an identity and pruning content spare what the remaining events need.
Content that a remaining event names is always kept. A blob that its content refers to is
not: its row belongs to content that the event does not name. -/
namespace Polycentric.Server

open Proto Result Runs Batches

namespace BlobServer

variable (P : Primitives) (encodeBlob : Blob → Bytes) (runtime : Runtime)

/-! ### Runs -/

inductive Action where
  | put (step : AddStep)
  | upload (blob : Option Blob) (body : Bytes) (writes : Bool)
  | erase (identity : String) (round : Nat → Round)
  | prune (failing : List ContentDigest)

def step (server : BlobServer) : Action → BlobServer
  | .put step => { server with db := step.run runtime server.db }
  | .upload blob body writes => (server.uploadBlob P encodeBlob blob body writes).2
  | .erase identity round => (server.eraseIdentity identity round).getD server
  | .prune failing => server.pruneContent failing

/-- The sequence of the database assigns new ids, from one on. -/
def NewIds (server : BlobServer) : Action → Prop
  | .put step => step.FreshId server.db ∧ 0 < step.row.id
  | _ => True

instance (server : BlobServer) : (action : Action) → Decidable (server.NewIds action)
  | .put step => inferInstanceAs (Decidable (step.FreshId server.db ∧ 0 < step.row.id))
  | .upload _ _ _ | .erase _ _ | .prune _ => inferInstanceAs (Decidable True)

/-- The events have positive ids of their own. -/
structure Numbered (events : List EventRow) : Prop where
  ids : (events.map EventRow.id).Nodup
  positive : ∀ event ∈ events, 0 < event.id

/-! ### What is spared -/

/-- The stored content of the event refers to the blob. -/
def RefersTo (db : Database) (event : EventRow) (digest : ContentDigest) : Prop :=
  ∃ row ∈ db.content, event.contentDigest = some row.digest ∧
    ∃ content, P.decodeContent row.serializedBytes = .ok content ∧
      ∃ blob ∈ content.blobs, blob.digest = some digest

/-- The content that the remaining events name is kept, and so are the rows and the bytes of
the blobs that this content refers to. -/
structure Spares (before after : BlobServer) : Prop where
  content : ∀ event ∈ after.db.event, ∀ row ∈ before.db.content,
    event.contentDigest = some row.digest → row ∈ after.db.content
  blobs : ∀ event ∈ after.db.event, ∀ row ∈ before.contentBlob,
    RefersTo P before.db event row.digest → row ∈ after.contentBlob
  bytes : ∀ event ∈ after.db.event, ∀ object ∈ before.filestore,
    RefersTo P before.db event object.1 → object ∈ after.filestore

/-- Every row of a blob that the content of an event refers to belongs to content that an
event names. -/
def SafeToPrune (server : BlobServer) : Prop :=
  ∀ row ∈ server.contentBlob,
    (∃ event ∈ server.db.event, RefersTo P server.db event row.digest) →
      names server.db.event row.content = true

/-- Every row of a blob that the content of another identity's event refers to belongs to
content that another identity's event names, or that no event of the identity names. -/
def SafeToErase (server : BlobServer) (identity : String) : Prop :=
  ∀ row ∈ server.contentBlob,
    (∃ event ∈ server.db.event, event.key.identity ≠ identity ∧
      RefersTo P server.db event row.digest) →
    (∃ event ∈ server.db.event, event.key.identity ≠ identity ∧
      event.contentDigest = some row.content) ∨
    ∀ event ∈ server.db.event, event.key.identity = identity →
      event.contentDigest ≠ some row.content

/-- What is collected is exactly what belongs to content that is not kept. -/
structure Collects (before after : BlobServer) (kept : ContentDigest → Prop) : Prop where
  content : ∀ row, row ∈ after.db.content ↔ row ∈ before.db.content ∧ kept row.digest
  blobs : ∀ row, row ∈ after.contentBlob ↔ row ∈ before.contentBlob ∧ kept row.content
  bytes : ∀ object ∈ before.filestore,
    (∀ row ∈ before.contentBlob, row.digest = object.1 → kept row.content) →
      object ∈ after.filestore

section Collecting

variable {P} {before middle after : BlobServer} {kept kept' : ContentDigest → Prop}

theorem Collects.refl (server : BlobServer) : Collects server server fun _ => True where
  content _ := (and_iff_left trivial).symm
  blobs _ := (and_iff_left trivial).symm
  bytes _ hObject _ := hObject

theorem Collects.congr (h : Collects before after kept) (hSame : ∀ digest, kept digest ↔ kept' digest) :
    Collects before after kept' := by
  have hEq : kept = kept' := funext fun digest => propext (hSame digest)
  rwa [← hEq]

theorem Collects.trans (h : Collects before middle kept) (h' : Collects middle after kept') :
    Collects before after fun digest => kept digest ∧ kept' digest where
  content row := by rw [h'.content, h.content, and_assoc]
  blobs row := by rw [h'.blobs, h.blobs, and_assoc]
  bytes object hObject hKept := by
    refine h'.bytes object (h.bytes object hObject fun row hRow hDigest => (hKept row hRow hDigest).1) ?_
    intro row hRow hDigest
    exact (hKept row ((h.blobs row).mp hRow).1 hDigest).2

/-- The content of remaining events is spared if it is kept, and then it depends on the rows
of the blobs. -/
theorem Collects.spares_iff (h : Collects before after kept)
    (hNamed : ∀ event ∈ after.db.event, ∀ digest, event.contentDigest = some digest → kept digest) :
    Spares P before after ↔ ∀ row ∈ before.contentBlob,
      (∃ event ∈ after.db.event, RefersTo P before.db event row.digest) → kept row.content := by
  constructor
  · rintro hSpares row hRow ⟨event, hEvent, hRefers⟩
    exact ((h.blobs row).mp (hSpares.blobs event hEvent row hRow hRefers)).2
  · intro hKept
    refine ⟨?_, ?_, ?_⟩
    · intro event hEvent row hRow hName
      exact (h.content row).mpr ⟨hRow, hNamed event hEvent row.digest hName⟩
    · intro event hEvent row hRow hRefers
      exact (h.blobs row).mpr ⟨hRow, hKept row hRow ⟨event, hEvent, hRefers⟩⟩
    · intro event hEvent object hObject hRefers
      refine h.bytes object hObject fun row hRow hDigest => hKept row hRow ⟨event, hEvent, ?_⟩
      rwa [hDigest]

theorem names_iff {events : List EventRow} {digest : ContentDigest} :
    names events digest = true ↔ ∃ event ∈ events, event.contentDigest = some digest := by
  simp [names]

theorem deleteContentRows_collects (server : BlobServer) (doomed : ContentDigest → Bool)
    (failing : List ContentDigest) :
    Collects server (server.deleteContentRows doomed failing) fun digest => doomed digest = false where
  content row := by simp [deleteContentRows]
  blobs row := by simp [deleteContentRows]
  bytes object hObject hKept := by
    refine List.mem_filter.mpr ⟨hObject, ?_⟩
    rw [Bool.or_eq_true, Bool.not_eq_true']
    left
    rw [← Bool.not_eq_true, List.contains_iff_mem]
    intro hErased
    obtain ⟨row, hRow, hDigest⟩ := List.mem_map.mp (List.mem_filter.mp hErased).1
    obtain ⟨hStored, hDoomed⟩ := List.mem_filter.mp hRow
    rw [hKept row hStored hDigest] at hDoomed
    cases hDoomed

/-- Pruning spares what is needed exactly if the rows of the blobs are named themselves. -/
theorem pruneContent_spares_iff (server : BlobServer) (failing : List ContentDigest) :
    Spares P server (server.pruneContent failing) ↔ server.SafeToPrune P := by
  have hCollects := deleteContentRows_collects server
    (fun digest => !names server.db.event digest) failing
  refine (hCollects.spares_iff ?_).trans ?_
  · intro event hEvent digest hName
    have hNames : names server.db.event digest = true := names_iff.mpr ⟨event, hEvent, hName⟩
    simpa using hNames
  · refine forall₂_congr fun row hRow => imp_congr_right fun _ => ?_
    simp

end Collecting

/-! ### Erasing -/

section Erasing

variable {P} {server before after : BlobServer} {identity : String} {mark limit last : Nat}
  {locked : List Nat} {failing : List ContentDigest} {db : Database}

theorem names_filter_or (events : List EventRow) (p : EventRow → Bool) (digest : ContentDigest) :
    names events digest =
      (names (events.filter p) digest || names (events.filter fun event => !p event) digest) := by
  induction events with
  | nil => rfl
  | cons event rest ih =>
      simp only [names, List.any_cons, List.filter_cons] at ih ⊢
      cases p event <;> simp [ih, Bool.or_left_comm, Bool.or_assoc]

/-- Content is lost if it was named by events that are gone, and by no other. -/
theorem lost_iff (events : List EventRow) (p : EventRow → Bool) (digest : ContentDigest) :
    (names (events.filter p) digest && !names (events.filter fun event => !p event) digest) = false ↔
      (names events digest = true → names (events.filter fun event => !p event) digest = true) := by
  rw [names_filter_or events p]
  cases names (events.filter p) digest <;>
    cases names (events.filter fun event => !p event) digest <;> simp

theorem contains_filterMap (events : List EventRow) (digest : ContentDigest) :
    (events.filterMap EventRow.contentDigest).contains digest = names events digest := by
  rw [Bool.eq_iff_iff]
  simp [names]

theorem mem_eraseEvents_content {ids : List Nat} {row : ContentRow} :
    row ∈ (db.eraseEvents ids).content ↔ row ∈ db.content ∧
      (names db.event row.digest = true →
        names (db.event.filter fun event => !ids.contains event.id) row.digest = true) := by
  rw [← lost_iff db.event fun event => ids.contains event.id, ← contains_filterMap]
  simp only [Database.eraseEvents, names, List.mem_filter, Bool.not_eq_true']

/-- A batch collects the content that loses its last event. -/
theorem eraseBatch_collects (hIds : (server.db.event.map EventRow.id).Nodup)
    (h : server.eraseBatch identity mark limit locked failing = some (after, last)) :
    BatchErases identity mark server.db after.db last ∧
      Collects server after fun digest =>
        names server.db.event digest = true → names after.db.event digest = true := by
  obtain ⟨⟨db, last'⟩, hBatch, hEq⟩ := Option.map_eq_some_iff.mp h
  obtain ⟨rfl, rfl⟩ := Prod.mk.inj hEq
  refine ⟨eraseEventsBatch_erases hIds hBatch, ?_⟩
  obtain ⟨lastRow, -, hDb⟩ := Option.map_eq_some_iff.mp hBatch
  have hEvents : db.event = server.db.event.filter fun event =>
      !((server.db.selectErase identity mark limit).map EventRow.id).contains event.id :=
    (congrArg Database.event (Prod.mk.inj hDb).1).symm
  have hContent : db.content = (server.db.eraseEvents
      ((server.db.selectErase identity mark limit).map EventRow.id)).content :=
    (congrArg Database.content (Prod.mk.inj hDb).1).symm
  have hErased : (server.db.event.filter fun event => !db.event.contains event) =
      server.db.event.filter fun event =>
        ((server.db.selectErase identity mark limit).map EventRow.id).contains event.id := by
    refine List.filter_congr fun event hEvent => ?_
    have hKept : db.event.contains event =
        !((server.db.selectErase identity mark limit).map EventRow.id).contains event.id := by
      rw [hEvents, Bool.eq_iff_iff, List.contains_iff_mem, List.mem_filter]
      exact and_iff_right hEvent
    rw [hKept, Bool.not_not]
  have hCollects := deleteContentRows_collects server (fun digest =>
    names (server.db.event.filter fun event => !db.event.contains event) digest &&
      !names db.event digest) failing
  have hKept : ∀ digest, ((names (server.db.event.filter fun event => !db.event.contains event) digest &&
      !names db.event digest) = false) ↔
        (names server.db.event digest = true → names db.event digest = true) := by
    intro digest
    rw [hErased, hEvents]
    exact lost_iff _ _ _
  have hSame := hCollects.congr hKept
  refine ⟨?_, hSame.blobs, hSame.bytes⟩
  intro row
  change row ∈ db.content ↔ _
  rw [hContent, mem_eraseEvents_content, ← hEvents]

/-- What the loop has done when it has passed a mark. -/
structure Passed (identity : String) (before : BlobServer) (mark : Nat) (server : BlobServer) :
    Prop where
  events : server.db.event = before.db.event.filter fun event =>
    !(event.key.identity = identity && event.id ≤ mark)
  collects : Collects before server fun digest =>
    names before.db.event digest = true → names server.db.event digest = true

theorem Passed.batch (hIds : (before.db.event.map EventRow.id).Nodup)
    (h : Passed identity before mark server)
    (hBatch : server.eraseBatch identity mark limit locked failing = some (after, last)) :
    Passed identity before last after ∧ after.db.event.length < server.db.event.length := by
  have hNodup : (server.db.event.map EventRow.id).Nodup := by
    rw [h.events]
    exact hIds.sublist (List.filter_sublist.map _)
  obtain ⟨hErases, hCollects⟩ := eraseBatch_collects hNodup hBatch
  have hFewer : ∀ {digest}, names after.db.event digest = true → names server.db.event digest = true := by
    intro digest hNames
    obtain ⟨event, hEvent, hName⟩ := names_iff.mp hNames
    rw [hErases.events] at hEvent
    exact names_iff.mpr ⟨event, (List.mem_filter.mp hEvent).1, hName⟩
  have hEarlier : ∀ {digest}, names server.db.event digest = true → names before.db.event digest = true := by
    intro digest hNames
    obtain ⟨event, hEvent, hName⟩ := names_iff.mp hNames
    rw [h.events] at hEvent
    exact names_iff.mpr ⟨event, (List.mem_filter.mp hEvent).1, hName⟩
  refine ⟨⟨?_, ?_⟩, hErases.shorter⟩
  · rw [hErases.events, h.events]
    exact filter_passed hErases.later
  · refine (h.collects.trans hCollects).congr fun digest => ?_
    constructor
    · rintro ⟨hFirst, hSecond⟩ hNames
      exact hSecond (hFirst hNames)
    · intro hBoth
      exact ⟨fun hNames => hFewer (hBoth hNames), fun hNames => hBoth (hEarlier hNames)⟩

/-- Content keeps a name among the others if one of them names it, or nobody did. -/
theorem names_others_iff {events others : List EventRow} {digest : ContentDigest}
    (hOthers : others = events.filter fun event => event.key.identity ≠ identity) :
    (names events digest = true → names others digest = true) ↔
      (∃ event ∈ events, event.key.identity ≠ identity ∧ event.contentDigest = some digest) ∨
        ∀ event ∈ events, event.key.identity = identity → event.contentDigest ≠ some digest := by
  have hNamed : names others digest = true ↔
      ∃ event ∈ events, event.key.identity ≠ identity ∧ event.contentDigest = some digest := by
    rw [names_iff, hOthers]
    simp only [List.mem_filter, decide_eq_true_eq, and_assoc]
  rw [hNamed, names_iff]
  constructor
  · intro h
    by_cases hOwn : ∃ event ∈ events, event.key.identity = identity ∧ event.contentDigest = some digest
    · obtain ⟨event, hEvent, -, hName⟩ := hOwn
      exact Or.inl (h ⟨event, hEvent, hName⟩)
    · exact Or.inr fun event hEvent hTarget hName => hOwn ⟨event, hEvent, hTarget, hName⟩
  · rintro (hOther | hNone) ⟨event, hEvent, hName⟩
    · exact hOther
    · exact ⟨event, hEvent, fun hTarget => hNone event hEvent hTarget hName, hName⟩

/-- Erasing spares what the other identities need exactly if the rows of the blobs are named
by others, or not by the identity. -/
theorem eraseIdentity_spares_iff (hNumbered : Numbered server.db.event) (identity : String)
    (round : Nat → Round) :
    ∃ after, server.eraseIdentity identity round = some after ∧
      after.db.event = server.db.event.filter (fun event => event.key.identity ≠ identity) ∧
      (Spares P server after ↔ server.SafeToErase P identity) := by
  have hProcess : ∀ {n mark s s' mark'}, Passed identity server mark s →
      s.eraseBatch identity mark (round n).limit (round n).locked (round n).failing =
        some (s', mark') →
      Passed identity server mark' s' ∧ s'.db.event.length < s.db.event.length :=
    fun hPassed hBatch => hPassed.batch hNumbered.ids hBatch
  have hStart : Passed identity server 0 server := by
    refine ⟨(filter_start hNumbered.positive).symm, (Collects.refl server).congr fun digest => ?_⟩
    exact iff_of_true trivial id
  obtain ⟨s, hSweep, n, mark, hPassed, hNone⟩ := sweep_spec hProcess hStart (Nat.lt_succ_self _)
  have hNil : s.db.selectErase identity mark (round n).limit = [] := by
    simpa [eraseBatch, Database.eraseEventsBatch] using hNone
  have hOthers := filter_end hPassed.events (le_of_selectErase_eq_nil (round n).positive hNil)
  refine ⟨{ s with db := s.db.eraseDerived }, ?_, hOthers, ?_⟩
  · rw [eraseIdentity, hSweep]
    rfl
  · have hCollects : Collects server { s with db := s.db.eraseDerived } fun digest =>
        names server.db.event digest = true → names s.db.event digest = true :=
      ⟨hPassed.collects.content, hPassed.collects.blobs, hPassed.collects.bytes⟩
    refine (hCollects.spares_iff ?_).trans (forall₂_congr fun row _ => imp_congr ?_ ?_)
    · intro event hEvent digest hName _
      exact names_iff.mpr ⟨event, hEvent, hName⟩
    · change (∃ event ∈ s.db.event, _) ↔ _
      simp only [hOthers, List.mem_filter, decide_eq_true_eq, and_assoc]
    · exact names_others_iff hOthers

end Erasing

/-! ### Every state of a run -/

section Run

variable {P} {encodeBlob} {runtime} {server : BlobServer}

theorem numbered_put {db : Database} {step : AddStep} (h : Numbered db.event)
    (hFresh : step.FreshId db) (hPositive : 0 < step.row.id) :
    Numbered (step.run runtime db).event := by
  rcases step.run_cases runtime db with hRun | ⟨derived, tombstones, -, hRun⟩
  · rwa [hRun]
  · rw [hRun]
    constructor
    · rw [stored, List.map_append, List.nodup_append]
      refine ⟨h.ids, List.nodup_singleton _, ?_⟩
      rintro id hId other hOther rfl
      obtain ⟨row, hRow, rfl⟩ := List.mem_map.mp hId
      exact hFresh row hRow (List.mem_singleton.mp hOther)
    · intro event hEvent
      rcases List.mem_append.mp hEvent with hOld | hNew
      · exact h.positive event hOld
      · rw [List.mem_singleton.mp hNew]
        exact hPositive

theorem event_uploadBlob (server : BlobServer) (blob : Option Blob) (body : Bytes) (writes : Bool) :
    (server.uploadBlob P encodeBlob blob body writes).2.db.event = server.db.event := by
  have hSave : ∀ blob, (server.saveBlob P encodeBlob blob).db.event = server.db.event := by
    intro blob
    unfold saveBlob
    split
    · rfl
    · dsimp only
      split
      · rfl
      · rfl
  unfold uploadBlob
  split
  · rfl
  · split <;> exact hSave _

theorem Numbered.run_step (h : Numbered server.db.event) {action : Action}
    (hNew : server.NewIds action) :
    Numbered (server.step P encodeBlob runtime action).db.event := by
  cases action with
  | put step => exact numbered_put h hNew.1 hNew.2
  | upload blob body writes =>
      change Numbered (server.uploadBlob P encodeBlob blob body writes).2.db.event
      rwa [event_uploadBlob]
  | erase identity round =>
      obtain ⟨after, hErase, hEvents, -⟩ := @eraseIdentity_spares_iff P server h identity round
      rw [step, hErase, Option.getD_some, hEvents]
      exact ⟨h.ids.sublist (List.filter_sublist.map _),
        fun event hEvent => h.positive event (List.mem_filter.mp hEvent).1⟩
  | prune failing => exact h

end Run

/-- In every state of a run the erasure of an identity ends, and it spares what the others
need exactly if the rows of their blobs are named by others or not by the identity. Pruning
does exactly if those rows are named by some event. -/
theorem erase_and_prune_spare_iff (actions : List Action)
    (hIds : Along (step P encodeBlob runtime) NewIds empty actions) :
    let server := run (step P encodeBlob runtime) empty actions
    (∀ identity round, ∃ after, server.eraseIdentity identity round = some after ∧
      (Spares P server after ↔ server.SafeToErase P identity)) ∧
    ∀ failing, Spares P server (server.pruneContent failing) ↔ server.SafeToPrune P := by
  intro server
  have hNumbered : Numbered server.db.event :=
    @run_invariant _ _ (step P encodeBlob runtime) NewIds empty actions
      (fun server => Numbered server.db.event) (fun h hNew => h.run_step hNew) ⟨.nil, nofun⟩ hIds
  refine ⟨fun identity round => ?_, pruneContent_spares_iff server⟩
  obtain ⟨after, hErase, -, hIff⟩ := eraseIdentity_spares_iff hNumbered identity round
  exact ⟨after, hErase, hIff⟩

end BlobServer

end Polycentric.Server

namespace Polycentric.Server.BlobSparing

open Proto TableInstance InertDeletes BlobServer

/-! A blob of one byte is uploaded, Alice posts an image of it, and Bob a text. -/

def digestOf (bytes : Bytes) : ContentDigest := ⟨contentDigestTypeSha256, (digest bytes).val⟩

def imageBlob : Blob := ⟨some (digestOf [7]), "image/png", 1⟩

/-- The encoding of every blob message is `[9]`. -/
def encodeBlob (_ : Blob) : Bytes := [9]

def imagePost : Content := ⟨some (.post ⟨"look", none, [⟨[⟨some imageBlob⟩]⟩], none, []⟩)⟩

def textPost : Content := ⟨some (.post ⟨"hello", none, [], none, []⟩)⟩

def imagePrimitives : Primitives := primitives [] [([13], imagePost), ([14], textPost)]

def aliceImage : AddStep where
  now := 0
  row := ⟨1, .of (eventKey Collections.feed "alice") ⟨keyTypeEd25519, "alice".toUTF8.toList⟩,
    some (digestOf [13]), [], [], 0⟩
  decoded := some ⟨[13], imagePost, digestOf [13]⟩

def bobText : AddStep where
  now := 0
  row := ⟨2, .of (eventKey Collections.feed "bob") ⟨keyTypeEd25519, "bob".toUTF8.toList⟩,
    some (digestOf [14]), [], [], 0⟩
  decoded := some ⟨[14], textPost, digestOf [14]⟩

def posted : List BlobServer.Action :=
  [.upload (some imageBlob) [7] true, .put aliceImage, .put bobText]

end Polycentric.Server.BlobSparing

namespace Polycentric.Server.BlobServer

open Runs BlobSparing TableInstance

/-- Erasing Bob, whose text is all that is deleted, spares the image. -/
theorem erase_spares_posted :
    bobText.row ∈ (run (step imagePrimitives encodeBlob runtime) empty posted).db.event ∧
    ∃ after, (run (step imagePrimitives encodeBlob runtime) empty posted).eraseIdentity "bob"
        (fun _ => ⟨1, by decide, [], []⟩) = some after ∧
      Spares imagePrimitives (run (step imagePrimitives encodeBlob runtime) empty posted) after := by
  have hIds : Along (step imagePrimitives encodeBlob runtime) NewIds empty posted := by
    decide +kernel
  obtain ⟨after, hErase, hIff⟩ :=
    (erase_and_prune_spare_iff imagePrimitives encodeBlob runtime posted hIds).1 "bob"
      fun _ => ⟨1, by decide, [], []⟩
  refine ⟨by decide +kernel, after, hErase, hIff.mpr ?_⟩
  have hText : ∀ event ∈ (run (step imagePrimitives encodeBlob runtime) empty posted).db.event,
      event.key.identity = "bob" →
        ∀ row ∈ (run (step imagePrimitives encodeBlob runtime) empty posted).contentBlob,
          event.contentDigest ≠ some row.content := by decide +kernel
  intro row hRow _
  exact Or.inr fun event hEvent hBob => hText event hEvent hBob row hRow

/-- Pruning deletes the row and the bytes of the image that the post shows. -/
theorem prune_deletes_posted :
    Along (step imagePrimitives encodeBlob runtime) NewIds empty posted ∧
      ¬Spares imagePrimitives (run (step imagePrimitives encodeBlob runtime) empty posted)
        ((run (step imagePrimitives encodeBlob runtime) empty posted).pruneContent []) := by
  refine ⟨by decide +kernel, fun hSpares => ?_⟩
  have hGone : ((run (step imagePrimitives encodeBlob runtime) empty posted).pruneContent
      []).filestore = [] := by decide +kernel
  have hStored : (digestOf [7], [7]) ∈
      (run (step imagePrimitives encodeBlob runtime) empty posted).filestore := by decide +kernel
  have hEvent : aliceImage.row ∈ ((run (step imagePrimitives encodeBlob runtime) empty
      posted).pruneContent []).db.event := by decide +kernel
  have hContent : ⟨digestOf [13], [13]⟩ ∈
      (run (step imagePrimitives encodeBlob runtime) empty posted).db.content := by decide +kernel
  have hKept := hSpares.bytes aliceImage.row hEvent _ hStored
    ⟨⟨digestOf [13], [13]⟩, hContent, rfl, imagePost, rfl, imageBlob, List.mem_singleton_self _, rfl⟩
  rw [hGone] at hKept
  cases hKept

end Polycentric.Server.BlobServer
