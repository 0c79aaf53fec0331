import Polycentric.Server.Ingestion

/-! What is left of a deleted event. A `Delete` clears the derived tables that
belong to the collection of its target, and the target may carry any body and may
still be on its way. A log of the deleted keys runs along with the database. -/
namespace Polycentric.Server

open Proto Result Runs

/-- The row has the event as its own or refers to it. -/
def DerivedRow.Mentions (row : DerivedRow) (id : Nat) : Prop := row.eventId = id ∨ row.post = some id

instance (row : DerivedRow) (id : Nat) : Decidable (row.Mentions id) :=
  inferInstanceAs (Decidable (_ ∨ _))

/-- The rows that a `Delete` clears, by the collection of the deleted event. -/
def Cleared (collection : Int16) (id : Nat) (row : DerivedRow) : Prop :=
  (collection = collectionFeed ∧
    (row.table = .reactionTally ∧ row.eventId = id ∨
      (row.table = .quote ∨ row.table = .reply) ∧ row.Mentions id ∨
      row.table = .reaction ∧ row.post = some id)) ∨
  (collection = collectionProfile ∧ row.table = .profile ∧ row.eventId = id) ∨
  (collection = collectionSocial ∧ (row.table = .follow ∨ row.table = .block) ∧ row.eventId = id) ∨
  (collection = collectionInteractions ∧ row.table = .reaction ∧ row.eventId = id)

instance (collection : Int16) (id : Nat) (row : DerivedRow) : Decidable (Cleared collection id row) :=
  inferInstanceAs (Decidable (_ ∨ _))

/-! ### Clearing the tables, row by row -/

section Clearing

variable {runtime : Runtime} {now : Int} {db : Database} {eventId : Nat} {identity : String}
  {derived : DerivedTables}

theorem exists_view_filter {α : Type} {table : List α} {keep : α → Bool} {view : α → DerivedRow}
    {Kept : DerivedRow → Prop} (h : ∀ r, keep r = true ↔ Kept (view r)) (row : DerivedRow) :
    (∃ r ∈ table.filter keep, view r = row) ↔ (∃ r ∈ table, view r = row) ∧ Kept row := by
  constructor
  · rintro ⟨r, hr, rfl⟩
    obtain ⟨hMem, hKeep⟩ := List.mem_filter.mp hr
    exact ⟨⟨r, hMem, rfl⟩, (h r).mp hKeep⟩
  · rintro ⟨⟨r, hr, rfl⟩, hKept⟩
    exact ⟨r, List.mem_filter.mpr ⟨hr, (h r).mpr hKept⟩, rfl⟩

theorem exists_view_all {α : Type} {table : List α} {view : α → DerivedRow}
    {Kept : DerivedRow → Prop} (h : ∀ r, Kept (view r)) (row : DerivedRow) :
    (∃ r ∈ table, view r = row) ↔ (∃ r ∈ table, view r = row) ∧ Kept row := by
  constructor
  · rintro ⟨r, hr, rfl⟩
    exact ⟨⟨r, hr, rfl⟩, h r⟩
  · exact And.left

/-- A row that no event of the list clears. -/
def Spared (collection : Int16) (ids : List Nat) (row : DerivedRow) : Prop :=
  ∀ id ∈ ids, ¬Cleared collection id row

theorem mem_deletePost_rows (ids : List Nat) (row : DerivedRow) :
    row ∈ (deletePost db ids).rows ↔ row ∈ db.derived.rows ∧ Spared collectionFeed ids row := by
  have hSpared : ∀ r : DerivedRow, Spared collectionFeed ids r ↔ match r.table with
      | .reactionTally => r.eventId ∉ ids
      | .quote | .reply => r.eventId ∉ ids ∧ ∀ id ∈ ids, r.post ≠ some id
      | .reaction => ∀ id ∈ ids, r.post ≠ some id
      | _ => True := by
    intro r
    obtain ⟨table, own, owner, post⟩ := r
    have hOthers : collectionFeed ≠ collectionProfile ∧ collectionFeed ≠ collectionSocial ∧
        collectionFeed ≠ collectionInteractions := by decide
    cases table <;> simp [Spared, Cleared, DerivedRow.Mentions, hOthers] <;> grind
  rw [DerivedTables.mem_rows, DerivedTables.mem_rows]
  simp only [or_and_right]
  refine or_congr (exists_view_filter ?_ row) (or_congr (exists_view_filter ?_ row)
    (or_congr (exists_view_filter ?_ row) (or_congr (exists_view_filter ?_ row)
      (or_congr (exists_view_all ?_ row) (or_congr (exists_view_all ?_ row)
        (or_congr (exists_view_all ?_ row) (exists_view_all ?_ row)))))))
  all_goals
    intro r
    rw [hSpared]
    simp [ReactionTallyRow.view, ReactionRow.view, ReferenceRow.view, FollowRow.view, BlockRow.view,
      ProfileRow.view]
  all_goals grind

theorem mem_deleteProfile_rows (ids : List Nat) (row : DerivedRow) :
    row ∈ (deleteProfile db ids).rows ↔
      row ∈ db.derived.rows ∧ Spared collectionProfile ids row := by
  have hSpared : ∀ r : DerivedRow, Spared collectionProfile ids r ↔
      (r.table = .profile → r.eventId ∉ ids) := by
    intro r
    have hOthers : collectionProfile ≠ collectionFeed ∧ collectionProfile ≠ collectionSocial ∧
        collectionProfile ≠ collectionInteractions := by decide
    simp only [Spared, Cleared, hOthers, false_and, or_false, false_or, true_and, not_and]
    grind
  rw [DerivedTables.mem_rows, DerivedTables.mem_rows]
  simp only [or_and_right]
  refine or_congr (exists_view_all ?_ row) (or_congr (exists_view_all ?_ row)
    (or_congr (exists_view_all ?_ row) (or_congr (exists_view_all ?_ row)
      (or_congr (exists_view_all ?_ row) (or_congr (exists_view_all ?_ row)
        (or_congr (exists_view_all ?_ row) (exists_view_filter ?_ row)))))))
  all_goals
    intro r
    rw [hSpared]
    simp [ReactionTallyRow.view, ReactionRow.view, ReferenceRow.view, FollowRow.view, BlockRow.view,
      ProfileRow.view]

theorem mem_deleteSocial_rows (ids : List Nat) (row : DerivedRow) :
    row ∈ (deleteSocial db ids).rows ↔ row ∈ db.derived.rows ∧ Spared collectionSocial ids row := by
  have hSpared : ∀ r : DerivedRow, Spared collectionSocial ids r ↔
      (r.table = .follow ∨ r.table = .block → r.eventId ∉ ids) := by
    intro r
    have hOthers : collectionSocial ≠ collectionFeed ∧ collectionSocial ≠ collectionProfile ∧
        collectionSocial ≠ collectionInteractions := by decide
    simp only [Spared, Cleared, hOthers, false_and, or_false, false_or, true_and, not_and]
    grind
  rw [DerivedTables.mem_rows, DerivedTables.mem_rows]
  simp only [or_and_right]
  refine or_congr (exists_view_all ?_ row) (or_congr (exists_view_all ?_ row)
    (or_congr (exists_view_all ?_ row) (or_congr (exists_view_all ?_ row)
      (or_congr (exists_view_all ?_ row) (or_congr (exists_view_filter ?_ row)
        (or_congr (exists_view_filter ?_ row) (exists_view_all ?_ row)))))))
  all_goals
    intro r
    rw [hSpared]
    simp [ReactionTallyRow.view, ReactionRow.view, ReferenceRow.view, FollowRow.view, BlockRow.view,
      ProfileRow.view]

/-- The tallies are counted down, but each stays with its event. -/
theorem exists_view_deleteReaction (ids : List Nat) (row : DerivedRow) :
    (∃ r ∈ (deleteReaction runtime db ids).reactionTally, r.view = row) ↔
      ∃ r ∈ db.derived.reactionTally, r.view = row := by
  constructor
  · rintro ⟨r, hr, rfl⟩
    obtain ⟨tally, hTally, rfl⟩ := List.mem_map.mp hr
    refine ⟨tally, hTally, ?_⟩
    split
    · rw [ReactionTallyRow.view, ReactionTallyRow.view, uncountReaction_eventId]
    · rfl
  · rintro ⟨tally, hTally, rfl⟩
    refine ⟨_, List.mem_map_of_mem hTally, ?_⟩
    split
    · rw [ReactionTallyRow.view, ReactionTallyRow.view, uncountReaction_eventId]
    · rfl

theorem mem_deleteReaction_rows (ids : List Nat) (row : DerivedRow) :
    row ∈ (deleteReaction runtime db ids).rows ↔
      row ∈ db.derived.rows ∧ Spared collectionInteractions ids row := by
  have hSpared : ∀ r : DerivedRow, Spared collectionInteractions ids r ↔
      (r.table = .reaction → r.eventId ∉ ids) := by
    intro r
    have hOthers : collectionInteractions ≠ collectionFeed ∧
        collectionInteractions ≠ collectionProfile ∧
        collectionInteractions ≠ collectionSocial := by decide
    simp only [Spared, Cleared, hOthers, false_and, false_or, true_and, not_and]
    grind
  rw [DerivedTables.mem_rows, DerivedTables.mem_rows, exists_view_deleteReaction]
  simp only [or_and_right]
  refine or_congr (exists_view_all ?_ row) (or_congr (exists_view_filter ?_ row)
    (or_congr (exists_view_all ?_ row) (or_congr (exists_view_all ?_ row)
      (or_congr (exists_view_all ?_ row) (or_congr (exists_view_all ?_ row)
        (or_congr (exists_view_all ?_ row) (exists_view_all ?_ row)))))))
  all_goals
    intro r
    rw [hSpared]
    simp [ReactionTallyRow.view, ReactionRow.view, ReferenceRow.view, FollowRow.view, BlockRow.view,
      ProfileRow.view]

/-- A `Delete` leaves exactly the rows that it does not clear. -/
theorem mem_deleteQuery_rows {eventKey : Option EventKey}
    (h : updateCache runtime now db eventId identity (.delete eventKey) = .ok derived) :
    ∃ parts, partsOf eventKey = some parts ∧ ∀ row, row ∈ derived.rows ↔
      row ∈ db.derived.rows ∧ Spared parts.collection ((db.selectEvent parts).map EventRow.id) row := by
  simp only [updateCache, deleteQuery, bind_eq_ok_iff, pure, Except.pure, Except.ok.injEq] at h
  obtain ⟨parts, hParts, rfl⟩ := h
  refine ⟨parts, splitEventKey_eq_ok_iff.mp hParts, fun row => ?_⟩
  split_ifs with hFeed hProfile hSocial hInteractions
  · rw [hFeed]
    exact mem_deletePost_rows _ row
  · rw [hProfile]
    exact mem_deleteProfile_rows _ row
  · rw [hSocial]
    exact mem_deleteSocial_rows _ row
  · rw [hInteractions]
    exact mem_deleteReaction_rows _ row
  · have hSpared : ∀ ids, Spared parts.collection ids row := by
      intro ids id _
      simp [Cleared, hFeed, hProfile, hSocial, hInteractions]
    simp [hSpared]

/-- The body brings a row for its own event. -/
def Brings (db : Database) (body : ContentBody) : Prop :=
  match body with
  | .post _ | .follow _ | .block _ | .profileUpdate _ => True
  | .reaction reaction => ∃ key, partsOf reaction.eventKey = some key ∧ db.selectNotDeletedEvent key ≠ []
  | .repost post => ∃ key, partsOf post = some key ∧ db.selectNotDeletedEvent key ≠ []
  | _ => False

/-- An event has a row of its own if its body brings one. -/
theorem exists_own_row_iff (hNew : eventId ∉ db.derived.mentioned) {body : ContentBody}
    (h : updateCache runtime now db eventId identity body = .ok derived) :
    (∃ row ∈ derived.rows, row.eventId = eventId) ↔ Brings db body := by
  have hOld : ¬∃ row ∈ db.derived.rows, row.eventId = eventId := by
    rintro ⟨row, hRow, hId⟩
    exact hNew (DerivedTables.mem_mentioned.mpr ⟨row, hRow, Or.inl hId⟩)
  cases body with
  | post post =>
      simp only [updateCache, postQuery, bind_eq_ok_iff, pure, Except.pure, Except.ok.injEq] at h
      obtain ⟨quotes, -, replies, -, rfl⟩ := h
      refine iff_of_true ⟨_, DerivedTables.mem_rows.mpr (Or.inl ⟨_, List.mem_append_right _
        (List.mem_singleton_self _), rfl⟩), rfl⟩ trivial
  | follow followee =>
      obtain rfl := Except.ok.inj h
      refine iff_of_true ⟨_, DerivedTables.mem_rows.mpr (Or.inr (Or.inr (Or.inr (Or.inr (Or.inr
        (Or.inl ⟨_, List.mem_append_right _ (List.mem_singleton_self _), rfl⟩)))))), rfl⟩ trivial
  | block blocked =>
      obtain rfl := Except.ok.inj h
      refine iff_of_true ⟨_, DerivedTables.mem_rows.mpr (Or.inr (Or.inr (Or.inr (Or.inr (Or.inr
        (Or.inr (Or.inl ⟨_, List.mem_append_right _ (List.mem_singleton_self _), rfl⟩))))))), rfl⟩
        trivial
  | profileUpdate update =>
      obtain rfl := Except.ok.inj h
      refine iff_of_true ⟨_, DerivedTables.mem_rows.mpr (Or.inr (Or.inr (Or.inr (Or.inr (Or.inr
        (Or.inr (Or.inr ⟨_, List.mem_append_right _ (List.mem_singleton_self _), rfl⟩))))))), rfl⟩
        trivial
  | reaction reaction =>
      simp only [updateCache, reactionQuery, bind_eq_ok_iff, pure, Except.pure, Except.ok.injEq] at h
      obtain ⟨parts, hParts, rfl⟩ := h
      rw [splitEventKey_eq_ok_iff] at hParts
      simp only [Brings, hParts, Option.some.injEq, exists_eq_left']
      constructor
      · rintro ⟨row, hRow, hId⟩ hNone
        refine hOld ⟨row, ?_, hId⟩
        simpa [hNone] using hRow
      · intro hSome
        obtain ⟨post, rest, hPosts⟩ := List.exists_cons_of_ne_nil hSome
        refine ⟨_, DerivedTables.mem_rows.mpr (Or.inr (Or.inl ⟨_, List.mem_append_right _
          (List.mem_map_of_mem (hPosts ▸ List.mem_cons_self)), rfl⟩)), rfl⟩
  | repost post =>
      simp only [updateCache, repostQuery, referenceRows, bind_eq_ok_iff, pure, Except.pure,
        Except.ok.injEq] at h
      obtain ⟨reposts, ⟨parts, hParts, rfl⟩, rfl⟩ := h
      rw [splitEventKey_eq_ok_iff] at hParts
      simp only [Brings, hParts, Option.some.injEq, exists_eq_left']
      constructor
      · rintro ⟨row, hRow, hId⟩ hNone
        refine hOld ⟨row, ?_, hId⟩
        simpa [hNone] using hRow
      · intro hSome
        obtain ⟨target, rest, hPosts⟩ := List.exists_cons_of_ne_nil hSome
        refine ⟨_, DerivedTables.mem_rows.mpr (Or.inr (Or.inr (Or.inr (Or.inr (Or.inl ⟨_,
          List.mem_append_right _ (List.mem_map_of_mem (hPosts ▸ List.mem_cons_self)), rfl⟩))))), rfl⟩
  | delete eventKey =>
      obtain ⟨parts, -, hRows⟩ := mem_deleteQuery_rows h
      refine iff_of_false ?_ not_false
      rintro ⟨row, hRow, hId⟩
      exact hOld ⟨row, ((hRows row).mp hRow).1, hId⟩
  | _ =>
      obtain rfl := Except.ok.inj h
      exact iff_of_false hOld not_false

end Clearing

/-! ### The log of deletions -/

/-- The key that the step deletes, if it is an authorised `Delete` and stored. -/
def AddStep.deletes (runtime : Runtime) (db : Database) (step : AddStep) : Option EventKeyParts :=
  match addEvent runtime step.now db step.row step.decoded with
  | .ok (true, _) => step.authorisedBody.bind deletedKey
  | _ => none

/-- The database, with the keys that were deleted so far. -/
structure DeletionLog where
  db : Database
  deleted : List EventKeyParts

namespace DeletionLog

def empty : DeletionLog := ⟨Database.empty, []⟩

def next (runtime : Runtime) (log : DeletionLog) (step : AddStep) : DeletionLog :=
  ⟨step.run runtime log.db, log.deleted ++ (step.deletes runtime log.db).toList⟩

/-- No row mentions an event whose key was deleted. -/
def Complete (log : DeletionLog) : Prop :=
  ∀ key ∈ log.deleted, ∀ event ∈ log.db.event, event.key = key →
    ∀ row ∈ log.db.derived.rows, ¬row.Mentions event.id

/-- The step leaves nothing of a deleted event behind: a `Delete` finds its target
mentioned only in rows that it clears, and an event that comes after its own
`Delete` brings no row. -/
structure Thorough (runtime : Runtime) (log : DeletionLog) (step : AddStep) : Prop where
  target : ∀ key, step.deletes runtime log.db = some key → ∀ event ∈ log.db.event, event.key = key →
    ∀ row ∈ log.db.derived.rows, row.Mentions event.id → Cleared key.collection event.id row
  late : step.row.key ∈ log.deleted → ∀ derived tombstones,
    step.Stores runtime log.db derived tombstones →
      ∀ body, step.authorisedBody = some body → ¬Brings log.db body

variable {runtime : Runtime} {log : DeletionLog} {step : AddStep} {derived : DerivedTables}
  {tombstones : List ContentDeleteRow}

/-- A deletion that is stored deletes the key that it names. -/
theorem deletes_of_stores (h : step.Stores runtime log.db derived tombstones) :
    step.deletes runtime log.db = step.authorisedBody.bind deletedKey := by
  have hAdd := addEvent_eq_ok_iff.mpr ⟨derived, tombstones,
    AddStep.derivedAfter_eq_ok_iff.mpr h.derived, h.tombstones, h.accepted,
    Or.inr ⟨h.single, rfl, rfl⟩⟩
  rw [AddStep.deletes, hAdd]

/-- A step that stores adds its own deletion to the log. -/
theorem next_of_stores (h : step.Stores runtime log.db derived tombstones) :
    log.next runtime step = ⟨stored log.db step.row step.decoded derived tombstones,
      log.deleted ++ (step.authorisedBody.bind deletedKey).toList⟩ := by
  rw [next, h.run_eq, deletes_of_stores h]

/-- Nothing happens, or the step is stored. -/
theorem next_cases (runtime : Runtime) (log : DeletionLog) (step : AddStep) :
    (log.next runtime step = log ∧ step.deletes runtime log.db = none ∧
      ∀ derived tombstones, ¬step.Stores runtime log.db derived tombstones) ∨
    ∃ derived tombstones, step.Stores runtime log.db derived tombstones := by
  by_cases h : ∃ derived tombstones, step.Stores runtime log.db derived tombstones
  · exact Or.inr h
  · refine Or.inl ?_
    have hNone : ∀ derived tombstones, ¬step.Stores runtime log.db derived tombstones :=
      fun derived tombstones hStores => h ⟨derived, tombstones, hStores⟩
    have hDeletes : step.deletes runtime log.db = none := by
      unfold AddStep.deletes
      split
      · next db' hAdd =>
          obtain ⟨derived, tombstones, hDerived, hTombstones, hRefuses, hResult⟩ :=
            addEvent_eq_ok_iff.mp hAdd
          rcases hResult with ⟨-, hAdded, -⟩ | ⟨hSingle, -, -⟩
          · cases hAdded
          · exact absurd ⟨AddStep.derivedAfter_eq_ok_iff.mp hDerived, hTombstones, hRefuses, hSingle⟩
              (hNone derived tombstones)
      · rfl
    have hRun : step.run runtime log.db = log.db := by
      rcases AddStep.run_cases runtime log.db step with hRun | ⟨derived, tombstones, hStores, -⟩
      · exact hRun
      · exact absurd hStores (hNone derived tombstones)
    exact ⟨by rw [next, hRun, hDeletes, Option.toList_none, List.append_nil], hDeletes, hNone⟩

/-- Every deleted key is found in `content_delete`. The digest determines the
content. -/
structure Sealed (contentOf : ContentDigest → Content) (log : DeletionLog) : Prop where
  regular : log.db.Regular
  known : log.db.ContentKnown contentOf
  tombstoned : ∀ key ∈ log.deleted, log.db.isTombstoned key = true

variable {contentOf : ContentDigest → Content}

theorem Sealed.empty : (DeletionLog.empty).Sealed contentOf where
  regular := .empty
  known := .empty
  tombstoned := fun _ hKey => nomatch hKey

/-- A deletion that is stored leaves its key in `content_delete`, and no later step takes it
out. -/
theorem Sealed.next (h : log.Sealed contentOf) (hFresh : step.Fresh contentOf log.db) :
    (log.next runtime step).Sealed contentOf := by
  rcases next_cases runtime log step with ⟨hSame, -⟩ | ⟨derived, tombstones, hStores⟩
  · rwa [hSame]
  · rw [next_of_stores hStores]
    refine ⟨h.regular.stored hFresh.newId hStores, h.known.stored hFresh hStores, ?_⟩
    intro key hKey
    rcases List.mem_append.mp hKey with hOld | hNew
    · rw [isTombstoned_stored, h.tombstoned key hOld, Bool.true_or]
    · obtain ⟨body, hBody, hDeleted⟩ := Option.bind_eq_some_iff.mp (Option.mem_toList.mp hNew)
      obtain ⟨d, hDecoded, hContent⟩ :=
        Option.bind_eq_some_iff.mp (AddStep.authorisedBody_eq_some_iff.mp hBody).1
      exact h.known.isTombstoned hFresh hStores hDecoded (by rw [hContent]; exact hDeleted)

/-- A row after the step mentions the new event only if the step brought it. -/
theorem Sealed.mentions_new (h : log.Sealed contentOf) (hFresh : step.Fresh contentOf log.db)
    (hStores : step.Stores runtime log.db derived tombstones) {row : DerivedRow}
    (hRow : row ∈ derived.rows) (hMentions : row.Mentions step.row.id) :
    ∃ body, step.authorisedBody = some body ∧ Brings log.db body := by
  have hNew := h.regular.not_mentioned hFresh.newId
  have hOld : row ∉ log.db.derived.rows := fun hMem =>
    hNew (DerivedTables.mem_mentioned.mpr ⟨row, hMem, hMentions⟩)
  rcases hStores.derived with ⟨-, rfl⟩ | ⟨body, hBody, hUpdate⟩
  · exact absurd hRow hOld
  · rcases updateCache_rows hUpdate row hRow with hMem | hBrought
    · exact absurd hMem hOld
    · exact ⟨body, hBody, (exists_own_row_iff hNew hUpdate).mp ⟨row, hRow, hBrought.eventId⟩⟩

/-- A row that mentions an old event is an old row, or it was brought by a
reference that no `Delete` names. -/
theorem Sealed.mentions_old (h : log.Sealed contentOf) (hFresh : step.Fresh contentOf log.db)
    (hStores : step.Stores runtime log.db derived tombstones) {row : DerivedRow}
    (hRow : row ∈ derived.rows) {event : EventRow} (hEvent : event ∈ log.db.event)
    (hMentions : row.Mentions event.id) :
    row ∈ log.db.derived.rows ∨ log.db.isTombstoned event.key = false := by
  rcases hStores.derived with ⟨-, rfl⟩ | ⟨body, hBody, hUpdate⟩
  · exact Or.inl hRow
  · rcases updateCache_rows hUpdate row hRow with hMem | hBrought
    · exact Or.inl hMem
    · rcases hMentions with hOwn | hPost
      · exact absurd (hOwn.symm.trans hBrought.eventId) (hFresh.newId event hEvent)
      · obtain ⟨key, -, post, hSelected, hId⟩ := hBrought.post event.id hPost
        obtain ⟨hTomb, hStored, rfl⟩ := mem_selectNotDeletedEvent.mp hSelected
        obtain rfl := eq_of_column_eq h.regular.ids hStored hEvent hId
        exact Or.inr hTomb

/-- A stored step that deletes a key leaves exactly the rows that are spared. -/
theorem mem_rows_of_deletes (hStores : step.Stores runtime log.db derived tombstones)
    {key : EventKeyParts} (hKey : step.authorisedBody.bind deletedKey = some key) (row : DerivedRow) :
    row ∈ derived.rows ↔ row ∈ log.db.derived.rows ∧
      Spared key.collection ((log.db.selectEvent key).map EventRow.id) row := by
  obtain ⟨body, hBody, hDeleted⟩ := Option.bind_eq_some_iff.mp hKey
  obtain ⟨eventKey, rfl, hParts⟩ := deletedKey_eq_some hDeleted
  rcases hStores.derived with ⟨hNone, -⟩ | ⟨body, hBody', hUpdate⟩
  · rw [hBody] at hNone
    cases hNone
  · obtain rfl := Option.some.inj (hBody.symm.trans hBody')
    obtain ⟨parts, hParts', hRows⟩ := mem_deleteQuery_rows hUpdate
    obtain rfl := Option.some.inj (hParts.symm.trans hParts')
    exact hRows row

/-- A step that stores and leaves the log complete is thorough. -/
theorem thorough_of_complete (h : log.Sealed contentOf) (hFresh : step.Fresh contentOf log.db)
    (hStores : step.Stores runtime log.db derived tombstones)
    (hAfter : (log.next runtime step).Complete) : log.Thorough runtime step := by
  rw [next_of_stores hStores] at hAfter
  refine ⟨?_, ?_⟩
  · intro key hKey event hEvent hEq row hRow hMentions
    by_contra hNotCleared
    rw [deletes_of_stores hStores] at hKey
    have hSpared : Spared key.collection ((log.db.selectEvent key).map EventRow.id) row := by
      intro id hId
      obtain ⟨other, hOther, rfl⟩ := List.mem_map.mp hId
      obtain ⟨hStored, hOtherKey⟩ := List.mem_filter.mp hOther
      rw [decide_eq_true_eq] at hOtherKey
      obtain rfl := eq_of_column_eq h.regular.keys hStored hEvent (hOtherKey.trans hEq.symm)
      exact hNotCleared
    have hKept := (mem_rows_of_deletes hStores hKey row).mpr ⟨hRow, hSpared⟩
    have hLogged : key ∈ log.deleted ++ (step.authorisedBody.bind deletedKey).toList :=
      List.mem_append_right _ (Option.mem_toList.mpr hKey)
    exact hAfter key hLogged event (List.mem_append_left _ hEvent) hEq row hKept hMentions
  · intro hDeleted _ _ _ body hBody hBrings
    rcases hStores.derived with ⟨hNone, -⟩ | ⟨body', hBody', hUpdate⟩
    · rw [hBody] at hNone
      cases hNone
    · obtain rfl := Option.some.inj (hBody.symm.trans hBody')
      obtain ⟨row, hRow, hId⟩ :=
        (exists_own_row_iff (h.regular.not_mentioned hFresh.newId) hUpdate).mpr hBrings
      exact hAfter step.row.key (List.mem_append_left _ hDeleted) step.row
        (List.mem_append_right _ (List.mem_singleton_self _)) rfl row hRow (Or.inl hId)

/-- A thorough step leaves a complete log complete. -/
theorem complete_of_thorough (h : log.Sealed contentOf) (hComplete : log.Complete)
    (hFresh : step.Fresh contentOf log.db) (hStores : step.Stores runtime log.db derived tombstones)
    (hThorough : log.Thorough runtime step) : (log.next runtime step).Complete := by
  rw [next_of_stores hStores]
  intro key hKey event hEvent hEq row hRow hMentions
  rcases List.mem_append.mp hKey with hDeleted | hNew
  · -- The key was deleted before this step.
    rcases List.mem_append.mp hEvent with hOld | hLast
    · rcases h.mentions_old hFresh hStores hRow hOld hMentions with hMem | hTomb
      · exact hComplete key hDeleted event hOld hEq row hMem hMentions
      · rw [hEq, h.tombstoned key hDeleted] at hTomb
        cases hTomb
    · obtain rfl := List.mem_singleton.mp hLast
      obtain ⟨body, hBody, hBrings⟩ := h.mentions_new hFresh hStores hRow hMentions
      exact hThorough.late (hEq ▸ hDeleted) derived tombstones hStores body hBody hBrings
  · -- The step itself deletes the key, so it brings no row.
    have hBind := Option.mem_toList.mp hNew
    obtain ⟨hMem, hSpared⟩ := (mem_rows_of_deletes hStores hBind row).mp hRow
    rcases List.mem_append.mp hEvent with hOld | hLast
    · have hDeletes := (deletes_of_stores hStores).trans hBind
      have hCleared := hThorough.target key hDeletes event hOld hEq row hMem hMentions
      refine hSpared event.id ?_ hCleared
      exact List.mem_map_of_mem (List.mem_filter.mpr ⟨hOld, by simpa using hEq⟩)
    · obtain rfl := List.mem_singleton.mp hLast
      exact h.regular.not_mentioned hFresh.newId
        (DerivedTables.mem_mentioned.mpr ⟨row, hMem, hMentions⟩)

/-- A step keeps the tables clear of deleted events exactly if it is thorough. -/
theorem complete_next_iff (h : log.Sealed contentOf) (hComplete : log.Complete)
    (hFresh : step.Fresh contentOf log.db) :
    (log.next runtime step).Complete ↔ log.Thorough runtime step := by
  rcases next_cases runtime log step with ⟨hSame, hDeletes, hNone⟩ | ⟨derived, tombstones, hStores⟩
  · rw [hSame]
    refine iff_of_true hComplete ⟨fun key hKey => ?_, fun _ derived tombstones hStores => ?_⟩
    · rw [hDeletes] at hKey
      cases hKey
    · exact absurd hStores (hNone derived tombstones)
  · exact ⟨thorough_of_complete h hFresh hStores, complete_of_thorough h hComplete hFresh hStores⟩

end DeletionLog

/-- In a run of `add_event` the tables never mention a deleted event, from its
`Delete` on, exactly if every step is thorough. -/
theorem delete_complete_iff (runtime : Runtime) (contentOf : ContentDigest → Content)
    (steps : List AddStep)
    (hFresh : Along (DeletionLog.next runtime) (fun log step => step.Fresh contentOf log.db) .empty
      steps) :
    Along (DeletionLog.next runtime) (fun log step => (log.next runtime step).Complete) .empty
        steps ↔
      Along (DeletionLog.next runtime) (DeletionLog.Thorough runtime) .empty steps :=
  along_kept_iff DeletionLog.Sealed.next DeletionLog.complete_next_iff .empty
    (fun _ hKey => nomatch hKey) hFresh

/-! Alice deletes a post, which bob may have reposted. -/

namespace DeleteCompleteness

open InertDeletes TableInstance

def bobRepost : AddStep :=
  addStep 3 Collections.feed "bob" (.repost (some (eventKey Collections.feed "alice")))

def aliceDeletion : AddStep where
  now := 0
  row := ⟨5, .of { eventKey Collections.feed "alice" with sequence := 2 }
    ⟨keyTypeEd25519, "alice".toUTF8.toList⟩, none, [], [], 0⟩
  decoded := some ⟨[], ⟨some (.delete (some (eventKey Collections.feed "alice")))⟩,
    ⟨contentDigestTypeSha256, [5]⟩⟩

/-- The contents of the three events, by digest. -/
def contentOf (digest : ContentDigest) : Content :=
  ((([alicePost, bobRepost, aliceDeletion].filterMap AddStep.decoded).find?
    fun d => d.digest = digest).map DecodedContent.content).getD ⟨none⟩

theorem fresh {log : DeletionLog} {step : AddStep} (hId : step.FreshId log.db)
    (hContent : ∀ d ∈ step.decoded.toList, d.content = contentOf d.digest) :
    step.Fresh contentOf log.db :=
  ⟨hId, fun d hDecoded => hContent d (Option.mem_toList.mpr hDecoded)⟩

/-- The post is stored. -/
def log : DeletionLog := DeletionLog.empty.next runtime alicePost

theorem aliceDeletion_thorough : log.Thorough runtime aliceDeletion where
  target := by
    intro key hKey
    have hAll : ∀ key ∈ (aliceDeletion.deletes runtime log.db).toList, ∀ event ∈ log.db.event,
        event.key = key → ∀ row ∈ log.db.derived.rows, row.Mentions event.id →
          Cleared key.collection event.id row := by
      decide +kernel
    exact hAll key (Option.mem_toList.mpr hKey)
  late := by
    intro hDeleted
    have hNone : aliceDeletion.row.key ∉ log.deleted := by decide +kernel
    exact absurd hDeleted hNone

end DeleteCompleteness

open InertDeletes DeleteCompleteness TableInstance

/-- A post without reposts is deleted as a whole. -/
theorem delete_complete_post :
    Along (DeletionLog.next runtime) (fun log step => (log.next runtime step).Complete) .empty
      [alicePost, aliceDeletion] := by
  refine (delete_complete_iff runtime contentOf [alicePost, aliceDeletion]
    ⟨fresh (by decide) (by decide), fresh (by decide +kernel) (by decide +kernel), trivial⟩).mpr
    ⟨⟨?_, fun hDeleted => nomatch hDeleted⟩, aliceDeletion_thorough, trivial⟩
  intro key hKey
  have hNone : alicePost.deletes runtime DeletionLog.empty.db = none := by decide +kernel
  rw [hNone] at hKey
  cases hKey

/-- A repost outlives the post. -/
theorem delete_incomplete_repost :
    Along (DeletionLog.next runtime) (fun log step => step.Fresh contentOf log.db) .empty
        [alicePost, bobRepost, aliceDeletion] ∧
      ¬Along (DeletionLog.next runtime) (fun log step => (log.next runtime step).Complete) .empty
        [alicePost, bobRepost, aliceDeletion] := by
  refine ⟨⟨fresh (by decide) (by decide), fresh (by decide +kernel) (by decide +kernel),
    fresh (by decide +kernel) (by decide +kernel), trivial⟩, fun h => ?_⟩
  have hLast := h.2.2.1
  unfold DeletionLog.Complete at hLast
  exact absurd hLast (by decide +kernel)

end Polycentric.Server
