import Polycentric.Library.Batches
import Polycentric.Server.Bans
import Polycentric.Server.DeleteCompleteness
import Polycentric.Server.NotificationWorker

/-! What `erase_identity` leaves of an identity. The columns that it clears are listed by
hand: `profile` is not among them, and notifications are found by their author and their
recipient. -/
namespace Polycentric.Server

open Proto Result Runs Batches

variable (runtime : Runtime)

/-! ### Runs -/

/-- The database and the table that the notification worker fills. -/
structure Records where
  db : Database
  notification : List NotificationRow

/-- The worker handles messages between the steps of ingestion. A failed insert leaves the
rows before it, and the message comes again. -/
inductive RecordAction where
  | add (step : AddStep)
  | notify (message : EventMessage) (requested : Bool) (blockers : List String) (firstId : Int)
      (inserted : Nat)

namespace Records

def empty : Records := ⟨Database.empty, []⟩

def step (records : Records) : RecordAction → Records
  | .add step => { records with db := step.run runtime records.db }
  | .notify message requested blockers firstId inserted =>
      { records with
        notification := records.notification ++
          (notificationRows message requested blockers firstId).take inserted }

/-- The sequence of the database assigns new ids, from one on. -/
def NewIds (records : Records) : RecordAction → Prop
  | .add step => step.FreshId records.db ∧ 0 < step.row.id
  | .notify _ _ _ _ _ => True

instance (records : Records) : (action : RecordAction) → Decidable (records.NewIds action)
  | .add step => inferInstanceAs (Decidable (step.FreshId records.db ∧ 0 < step.row.id))
  | .notify _ _ _ _ _ => inferInstanceAs (Decidable True)

end Records

/-! ### Erasing -/

/-- The first events of the identity after the mark. -/
def Database.selectErase (db : Database) (identity : String) (after limit : Nat) : List EventRow :=
  batch EventRow.id after limit (db.event.filter fun row => row.key.identity = identity)

/-- `erase_events_batch`: the database after it and the highest id of the batch. Tallies that
are locked by the decay of counts are skipped. -/
def Database.eraseEventsBatch (db : Database) (identity : String) (after limit : Nat)
    (locked : List Nat) : Option (Database × Nat) :=
  let rows := db.selectErase identity after limit
  rows.getLast?.map fun last =>
    let ids := rows.map EventRow.id
    let erased := db.eraseEvents ids
    let tallies := db.derived.reactionTally.filter fun tally =>
      !ids.contains tally.eventId || locked.contains tally.eventId
    ({ erased with derived := { erased.derived with reactionTally := tallies } }, last.id)

/-- The notifications that `erase_derived` deletes. -/
def eraseNotifications (identity : String) (rows : List NotificationRow) : List NotificationRow :=
  rows.filter fun row => !(row.fromIdentity = identity || row.toIdentity = identity)

/-- `erase_identity`. Every batch erases an event, so one round more than there are events
is enough. -/
def eraseIdentity (records : Records) (identity : String) (locks : Nat → List Nat) :
    Option Records :=
  (sweep (fun round after db => db.eraseEventsBatch identity after eraseBatch (locks round))
    (records.db.event.length + 1) 0 records.db).map fun db =>
      ⟨db.eraseDerived, eraseNotifications identity records.notification⟩

/-- No row of a derived table has an erased event as its own or refers to it, and no
notification names the identity. -/
structure Erased (before after : Records) (identity : String) : Prop where
  rows : ∀ event ∈ before.db.event, event.key.identity = identity →
    ∀ row ∈ after.db.derived.rows, ¬row.Mentions event.id
  notifications : ∀ row ∈ after.notification, ¬row.Names identity

/-- The identity has no profile, and nobody asked a third for a verification of its
claims. -/
structure Erasable (records : Records) (identity : String) : Prop where
  profile : ∀ row ∈ records.db.derived.profile, row.identity ≠ identity
  requests : ∀ row ∈ records.notification,
    row.kind = NotificationKind.verificationRequest.value →
      (∃ key, row.targetKey = some key ∧ key.identity = identity) →
        row.fromIdentity = identity ∨ row.toIdentity = identity

/-! ### What a run keeps -/

/-- A row with an identity is by an event of that identity. -/
def Database.Owned (db : Database) : Prop :=
  ∀ row ∈ db.derived.rows, ∀ owner, row.identity = some owner →
    ∃ event ∈ db.event, event.id = row.eventId ∧ event.key.identity = owner

/-- What holds in every state of a run: the events have positive ids of their own, and
notifications come from the worker. -/
structure Records.Regular (records : Records) : Prop where
  db : records.db.Regular
  positive : ∀ row ∈ records.db.event, 0 < row.id
  owned : records.db.Owned
  notification : ∀ row ∈ records.notification, row.Related

section Regular

variable {runtime} {records : Records} {db : Database} {step : AddStep}

theorem Records.regular_empty : Records.empty.Regular where
  db := .empty
  positive := nofun
  owned := nofun
  notification := nofun

/-- A step adds its own row at most. -/
theorem AddStep.mem_event_run {row : EventRow} (hRow : row ∈ (step.run runtime db).event) :
    row ∈ db.event ∨ row = step.row := by
  rcases step.run_cases runtime db with hRun | ⟨derived, tombstones, hStores, hRun⟩
  · rw [hRun] at hRow
    exact Or.inl hRow
  · rw [hRun] at hRow
    simpa [stored] using hRow

theorem Database.Owned.run_step (h : db.Owned) : (step.run runtime db).Owned := by
  refine AddStep.run_induction h ?_
  intro derived tombstones hStores row hRow owner hOwner
  have hOld : row ∈ db.derived.rows →
      ∃ event ∈ db.event ++ [step.row], event.id = row.eventId ∧ event.key.identity = owner := by
    intro hMem
    obtain ⟨event, hEvent, hEq⟩ := h row hMem owner hOwner
    exact ⟨event, List.mem_append_left _ hEvent, hEq⟩
  rcases hStores.derived with ⟨-, hSame⟩ | ⟨body, -, hUpdate⟩
  · rw [stored, hSame] at hRow
    exact hOld hRow
  · rcases updateCache_rows hUpdate row hRow with hMem | hBrought
    · exact hOld hMem
    · exact ⟨step.row, List.mem_append_right _ (List.mem_singleton_self _), hBrought.eventId.symm,
        (hBrought.identity owner hOwner).symm⟩

/-- Ids stay apart as events and notifications come in. -/
theorem Records.Regular.run_step (h : records.Regular) {action : RecordAction}
    (hNew : records.NewIds action) : (records.step runtime action).Regular := by
  cases action with
  | add step =>
      refine ⟨h.db.run_step hNew.1, ?_, h.owned.run_step, h.notification⟩
      intro row hRow
      rcases step.mem_event_run hRow with hOld | rfl
      · exact h.positive row hOld
      · exact hNew.2
  | notify message requested blockers firstId inserted =>
      refine ⟨h.db, h.positive, h.owned, ?_⟩
      intro row hRow
      rcases List.mem_append.mp hRow with hOld | hInserted
      · exact h.notification row hOld
      · exact related_of_mem_notificationRows (List.mem_of_mem_take hInserted)

end Regular

/-! ### The loop -/

section Loop

variable {identity : String} {after limit last : Nat} {locked : List Nat} {before db db' : Database}

/-- A row of a table whose columns `erase_events_batch` clears whatever is locked. -/
def DerivedRow.IsListed (row : DerivedRow) : Prop :=
  row.table ≠ .profile ∧ row.table ≠ .reactionTally

/-- A batch takes the events of the identity in the order of their ids, up to the last one,
and clears the listed rows that mention them. -/
structure BatchErases (identity : String) (after : Nat) (db db' : Database) (last : Nat) :
    Prop where
  later : after < last
  shorter : db'.event.length < db.event.length
  events : db'.event = db.event.filter fun event =>
    !(event.key.identity = identity && after < event.id && event.id ≤ last)
  rows : ∀ row ∈ db'.derived.rows, row ∈ db.derived.rows
  cleared : ∀ row ∈ db'.derived.rows, row.IsListed → ∀ event ∈ db.event,
    event.key.identity = identity → after < event.id → event.id ≤ last → ¬row.Mentions event.id
  profile : db'.derived.profile = db.derived.profile

/-- Rows are kept that neither belong to an erased event nor refer to one. -/
theorem erase_referring {α : Type} {tables : DerivedTables} {ids : List Nat} {rows : List α}
    (view : α → DerivedRow) (post : α → Nat) (hPost : ∀ row, (view row).post = some (post row))
    (hRows : ∀ row ∈ rows, view row ∈ tables.rows) :
    ∀ row ∈ rows.filter fun row => !ids.contains (view row).eventId && !ids.contains (post row),
      view row ∈ tables.rows ∧ ((view row).IsListed → ∀ id ∈ ids, ¬(view row).Mentions id) := by
  intro row hMem
  obtain ⟨hOld, hKept⟩ := List.mem_filter.mp hMem
  simp only [Bool.and_eq_true, Bool.not_eq_true'] at hKept
  refine ⟨hRows row hOld, fun _ id hId => ?_⟩
  rintro (rfl | hRefers)
  · simp [hId] at hKept
  · obtain rfl : post row = id := Option.some.inj ((hPost row).symm.trans hRefers)
    simp [hId] at hKept

/-- A row that refers to no post is kept unless it belongs to an erased event. -/
theorem erase_own {α : Type} {tables : DerivedTables} {ids : List Nat} {rows : List α}
    (view : α → DerivedRow) (hPost : ∀ row, (view row).post = none)
    (hRows : ∀ row ∈ rows, view row ∈ tables.rows) :
    ∀ row ∈ rows.filter fun row => !ids.contains (view row).eventId,
      view row ∈ tables.rows ∧ ((view row).IsListed → ∀ id ∈ ids, ¬(view row).Mentions id) := by
  intro row hMem
  obtain ⟨hOld, hKept⟩ := List.mem_filter.mp hMem
  refine ⟨hRows row hOld, fun _ id hId => ?_⟩
  rintro (rfl | hRefers)
  · simp [hId] at hKept
  · rw [hPost] at hRefers
    cases hRefers

/-- What is left of the cache tables when the ids are cleared, with any tallies of before. -/
theorem eraseCaches_rows {tables : DerivedTables} {ids : List Nat} {tallies : List ReactionTallyRow}
    (hTallies : ∀ tally ∈ tallies, tally ∈ tables.reactionTally) :
    ∀ row ∈ { Database.eraseCaches tables ids with reactionTally := tallies }.rows,
      row ∈ tables.rows ∧ (row.IsListed → ∀ id ∈ ids, ¬row.Mentions id) := by
  obtain ⟨hTally, hReaction, hQuote, hReply, hRepost, hFollow, hBlock, hProfile⟩ :=
    DerivedTables.forall_rows.mp fun row (hRow : row ∈ tables.rows) => hRow
  rw [DerivedTables.forall_rows]
  refine ⟨?_, ?_, ?_, ?_, ?_, ?_, ?_, ?_⟩
  · intro tally hMem
    exact ⟨hTally tally (hTallies tally hMem), fun hListed => absurd rfl hListed.2⟩
  · exact erase_referring ReactionRow.view ReactionRow.onPost (fun _ => rfl) hReaction
  · exact erase_referring (ReferenceRow.view .quote) ReferenceRow.post (fun _ => rfl) hQuote
  · exact erase_referring (ReferenceRow.view .reply) ReferenceRow.post (fun _ => rfl) hReply
  · exact erase_referring (ReferenceRow.view .repost) ReferenceRow.post (fun _ => rfl) hRepost
  · exact erase_own FollowRow.view (fun _ => rfl) hFollow
  · exact erase_own BlockRow.view (fun _ => rfl) hBlock
  · intro row hMem
    exact ⟨hProfile row hMem, fun hListed => absurd rfl hListed.1⟩

theorem mem_selectErase {row : EventRow} (h : row ∈ db.selectErase identity after limit) :
    row ∈ db.event ∧ row.key.identity = identity ∧ after < row.id := by
  obtain ⟨hRow, hAfter⟩ := mem_batch h
  obtain ⟨hStored, hTarget⟩ := List.mem_filter.mp hRow
  exact ⟨hStored, of_decide_eq_true hTarget, hAfter⟩

/-- The batch holds the events of the identity between the marks. -/
theorem mem_selectErase_iff (hIds : (db.event.map EventRow.id).Nodup) {lastRow event : EventRow}
    (hLast : (db.selectErase identity after limit).getLast? = some lastRow)
    (hEvent : event ∈ db.event) :
    event.id ∈ (db.selectErase identity after limit).map EventRow.id ↔
      event.key.identity = identity ∧ after < event.id ∧ event.id ≤ lastRow.id := by
  constructor
  · intro hMem
    obtain ⟨row, hRow, hId⟩ := List.mem_map.mp hMem
    obtain ⟨hStored, hTarget, -⟩ := mem_selectErase hRow
    obtain rfl : row = event := eq_of_column_eq hIds hStored hEvent hId
    exact ⟨hTarget, (place_mem_batch_iff hLast (mem_batch hRow).1).mp hMem⟩
  · rintro ⟨hTarget, hBetween⟩
    exact (place_mem_batch_iff hLast (List.mem_filter.mpr ⟨hEvent, decide_eq_true hTarget⟩)).mpr
      hBetween

/-- The sweep ends when no event of the identity is above its mark. -/
theorem le_of_selectErase_eq_nil (hLimit : 0 < limit)
    (h : db.selectErase identity after limit = []) :
    ∀ event ∈ db.event, event.key.identity = identity → event.id ≤ after := by
  intro event hEvent hTarget
  exact le_of_batch_eq_nil hLimit h (List.mem_filter.mpr ⟨hEvent, decide_eq_true hTarget⟩)

/-- A batch takes the events of the identity up to its last id. -/
theorem eraseEventsBatch_erases (hIds : (db.event.map EventRow.id).Nodup)
    (h : db.eraseEventsBatch identity after limit locked = some (db', last)) :
    BatchErases identity after db db' last := by
  obtain ⟨lastRow, hLast, hEq⟩ := Option.map_eq_some_iff.mp h
  obtain ⟨rfl, rfl⟩ := Prod.mk.inj hEq
  have hBatch := fun {event : EventRow} (hEvent : event ∈ db.event) =>
    mem_selectErase_iff hIds hLast hEvent
  have hSelected : lastRow ∈ db.selectErase identity after limit := List.mem_of_getLast? hLast
  obtain ⟨hStored, -, hAfter⟩ := mem_selectErase hSelected
  have hRows := @eraseCaches_rows db.derived ((db.selectErase identity after limit).map EventRow.id)
    (db.derived.reactionTally.filter fun tally =>
      !((db.selectErase identity after limit).map EventRow.id).contains tally.eventId ||
        locked.contains tally.eventId) fun tally hTally => (List.mem_filter.mp hTally).1
  refine ⟨hAfter, ?_, ?_, fun row hRow => (hRows row hRow).1, ?_, rfl⟩
  · refine List.length_filter_lt_length_iff_exists.mpr ⟨lastRow, hStored, ?_⟩
    simpa using List.mem_map_of_mem hSelected
  · refine List.filter_congr fun event hEvent => ?_
    rw [List.contains_eq_mem, decide_eq_decide.mpr (hBatch hEvent), Bool.decide_and, Bool.decide_and,
      Bool.and_assoc]
  · intro row hRow hListed event hEvent hTarget hAfter hLe
    exact (hRows row hRow).2 hListed event.id ((hBatch hEvent).mpr ⟨hTarget, hAfter, hLe⟩)

/-- What the loop has done when it has passed a mark. -/
structure Swept (identity : String) (before : Database) (after : Nat) (db : Database) : Prop where
  events : db.event = before.event.filter fun event =>
    !(event.key.identity = identity && event.id ≤ after)
  rows : ∀ row ∈ db.derived.rows, row ∈ before.derived.rows
  cleared : ∀ row ∈ db.derived.rows, row.IsListed → ∀ event ∈ before.event,
    event.key.identity = identity → event.id ≤ after → ¬row.Mentions event.id
  profile : db.derived.profile = before.derived.profile

/-- Two parts of the identity's events, one after the other. -/
theorem filter_passed {events : List EventRow} (hLater : after < last) :
    ((events.filter fun event => !(event.key.identity = identity && event.id ≤ after)).filter
      fun event => !(event.key.identity = identity && after < event.id && event.id ≤ last)) =
      events.filter fun event => !(event.key.identity = identity && event.id ≤ last) := by
  rw [List.filter_filter]
  refine List.filter_congr fun event _ => ?_
  by_cases hTarget : event.key.identity = identity
  · rw [Bool.eq_iff_iff]
    simp [hTarget]
    omega
  · simp [hTarget]

theorem filter_start {events : List EventRow} (h : ∀ event ∈ events, 0 < event.id) :
    (events.filter fun event => !(event.key.identity = identity && event.id ≤ 0)) = events := by
  rw [List.filter_eq_self]
  intro event hEvent
  have hPositive := h event hEvent
  simp
  omega

/-- When all events of the identity are passed, those of the others are left. -/
theorem filter_end {events events' : List EventRow}
    (h : events' = events.filter fun event => !(event.key.identity = identity && event.id ≤ after))
    (hAll : ∀ event ∈ events', event.key.identity = identity → event.id ≤ after) :
    events' = events.filter fun event => event.key.identity ≠ identity := by
  rw [h]
  refine List.filter_congr fun event hEvent => ?_
  by_cases hTarget : event.key.identity = identity
  · by_cases hPassed : event.id ≤ after
    · simp [hTarget, hPassed]
    · have hLeft : event ∈ events' := by
        rw [h, List.mem_filter]
        exact ⟨hEvent, by simp [hPassed]⟩
      exact absurd (hAll event hLeft hTarget) hPassed
  · simp [hTarget]

/-- One batch after the other, the sweep takes everything up to its mark. -/
theorem Swept.batch (h : Swept identity before after db)
    (hBatch : BatchErases identity after db db' last) : Swept identity before last db' where
  events := by
    rw [hBatch.events, h.events]
    exact filter_passed hBatch.later
  rows row hRow := h.rows row (hBatch.rows row hRow)
  cleared row hRow hListed event hEvent hTarget hLe := by
    by_cases hPassed : event.id ≤ after
    · exact h.cleared row (hBatch.rows row hRow) hListed event hEvent hTarget hPassed
    · refine hBatch.cleared row hRow hListed event ?_ hTarget (Nat.lt_of_not_le hPassed) hLe
      rw [h.events, List.mem_filter]
      exact ⟨hEvent, by simp [hPassed]⟩
  profile := hBatch.profile.trans h.profile

/-- The loop ends, and it has passed every event of the identity then. -/
theorem sweep_swept (hIds : (before.event.map EventRow.id).Nodup) (locks : Nat → List Nat)
    (h : Swept identity before 0 before) :
    ∃ db', sweep (fun round after db => db.eraseEventsBatch identity after eraseBatch (locks round))
        (before.event.length + 1) 0 before = some db' ∧
      ∃ mark, Swept identity before mark db' ∧
        ∀ event ∈ db'.event, event.key.identity = identity → event.id ≤ mark := by
  have hProcess : ∀ {round mark s s' mark'}, Swept identity before mark s →
      s.eraseEventsBatch identity mark eraseBatch (locks round) = some (s', mark') →
        Swept identity before mark' s' ∧ s'.event.length < s.event.length := by
    intro round mark s s' mark' hSwept hBatch
    have hNodup : (s.event.map EventRow.id).Nodup := by
      rw [hSwept.events]
      exact hIds.sublist (List.filter_sublist.map _)
    have hErases := eraseEventsBatch_erases hNodup hBatch
    exact ⟨hSwept.batch hErases, hErases.shorter⟩
  obtain ⟨db', hSweep, round, mark, hSwept, hNone⟩ := sweep_spec hProcess h (Nat.lt_succ_self _)
  have hNil : db'.selectErase identity mark eraseBatch = [] := by
    simpa [Database.eraseEventsBatch] using hNone
  have hPositive : 0 < eraseBatch := by decide
  exact ⟨db', hSweep, mark, hSwept, le_of_selectErase_eq_nil hPositive hNil⟩

end Loop

/-! ### What is left -/

section Left

variable {identity : String} {records after : Records} {locks : Nat → List Nat}

theorem swept_start (h : ∀ event ∈ records.db.event, 0 < event.id) :
    Swept identity records.db 0 records.db where
  events := (filter_start h).symm
  rows _ hRow := hRow
  cleared _ _ _ event hEvent _ hLe := absurd (h event hEvent) (Nat.not_lt.mpr hLe)
  profile := rfl

/-- After the erasure there is no event of the identity, what its events are mentioned in
is in `profile`, and that table is as before. -/
structure ErasedEvents (identity : String) (before : Database) (after : Database) : Prop where
  events : after.event = before.event.filter fun event => event.key.identity ≠ identity
  rows : ∀ row ∈ after.derived.rows, row ∈ before.derived.rows
  cleared : ∀ row ∈ after.derived.rows, row.table ≠ .profile → ∀ event ∈ before.event,
    event.key.identity = identity → ¬row.Mentions event.id
  profile : after.derived.profile = before.derived.profile

/-- When the sweep has passed every event, none of the identity is left. -/
theorem Swept.eraseDerived {before db : Database} {mark : Nat} (h : Swept identity before mark db)
    (hIds : (before.event.map EventRow.id).Nodup)
    (hAll : ∀ event ∈ db.event, event.key.identity = identity → event.id ≤ mark) :
    ErasedEvents identity before db.eraseDerived := by
  have hOthers := filter_end h.events hAll
  have hGone : ∀ event ∈ db.event, event.key.identity ≠ identity := by
    intro event hEvent
    rw [hOthers] at hEvent
    exact of_decide_eq_true (List.mem_filter.mp hEvent).2
  have hMark : ∀ event ∈ before.event, event.key.identity = identity → event.id ≤ mark := by
    intro event hEvent hTarget
    by_contra hLater
    refine hGone event ?_ hTarget
    rw [h.events, List.mem_filter]
    exact ⟨hEvent, by simp [hLater]⟩
  have hRows : ∀ row ∈ db.eraseDerived.derived.rows, row ∈ db.derived.rows ∧
      (row.table = .reactionTally →
        row.post = none ∧ ∃ event ∈ db.event, event.id = row.eventId) := by
    obtain ⟨hTally, hReaction, hQuote, hReply, hRepost, hFollow, hBlock, hProfile⟩ :=
      DerivedTables.forall_rows.mp fun row (hRow : row ∈ db.derived.rows) => hRow
    rw [DerivedTables.forall_rows]
    refine ⟨?_, fun row hRow => ⟨hReaction row hRow, nofun⟩, fun row hRow => ⟨hQuote row hRow, nofun⟩,
      fun row hRow => ⟨hReply row hRow, nofun⟩, fun row hRow => ⟨hRepost row hRow, nofun⟩,
      fun row hRow => ⟨hFollow row hRow, nofun⟩, fun row hRow => ⟨hBlock row hRow, nofun⟩,
      fun row hRow => ⟨hProfile row hRow, nofun⟩⟩
    intro tally hMem
    obtain ⟨hOld, hEvent⟩ := List.mem_filter.mp hMem
    exact ⟨hTally tally hOld, fun _ => ⟨rfl, by simpa [ReactionTallyRow.view] using hEvent⟩⟩
  refine ⟨hOthers, fun row hRow => h.rows row (hRows row hRow).1, ?_, h.profile⟩
  · intro row hRow hTable event hEvent hTarget hMentions
    obtain ⟨hOld, hCounted⟩ := hRows row hRow
    by_cases hTally : row.table = .reactionTally
    · obtain ⟨hPost, other, hOther, hId⟩ := hCounted hTally
      rcases hMentions with hOwn | hRefers
      · have hStored : other ∈ before.event := by
          rw [h.events] at hOther
          exact (List.mem_filter.mp hOther).1
        obtain rfl := eq_of_column_eq hIds hStored hEvent (hId.trans hOwn)
        exact hGone other hOther hTarget
      · rw [hPost] at hRefers
        cases hRefers
    · exact h.cleared row hOld ⟨hTable, hTally⟩ event hEvent hTarget (hMark event hEvent hTarget)
        hMentions

theorem view_mem_rows {derived : DerivedTables} {row : ProfileRow} (h : row ∈ derived.profile) :
    row.view ∈ derived.rows := by
  obtain ⟨-, -, -, -, -, -, -, hProfile⟩ :=
    DerivedTables.forall_rows.mp fun row (hRow : row ∈ derived.rows) => hRow
  exact hProfile row h

theorem exists_profile {derived : DerivedTables} : ∀ row ∈ derived.rows, row.table = .profile →
    ∃ r ∈ derived.profile, r.view = row := by
  rw [DerivedTables.forall_rows]
  exact ⟨fun _ _ => nofun, fun _ _ => nofun, fun _ _ => nofun, fun _ _ => nofun, fun _ _ => nofun,
    fun _ _ => nofun, fun _ _ => nofun, fun r hr _ => ⟨r, hr, rfl⟩⟩

/-- The erasure ends, whatever rows others have locked, and no event of the identity is left. -/
theorem eraseIdentity_erases (h : records.Regular) (identity : String) (locks : Nat → List Nat) :
    ∃ after, eraseIdentity records identity locks = some after ∧
      ErasedEvents identity records.db after.db ∧
      after.notification = eraseNotifications identity records.notification := by
  obtain ⟨db, hLoop, mark, hSwept, hAll⟩ := sweep_swept h.db.ids locks (swept_start h.positive)
  refine ⟨⟨db.eraseDerived, eraseNotifications identity records.notification⟩, ?_,
    hSwept.eraseDerived h.db.ids hAll, rfl⟩
  rw [eraseIdentity, hLoop]
  rfl

/-- Profiles and requests are all that can be left. -/
theorem erased_iff (h : records.Regular) (hErased : ErasedEvents identity records.db after.db)
    (hNotification : after.notification = eraseNotifications identity records.notification) :
    Erased records after identity ↔ Erasable records identity := by
  constructor
  · intro hAll
    constructor
    · intro row hRow hIdentity
      obtain ⟨event, hEvent, hId, hOwner⟩ := h.owned row.view (view_mem_rows hRow) row.identity rfl
      have hLeft : row.view ∈ after.db.derived.rows := view_mem_rows (hErased.profile ▸ hRow)
      exact hAll.rows event hEvent (hOwner.trans hIdentity) row.view hLeft (Or.inl hId.symm)
    · intro row hRow _ hTarget
      by_contra hOthers
      refine hAll.notifications row ?_ (Or.inr (Or.inr (Or.inr hTarget)))
      rw [hNotification, eraseNotifications, List.mem_filter]
      exact ⟨hRow, by simpa using hOthers⟩
  · intro hErasable
    constructor
    · intro event hEvent hTarget row hRow hMentions
      by_cases hTable : row.table = .profile
      · obtain ⟨profile, hProfile, rfl⟩ := exists_profile row hRow hTable
        rw [hErased.profile] at hProfile
        obtain ⟨owner, hOwner, hId, hSame⟩ := h.owned profile.view (view_mem_rows hProfile) _ rfl
        have hOwn : profile.eventId = event.id := hMentions.resolve_right nofun
        obtain rfl := eq_of_column_eq h.db.ids hOwner hEvent (hId.trans hOwn)
        exact hErasable.profile profile hProfile (hSame.symm.trans hTarget)
      · exact hErased.cleared row hRow hTable event hEvent hTarget hMentions
    · intro row hRow hNames
      rw [hNotification, eraseNotifications, List.mem_filter] at hRow
      obtain ⟨hOld, hKept⟩ := hRow
      have hOthers : row.fromIdentity ≠ identity ∧ row.toIdentity ≠ identity := by simpa using hKept
      have hRelated := h.notification row hOld
      rcases hNames with hFrom | hTo | hTrigger | ⟨key, hKey, hIdentity⟩
      · exact hOthers.1 hFrom
      · exact hOthers.2 hTo
      · exact hOthers.1 (hRelated.trigger.symm.trans hTrigger)
      · by_cases hKind : row.kind = NotificationKind.verificationRequest.value
        · rcases hErasable.requests row hOld hKind ⟨key, hKey, hIdentity⟩ with hFrom | hTo
          · exact hOthers.1 hFrom
          · exact hOthers.2 hTo
        · exact hOthers.2 ((hRelated.target hKind key hKey).symm.trans hIdentity)

end Left

/-- After any run the erasure of an identity ends with its events gone, and it is complete
exactly if the identity had no profile and nobody asked a third to verify its claims. -/
theorem erasure_complete_iff (actions : List RecordAction)
    (hIds : Along (Records.step runtime) Records.NewIds Records.empty actions) (identity : String)
    (locks : Nat → List Nat) :
    let records := run (Records.step runtime) Records.empty actions
    ∃ after, eraseIdentity records identity locks = some after ∧
      after.db.event = records.db.event.filter (fun event => event.key.identity ≠ identity) ∧
      (Erased records after identity ↔ Erasable records identity) := by
  intro records
  have hRegular : records.Regular :=
    run_invariant (fun h hNew => h.run_step hNew) Records.regular_empty hIds
  obtain ⟨after, hErase, hErased, hNotification⟩ := eraseIdentity_erases hRegular identity locks
  exact ⟨after, hErase, hErased.events, erased_iff hRegular hErased hNotification⟩

end Polycentric.Server

namespace Polycentric.Server.Erasure

open Proto InertDeletes

/-! Alice has a post, and Bob follows her. Then she has a profile, and Mallory asks Bob to
verify a claim of hers. -/

def followMessage : EventMessage :=
  ⟨eventKey Collections.socialGraph "bob", ⟨some (.follow "alice")⟩⟩

def requestMessage : EventMessage :=
  ⟨eventKey Collections.verifications "mallory",
    ⟨some (.verificationTarget (some (eventKey Collections.verifications "alice")) ["bob"])⟩⟩

def followed : List RecordAction := [.add alicePost, .add bobFollow, .notify followMessage true [] 1 1]

def aliceProfile : AddStep :=
  addStep 2 Collections.profile "alice" (.profileUpdate ⟨some "Alice", none, none, none, none⟩)

def introduced : List RecordAction :=
  [.add alicePost, .add aliceProfile, .notify requestMessage true [] 1 1]

end Polycentric.Server.Erasure

namespace Polycentric.Server

open Runs Erasure TableInstance

theorem erasure_complete_followed :
    ∃ after, eraseIdentity (run (Records.step runtime) Records.empty followed) "alice"
        (fun _ => [1]) = some after ∧
      Erased (run (Records.step runtime) Records.empty followed) after "alice" := by
  have hIds : Along (Records.step runtime) Records.NewIds Records.empty followed := by
    decide +kernel
  obtain ⟨after, hErase, -, hIff⟩ := erasure_complete_iff runtime followed hIds "alice" fun _ => [1]
  refine ⟨after, hErase, hIff.mpr ⟨by decide +kernel, ?_⟩⟩
  have hKinds : ∀ row ∈ (run (Records.step runtime) Records.empty followed).notification,
      row.kind ≠ NotificationKind.verificationRequest.value := by decide +kernel
  intro row hRow hKind
  exact absurd hKind (hKinds row hRow)

/-- The profile is left, and so is the request. -/
theorem erasure_incomplete_introduced :
    Along (Records.step runtime) Records.NewIds Records.empty introduced ∧
      ∃ after, eraseIdentity (run (Records.step runtime) Records.empty introduced) "alice"
          (fun _ => []) = some after ∧
        (∃ event ∈ (run (Records.step runtime) Records.empty introduced).db.event,
          event.key.identity = "alice" ∧ ∃ row ∈ after.db.derived.rows, row.Mentions event.id) ∧
        ∃ row ∈ after.notification, row.Names "alice" := by
  refine ⟨by decide +kernel, _, rfl, ?_, ?_⟩
  · decide +kernel
  · refine ⟨_, List.mem_singleton_self _, ?_⟩
    exact Or.inr (Or.inr (Or.inr ⟨_, rfl, rfl⟩))

end Polycentric.Server
