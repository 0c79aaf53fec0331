import Polycentric.Server.LedgerRefinement

/-! The order of arrival. A row of the derived tables depends on what came before
its event, and on what comes after it. Some sets of events leave the same rows in
every order, and here is exactly which. -/
namespace Polycentric.Server

open Proto Result Runs

/-- No event of the set drops a row that another one brings on its own. A row that
refers to an event of the set is there in no order: a `Delete` of the set stops it
when it comes before the row, and drops it when it comes after. -/
structure OrderFree (events : List ArrivedEvent) : Prop where
  unreferenced : ∀ event ∈ events, event.wellFormed = true → ∀ row ∈ event.rows, row.post = none →
    ∀ other ∈ events, other.wellFormed = true → other.key ≠ event.key → other.drops row = false
  referenced : ∀ event ∈ events, event.wellFormed = true → ∀ row ∈ event.rows,
    ∀ post ∈ events, post.wellFormed = true → post.key ≠ event.key → row.post = some post.key →
    ∃ deletion ∈ events, deletion.wellFormed = true ∧ deletion.tombstone = some post.key ∧
      (deletion.drops row = true ∨ deletion.key = post.key)

instance (events : List ArrivedEvent) : Decidable (OrderFree events) :=
  decidable_of_iff
    ((∀ event ∈ events, event.wellFormed = true → ∀ row ∈ event.rows, row.post = none →
      ∀ other ∈ events, other.wellFormed = true → other.key ≠ event.key → other.drops row = false) ∧
    ∀ event ∈ events, event.wellFormed = true → ∀ row ∈ event.rows,
      ∀ post ∈ events, post.wellFormed = true → post.key ≠ event.key → row.post = some post.key →
      ∃ deletion ∈ events, deletion.wellFormed = true ∧ deletion.tombstone = some post.key ∧
        (deletion.drops row = true ∨ deletion.key = post.key))
    ⟨fun h => ⟨h.1, h.2⟩, fun h => ⟨h.unreferenced, h.referenced⟩⟩

section Ledger

variable {events front back order order₁ order₂ : List ArrivedEvent} {event : ArrivedEvent}
  {key : EventKeyParts} {row : KeyedRow}

theorem nodup_of_perm (hKeys : (events.map ArrivedEvent.key).Nodup) (hPerm : order.Perm events) :
    (order.map ArrivedEvent.key).Nodup :=
  (hPerm.map ArrivedEvent.key).nodup_iff.mpr hKeys

theorem key_ne_middle (hKeys : ((front ++ event :: back).map ArrivedEvent.key).Nodup)
    {other : ArrivedEvent} (hOther : other ∈ front ++ back) : other.key ≠ event.key := by
  rw [List.map_append, List.map_cons, List.nodup_middle, List.nodup_cons, ← List.map_append] at hKeys
  intro hKey
  exact hKeys.1 (hKey ▸ List.mem_map_of_mem hOther)

theorem mem_rest {other : ArrivedEvent} (hOther : other ∈ front ++ event :: back)
    (hApart : other.key ≠ event.key) : other ∈ front ++ back := by
  rw [List.mem_append, List.mem_cons] at hOther
  rcases hOther with hFront | rfl | hBack
  · exact List.mem_append_left _ hFront
  · exact absurd rfl hApart
  · exact List.mem_append_right _ hBack

/-- The row of an event that the list splits at. -/
theorem mem_rows_split (hKeys : ((front ++ event :: back).map ArrivedEvent.key).Nodup)
    (hForm : event.wellFormed = true) (hRow : row ∈ event.rows) :
    row ∈ (ledgerOf (front ++ event :: back)).rows ↔ (ledgerOf front).Admits row ∧
      ∀ e ∈ back, e.wellFormed = true → e.drops row = false := by
  rw [mem_rows_ledgerOf hKeys]
  constructor
  · rintro ⟨front', event', back', hEq, -, hRow', hAdmits, hBack⟩
    have hNodup : (front ++ event :: back).Nodup := hKeys.of_map
    have hSame : event' = event := by
      apply List.inj_on_of_nodup_map hKeys
      · rw [hEq]
        simp
      · simp
      · rw [← ArrivedEvent.rows_event hRow', ← ArrivedEvent.rows_event hRow]
    subst hSame
    have hApart := List.nodup_middle.mp hNodup
    rw [List.nodup_cons, List.mem_append, not_or] at hApart
    obtain ⟨rfl, -, rfl⟩ :=
      (List.append_cons_inj_of_notMem hApart.1.1 hApart.1.2).mp hEq
    exact ⟨hAdmits, hBack⟩
  · rintro ⟨hAdmits, hBack⟩
    exact ⟨front, event, back, rfl, hForm, hRow, hAdmits, hBack⟩

theorem admits_of_unreferenced (h : row.post = none) (ledger : Ledger) : ledger.Admits row := by
  simp [Ledger.Admits, h]

theorem admits_iff_resolves (h : row.post = some key) (ledger : Ledger) :
    ledger.Admits row ↔ ledger.Resolves key := by
  simp [Ledger.Admits, h]

/-- A row of an order-free set that is there after one order is there after all. -/
theorem OrderFree.mem_rows (h : OrderFree events) (hKeys : (events.map ArrivedEvent.key).Nodup)
    (h₁ : order₁.Perm events) (h₂ : order₂.Perm events) (hRow : row ∈ (ledgerOf order₁).rows) :
    row ∈ (ledgerOf order₂).rows := by
  have hKeys₁ := nodup_of_perm hKeys h₁
  have hKeys₂ := nodup_of_perm hKeys h₂
  obtain ⟨front, event, back, rfl, hForm, hOwn, hAdmits, hBack⟩ := (mem_rows_ledgerOf hKeys₁).mp hRow
  have hEvent : event ∈ events := h₁.subset (by simp)
  cases hPost : row.post with
  | none =>
      obtain ⟨front₂, back₂, rfl⟩ := List.append_of_mem (h₂.symm.subset hEvent)
      rw [mem_rows_split hKeys₂ hForm hOwn]
      refine ⟨admits_of_unreferenced hPost _, fun other hOther hOtherForm => ?_⟩
      refine h.unreferenced event hEvent hForm row hOwn hPost other
        (h₂.subset (by simp [hOther])) hOtherForm ?_
      exact key_ne_middle hKeys₂ (List.mem_append_right _ hOther)
  | some key =>
      -- In the first order the post came before the row and no `Delete` did, so
      -- the `Delete` of the post came after the row and dropped it.
      exfalso
      obtain ⟨hStored, hAlive⟩ := (admits_iff_resolves hPost _).mp hAdmits
      have hKeysFront : (front.map ArrivedEvent.key).Nodup := by
        rw [List.map_append, List.nodup_append] at hKeys₁
        exact hKeys₁.1
      obtain ⟨post, hPostMem, hPostForm, rfl⟩ := mem_events_ledgerOf.mp hStored
      rw [mem_tombstones_ledgerOf hKeysFront] at hAlive
      have hOther : post.key ≠ event.key := key_ne_middle hKeys₁ (List.mem_append_left _ hPostMem)
      obtain ⟨deletion, hDeletion, hDeletionForm, hTombstone, hClears⟩ :=
        h.referenced event hEvent hForm row hOwn post (h₁.subset (by simp [hPostMem])) hPostForm
          hOther hPost
      have hLater : deletion ∈ back := by
        have hMem := h₁.symm.subset hDeletion
        rw [List.mem_append, List.mem_cons] at hMem
        rcases hMem with hFront | rfl | hBackMem
        · exact absurd ⟨deletion, hFront, hDeletionForm, hTombstone⟩ hAlive
        · rw [ArrivedEvent.tombstone_eq_none hOwn] at hTombstone
          cases hTombstone
        · exact hBackMem
      rcases hClears with hDrops | hSelf
      · rw [hBack deletion hLater hDeletionForm] at hDrops
        cases hDrops
      · rw [List.map_append, List.nodup_append] at hKeys₁
        exact hKeys₁.2.2 post.key (List.mem_map_of_mem hPostMem) deletion.key
          (List.mem_map_of_mem (List.mem_cons_of_mem _ hLater)) hSelf.symm

/-- Two orders that disagree about a row, if an event drops the row of another. -/
theorem drops_eq_false (hKeys : (events.map ArrivedEvent.key).Nodup)
    (h : ∀ order₁ order₂, order₁.Perm events → order₂.Perm events →
      (ledgerOf order₁).rows = (ledgerOf order₂).rows)
    (hEvent : event ∈ events) (hForm : event.wellFormed = true) (hRow : row ∈ event.rows)
    (hPost : row.post = none) {other : ArrivedEvent} (hOther : other ∈ events)
    (hOtherForm : other.wellFormed = true) (hApart : other.key ≠ event.key) :
    other.drops row = false := by
  obtain ⟨front, back, rfl⟩ := List.append_of_mem hEvent
  have hRest : other ∈ front ++ back := mem_rest hOther hApart
  have hLast : (front ++ back ++ [event]).Perm (front ++ event :: back) := by
    rw [List.append_assoc]
    exact (List.perm_append_singleton event back).append_left front
  have hFirst : (event :: (front ++ back)).Perm (front ++ event :: back) := List.perm_middle.symm
  have hThere : row ∈ (ledgerOf (front ++ back ++ [event])).rows := by
    rw [mem_rows_split (nodup_of_perm hKeys hLast) hForm hRow]
    exact ⟨admits_of_unreferenced hPost _, by simp⟩
  rw [h _ _ hLast hFirst] at hThere
  have hNone := (mem_rows_split (nodup_of_perm hKeys hFirst : ((([] : List ArrivedEvent) ++
    event :: (front ++ back)).map ArrivedEvent.key).Nodup) hForm hRow).mp hThere
  exact hNone.2 other hRest hOtherForm

/-- Two orders that disagree about a row, if its post is not deleted with it. -/
theorem exists_deletion (hKeys : (events.map ArrivedEvent.key).Nodup)
    (h : ∀ order₁ order₂, order₁.Perm events → order₂.Perm events →
      (ledgerOf order₁).rows = (ledgerOf order₂).rows)
    (hEvent : event ∈ events) (hForm : event.wellFormed = true) (hRow : row ∈ event.rows)
    {post : ArrivedEvent} (hPost : post ∈ events) (hPostForm : post.wellFormed = true)
    (hApart : post.key ≠ event.key) (hRefers : row.post = some post.key) :
    ∃ deletion ∈ events, deletion.wellFormed = true ∧ deletion.tombstone = some post.key ∧
      (deletion.drops row = true ∨ deletion.key = post.key) := by
  obtain ⟨front, back, rfl⟩ := List.append_of_mem hEvent
  by_contra hNone
  have hStays : ∀ deletion ∈ front ++ back, deletion.wellFormed = true →
      deletion.tombstone = some post.key → deletion.drops row = false ∧ deletion.key ≠ post.key := by
    intro deletion hMem hDeletionForm hTombstone
    have hClears : ¬(deletion.drops row = true ∨ deletion.key = post.key) := fun hClears =>
      hNone ⟨deletion, List.perm_middle.symm.subset (List.mem_cons_of_mem _ hMem), hDeletionForm,
        hTombstone, hClears⟩
    rwa [not_or, Bool.not_eq_true] at hClears
  -- All that does not delete the post, then the event, then what deletes the post.
  let early := (front ++ back).filter fun e => e.tombstone ≠ some post.key
  let late := (front ++ back).filter fun e => !decide (e.tombstone ≠ some post.key)
  have hLate : (early ++ event :: late).Perm (front ++ event :: back) := by
    refine List.perm_middle.trans (List.Perm.trans ?_ List.perm_middle.symm)
    exact (List.filter_append_perm _ _).cons event
  have hFirst : (event :: (front ++ back)).Perm (front ++ event :: back) := List.perm_middle.symm
  have hPostEarly : post ∈ early := by
    have hMem : post ∈ front ++ back := mem_rest hPost hApart
    refine List.mem_filter.mpr ⟨hMem, decide_eq_true fun hTombstone => ?_⟩
    exact (hStays post hMem hPostForm hTombstone).2 rfl
  have hKeysEarly : (early.map ArrivedEvent.key).Nodup := by
    have hKeysLate := nodup_of_perm hKeys hLate
    rw [List.map_append, List.nodup_append] at hKeysLate
    exact hKeysLate.1
  have hThere : row ∈ (ledgerOf (early ++ event :: late)).rows := by
    rw [mem_rows_split (nodup_of_perm hKeys hLate) hForm hRow, admits_iff_resolves hRefers]
    refine ⟨⟨mem_events_ledgerOf.mpr ⟨post, hPostEarly, hPostForm, rfl⟩, ?_⟩, ?_⟩
    · rw [mem_tombstones_ledgerOf hKeysEarly]
      rintro ⟨deletion, hDeletion, -, hTombstone⟩
      exact of_decide_eq_true (List.mem_filter.mp hDeletion).2 hTombstone
    · intro deletion hDeletion hDeletionForm
      obtain ⟨hMem, hTombstone⟩ := List.mem_filter.mp hDeletion
      rw [Bool.not_eq_true', decide_eq_false_iff_not, not_not] at hTombstone
      exact (hStays deletion hMem hDeletionForm hTombstone).1
  rw [h _ _ hLate hFirst] at hThere
  have hResolved := (mem_rows_split (nodup_of_perm hKeys hFirst : ((([] : List ArrivedEvent) ++
    event :: (front ++ back)).map ArrivedEvent.key).Nodup) hForm hRow).mp hThere
  exact Finset.notMem_empty _ ((admits_iff_resolves hRefers _).mp hResolved.1).1

/-- All orders leave the same rows exactly if the set is order-free. -/
theorem orderFree_iff (hKeys : (events.map ArrivedEvent.key).Nodup) :
    OrderFree events ↔ ∀ order₁ order₂, order₁.Perm events → order₂.Perm events →
      (ledgerOf order₁).rows = (ledgerOf order₂).rows := by
  constructor
  · intro h order₁ order₂ h₁ h₂
    rw [Multiset.Nodup.ext (nodup_rows_ledgerOf (nodup_of_perm hKeys h₁))
      (nodup_rows_ledgerOf (nodup_of_perm hKeys h₂))]
    intro row
    exact ⟨h.mem_rows hKeys h₁ h₂, h.mem_rows hKeys h₂ h₁⟩
  · intro h
    refine ⟨?_, ?_⟩
    · intro event hEvent hForm row hRow hPost other hOther hOtherForm hApart
      exact drops_eq_false hKeys h hEvent hForm hRow hPost hOther hOtherForm hApart
    · intro event hEvent hForm row hRow post hPost hPostForm hApart hRefers
      exact exists_deletion hKeys h hEvent hForm hRow hPost hPostForm hApart hRefers

end Ledger

/-- The steps store the events, in an order of their own and under new ids. -/
structure ArrivesAs (runtime : Runtime) (events : List ArrivedEvent) (steps : List AddStep) : Prop where
  events : (steps.map AddStep.event).Perm events
  freshIds : Along (AddStep.run runtime) (fun db step => step.FreshId db) Database.empty steps

/-- What the database and the digests promise of the events: none of them is
refused, and equal digests belong to equal contents. -/
structure Ingestible (runtime : Runtime) (contentOf : ContentDigest → Content)
    (events : List ArrivedEvent) : Prop where
  accepted : ∀ event ∈ events, ∀ row : EventRow, row.key = event.key →
    runtime.refuses row (event.decoded.map DecodedContent.content) = false
  content : ∀ event ∈ events, ∀ d, event.decoded = some d → d.content = contentOf d.digest

section Database

variable {runtime : Runtime} {contentOf : ContentDigest → Content} {events : List ArrivedEvent}
  {steps : List AddStep}

/-- The database after an arrival holds the ledger of its order, with exact counts. -/
theorem ArrivesAs.ledger_run (h : ArrivesAs runtime events steps)
    (hIngestible : Ingestible runtime contentOf events) :
    (run (AddStep.run runtime) Database.empty steps).ledger = ledgerOf (steps.map AddStep.event) ∧
      (run (AddStep.run runtime) Database.empty steps).Tallied := by
  have hEvent : ∀ step ∈ steps, step.event ∈ events := fun step hStep =>
    h.events.subset (List.mem_map_of_mem hStep)
  have hAlong := h.freshIds.and_forall hEvent
  have hFresh : ∀ {db : Database} {step : AddStep}, step.FreshId db ∧ step.event ∈ events →
      step.Fresh contentOf db := fun hStep => ⟨hStep.1, hIngestible.content _ hStep.2⟩
  have hKept : ∀ {db : Database} {step : AddStep}, db.Regular ∧ db.ContentKnown contentOf →
      step.FreshId db ∧ step.event ∈ events →
        (step.run runtime db).Regular ∧ (step.run runtime db).ContentKnown contentOf :=
    fun hDb hStep => ⟨hDb.1.run_step hStep.1, hDb.2.run_step (hFresh hStep)⟩
  have hView : ∀ {db : Database} {step : AddStep}, db.Regular ∧ db.ContentKnown contentOf →
      step.FreshId db ∧ step.event ∈ events →
        (step.run runtime db).ledger = db.ledger.ingest step.event :=
    fun hDb hStep => Server.ledger_run hDb.1 hDb.2 (hFresh hStep)
      (hIngestible.accepted _ hStep.2 _ rfl)
  constructor
  · exact run_simulates hKept hView ⟨Database.Regular.empty, Database.ContentKnown.empty⟩ hAlong
  · exact run_invariant Database.Tallied.run_step .empty h.freshIds

/-- A step that stores the event under the id. -/
def ArrivedEvent.step (event : ArrivedEvent) (id : Nat) : AddStep where
  now := 0
  row := ⟨id, event.key, none, [], [], 0⟩
  decoded := event.decoded

/-- The events in order, under the ids from the given one on. -/
def numbered : Nat → List ArrivedEvent → List AddStep
  | _, [] => []
  | id, event :: rest => event.step id :: numbered (id + 1) rest

theorem map_event_numbered (id : Nat) (order : List ArrivedEvent) :
    (numbered id order).map AddStep.event = order := by
  induction order generalizing id with
  | nil => rfl
  | cons event rest ih => rw [numbered, List.map_cons, ih, ArrivedEvent.step, AddStep.event]

theorem freshIds_numbered {db : Database} {id : Nat} (h : ∀ row ∈ db.event, row.id < id)
    (order : List ArrivedEvent) :
    Along (AddStep.run runtime) (fun db step => step.FreshId db) db (numbered id order) := by
  induction order generalizing db id with
  | nil => trivial
  | cons event rest ih =>
      refine ⟨fun row hRow => (h row hRow).ne, ih ?_⟩
      intro row hRow
      rcases AddStep.run_cases runtime db (event.step id) with hRun | ⟨derived, tombstones, -, hRun⟩
      · rw [hRun] at hRow
        exact (h row hRow).trans (Nat.lt_succ_self id)
      · rw [hRun] at hRow
        rcases List.mem_append.mp hRow with hOld | hNew
        · exact (h row hOld).trans (Nat.lt_succ_self id)
        · rw [List.mem_singleton.mp hNew]
          exact Nat.lt_succ_self id

/-- Every order of the events can arrive. -/
theorem arrival_numbered {order : List ArrivedEvent} (h : order.Perm events) :
    ArrivesAs runtime events (numbered 0 order) where
  events := by rwa [map_event_numbered]
  freshIds := freshIds_numbered (fun _ hRow => absurd hRow List.not_mem_nil) order

/-- The rows of the ledger have no counts yet. -/
theorem counts_ledgerOf {order : List ArrivedEvent} (hKeys : (order.map ArrivedEvent.key).Nodup)
    {row : KeyedRow} (hRow : row ∈ (ledgerOf order).rows) : row.counts = none := by
  obtain ⟨_, event, _, _, _, hOwn, _⟩ := (mem_rows_ledgerOf hKeys).mp hRow
  exact ArrivedEvent.rows_counts hOwn

/-- The counts are all that counting adds. -/
theorem outline_counted {order : List ArrivedEvent} (hKeys : (order.map ArrivedEvent.key).Nodup) :
    (((ledgerOf order).rows.map (KeyedRow.counted (ledgerOf order).rows)).map fun row =>
      { row with counts := none }) = (ledgerOf order).rows := by
  rw [Multiset.map_map]
  conv_rhs => rw [← Multiset.map_id (ledgerOf order).rows]
  apply Multiset.map_congr rfl
  intro row hRow
  have hCounts := counts_ledgerOf hKeys hRow
  unfold Function.comp KeyedRow.counted
  cases row
  split <;> simp_all

/-- For every set of events with different keys, all orders of arrival lead to the
same derived tables up to row ids exactly if the set is order-free. -/
theorem arrival_order_irrelevant_iff (runtime : Runtime) (contentOf : ContentDigest → Content)
    (events : List ArrivedEvent) (hKeys : (events.map ArrivedEvent.key).Nodup)
    (hIngestible : Ingestible runtime contentOf events) :
    (∀ steps₁ steps₂, ArrivesAs runtime events steps₁ → ArrivesAs runtime events steps₂ →
      (run (AddStep.run runtime) Database.empty steps₁).keyedRows =
        (run (AddStep.run runtime) Database.empty steps₂).keyedRows) ↔ OrderFree events := by
  rw [orderFree_iff hKeys]
  constructor
  · intro h order₁ order₂ h₁ h₂
    have hRows := h _ _ (arrival_numbered h₁) (arrival_numbered h₂)
    obtain ⟨hLedger₁, hTallied₁⟩ := (arrival_numbered h₁).ledger_run hIngestible
    obtain ⟨hLedger₂, hTallied₂⟩ := (arrival_numbered h₂).ledger_run hIngestible
    rw [map_event_numbered] at hLedger₁ hLedger₂
    rw [keyedRows_eq hTallied₁, keyedRows_eq hTallied₂, hLedger₁, hLedger₂] at hRows
    have hOutlines := congrArg (Multiset.map fun row : KeyedRow => { row with counts := none }) hRows
    rwa [outline_counted (nodup_of_perm hKeys h₁), outline_counted (nodup_of_perm hKeys h₂)]
      at hOutlines
  · intro h steps₁ steps₂ h₁ h₂
    obtain ⟨hLedger₁, hTallied₁⟩ := h₁.ledger_run hIngestible
    obtain ⟨hLedger₂, hTallied₂⟩ := h₂.ledger_run hIngestible
    rw [keyedRows_eq hTallied₁, keyedRows_eq hTallied₂, hLedger₁, hLedger₂,
      h _ _ h₁.events h₂.events]

end Database

namespace ArrivalOrder

open InertDeletes TableInstance

/-- The contents of the fixtures, by their digests. -/
def contentOf (body : Option ContentBody) (digest : ContentDigest) : Content :=
  if digest.value = [1] then ⟨alicePost.body⟩ else ⟨body⟩

theorem ingestible (collection : Int32) (identity : String) (body : ContentBody) :
    Ingestible runtime (contentOf body)
      [alicePost.event, (addStep 3 collection identity body).event] where
  accepted := fun _ _ _ _ => rfl
  content := by
    intro event hEvent d hDecoded
    simp only [List.mem_cons, List.not_mem_nil, or_false] at hEvent
    rcases hEvent with rfl | rfl
    · obtain rfl := Option.some.inj hDecoded
      rfl
    · obtain rfl := Option.some.inj hDecoded
      rfl

end ArrivalOrder

open ArrivalOrder InertDeletes TableInstance

theorem arrival_order_irrelevant_follow :
    (run (AddStep.run runtime) Database.empty (numbered 0 [alicePost.event, bobFollow.event])).keyedRows =
      (run (AddStep.run runtime) Database.empty
        (numbered 0 [bobFollow.event, alicePost.event])).keyedRows := by
  apply (arrival_order_irrelevant_iff runtime _ [alicePost.event, bobFollow.event]
    (by decide +kernel) (ingestible _ _ _)).mpr
  · decide +kernel
  · exact arrival_numbered (List.Perm.refl _)
  · exact arrival_numbered (List.Perm.swap _ _ _)

/-- A reaction that comes before its post is lost. -/
theorem arrival_order_reaction_lost :
    ∃ events : List ArrivedEvent, (events.map ArrivedEvent.key).Nodup ∧
      (∀ event ∈ events, event.authorisedBody.isSome) ∧
      Ingestible runtime (contentOf bobReaction.body) events ∧
      ∃ steps₁ steps₂, ArrivesAs runtime events steps₁ ∧ ArrivesAs runtime events steps₂ ∧
        (run (AddStep.run runtime) Database.empty steps₁).keyedRows ≠
          (run (AddStep.run runtime) Database.empty steps₂).keyedRows := by
  refine ⟨[alicePost.event, bobReaction.event], by decide +kernel, by decide +kernel,
    ingestible _ _ _, numbered 0 [alicePost.event, bobReaction.event],
    numbered 0 [bobReaction.event, alicePost.event], arrival_numbered (List.Perm.refl _),
    arrival_numbered (List.Perm.swap _ _ _), ?_⟩
  decide +kernel

end Polycentric.Server
