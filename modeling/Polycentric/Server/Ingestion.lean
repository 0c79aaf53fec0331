import Polycentric.Server.InertDeletes

/-! Runs of `add_event` from an empty database: what one step can do, and the
uniqueness that the primary keys and the event key index give to the tables. -/
namespace Polycentric.Server

open Proto Result Runs

namespace AddStep

/-- The body by which the step updates the derived tables: that of an authorised
event. -/
def authorisedBody (step : AddStep) : Option ContentBody :=
  if eventIsAuthorised step.row.key.identity (step.decoded.map DecodedContent.content) then step.body
  else none

/-- The id that the sequence of the database assigns was not used before. -/
def FreshId (db : Database) (step : AddStep) : Prop := ∀ row ∈ db.event, row.id ≠ step.row.id

instance (db : Database) (step : AddStep) : Decidable (step.FreshId db) :=
  inferInstanceAs (Decidable (∀ row ∈ db.event, row.id ≠ step.row.id))

/-- The step is stored, with these derived tables and rows of `content_delete`. -/
structure Stores (runtime : Runtime) (db : Database) (step : AddStep) (derived : DerivedTables)
    (tombstones : List ContentDeleteRow) : Prop where
  derived : (step.authorisedBody = none ∧ derived = db.derived) ∨ ∃ body,
    step.authorisedBody = some body ∧
      updateCache runtime step.now db step.row.id step.row.key.identity body = .ok derived
  tombstones : tombstonesOf step.decoded = .ok tombstones
  accepted : runtime.refuses step.row (step.decoded.map DecodedContent.content) = false
  single : isDuplicate db step.row step.decoded = false

variable {runtime : Runtime} {db : Database} {step : AddStep} {derived : DerivedTables}
  {tombstones : List ContentDeleteRow}

/-- A body counts if its event may say what it says. -/
theorem authorisedBody_eq_some_iff {body : ContentBody} :
    step.authorisedBody = some body ↔ step.body = some body ∧
      eventIsAuthorised step.row.key.identity (step.decoded.map DecodedContent.content) = true := by
  unfold authorisedBody
  split
  · next h => simp [h]
  · next h => simp [h]

/-- The derived tables change by an authorised body only. -/
theorem derivedAfter_eq_ok_iff :
    derivedAfter runtime step.now db step.row (step.decoded.map DecodedContent.content) =
        .ok derived ↔
      (step.authorisedBody = none ∧ derived = db.derived) ∨ ∃ body,
        step.authorisedBody = some body ∧
          updateCache runtime step.now db step.row.id step.row.key.identity body = .ok derived := by
  unfold derivedAfter authorisedBody
  rw [step.contentBody_eq]
  cases step.body with
  | none =>
      rw [ite_self]
      simp only [true_and, reduceCtorEq, false_and, exists_false, or_false, Except.ok.injEq]
      exact eq_comm
  | some body =>
      cases eventIsAuthorised step.row.key.identity (step.decoded.map DecodedContent.content) with
      | true =>
          simp only [if_true, mapError_eq_ok_iff, reduceCtorEq, false_and, Option.some.injEq,
            exists_eq_left', false_or]
      | false =>
          simp only [Bool.false_eq_true, if_false, true_and, reduceCtorEq, false_and, exists_false,
            or_false, Except.ok.injEq]
          exact eq_comm

/-- A step that stores leaves the stored state behind. -/
theorem Stores.run_eq (h : step.Stores runtime db derived tombstones) :
    step.run runtime db = stored db step.row step.decoded derived tombstones := by
  have hAdd : addEvent runtime step.now db step.row step.decoded =
      .ok (true, stored db step.row step.decoded derived tombstones) :=
    addEvent_eq_ok_iff.mpr ⟨derived, tombstones, derivedAfter_eq_ok_iff.mpr h.derived,
      h.tombstones, h.accepted, Or.inr ⟨h.single, rfl, rfl⟩⟩
  rw [AddStep.run, hAdd]

/-- A step leaves the database as it is, or it is stored as a whole. -/
theorem run_cases (runtime : Runtime) (db : Database) (step : AddStep) :
    step.run runtime db = db ∨
      ∃ derived tombstones, step.Stores runtime db derived tombstones ∧
        step.run runtime db = stored db step.row step.decoded derived tombstones := by
  unfold AddStep.run
  cases hAdd : addEvent runtime step.now db step.row step.decoded with
  | error status => exact Or.inl rfl
  | ok result =>
      obtain ⟨added, db'⟩ := result
      obtain ⟨derived, tombstones, hDerived, hTombstones, hRefuses, hResult⟩ :=
        addEvent_eq_ok_iff.mp hAdd
      rcases hResult with ⟨-, -, rfl⟩ | ⟨hSingle, -, rfl⟩
      · exact Or.inl rfl
      · exact Or.inr ⟨derived, tombstones,
          ⟨derivedAfter_eq_ok_iff.mp hDerived, hTombstones, hRefuses, hSingle⟩, rfl⟩

/-- What holds of the database and of whatever the step stores holds after it. -/
theorem run_induction {Property : Database → Prop} (hSame : Property db)
    (hStored : ∀ derived tombstones, step.Stores runtime db derived tombstones →
      Property (stored db step.row step.decoded derived tombstones)) :
    Property (step.run runtime db) := by
  rcases run_cases runtime db step with hRun | ⟨derived, tombstones, hStores, hRun⟩
  · rwa [hRun]
  · rw [hRun]
    exact hStored derived tombstones hStores

/-- What is stored has a key that no row has. -/
theorem Stores.newKey (h : step.Stores runtime db derived tombstones) :
    ∀ row ∈ db.event, row.key ≠ step.row.key := by
  intro row hRow hKey
  have hSingle := h.single
  simp only [isDuplicate, Bool.or_eq_false_iff, List.any_eq_false, decide_eq_true_eq] at hSingle
  exact hSingle.1 row hRow hKey

end AddStep

theorem deletedKey_eq_some {body : ContentBody} {key : EventKeyParts}
    (h : deletedKey body = some key) : ∃ eventKey, body = .delete eventKey ∧ partsOf eventKey = some key := by
  cases body <;> simp_all [deletedKey]

/-- Only a `Delete` brings rows of `content_delete`. -/
theorem saveContentBody_eq_nil {digest : ContentDigest} {body : ContentBody}
    {tombstones : List ContentDeleteRow} (hBody : ∀ eventKey, body ≠ .delete eventKey)
    (h : saveContentBody digest body = .ok tombstones) : tombstones = [] := by
  unfold saveContentBody at h
  split at h
  case h_1 eventKey => exact absurd rfl (hBody eventKey)
  all_goals
    simp only [bind_eq_ok_iff, pure, Except.pure, Except.ok.injEq] at h
    grind

/-- New content brings one row for the key that it deletes. -/
theorem tombstonesOf_eq {d : DecodedContent} {tombstones : List ContentDeleteRow}
    (h : tombstonesOf (some d) = .ok tombstones) :
    tombstones = (d.content.contentBody.bind deletedKey).toList.map fun key => ⟨d.digest, key⟩ := by
  cases hBody : d.content.contentBody with
  | none => simpa [tombstonesOf, hBody, eq_comm] using h
  | some body =>
      simp only [tombstonesOf, hBody, Option.elim] at h
      by_cases hDelete : ∃ eventKey, body = .delete eventKey
      · obtain ⟨eventKey, rfl⟩ := hDelete
        simp only [saveContentBody, bind_eq_ok_iff, splitEventKey_eq_ok_iff, pure, Except.pure,
          Except.ok.injEq] at h
        obtain ⟨key, hKey, rfl⟩ := h
        simp [deletedKey, hKey]
      · have hOther : ∀ eventKey, body ≠ .delete eventKey := fun eventKey hEq =>
          hDelete ⟨eventKey, hEq⟩
        have hNone : deletedKey body = none := by
          cases hDeleted : deletedKey body with
          | none => rfl
          | some key =>
              obtain ⟨eventKey, hEq, -⟩ := deletedKey_eq_some hDeleted
              exact absurd hEq (hOther eventKey)
        simp [saveContentBody_eq_nil hOther h, hNone]

/-- Content that deletes a key brings a row of `content_delete` for it. -/
theorem tombstonesOf_deletedKey {d : DecodedContent} {tombstones : List ContentDeleteRow}
    {key : EventKeyParts} (h : tombstonesOf (some d) = .ok tombstones)
    (hKey : d.content.contentBody.bind deletedKey = some key) :
    (tombstones.any fun row => row.eventKey = key) = true := by
  rw [tombstonesOf_eq h, hKey]
  simp

/-! ### Unique rows -/

/-- Rows with different values of a column: one value selects at most one row. -/
theorem filter_eq_nil_or_singleton {α β : Type} [DecidableEq β] {column : α → β} {rows : List α}
    (h : (rows.map column).Nodup) (value : β) :
    (rows.filter fun row => column row = value) = [] ∨ ∃ row ∈ rows, column row = value ∧
      (rows.filter fun row => column row = value) = [row] := by
  induction rows with
  | nil => exact Or.inl rfl
  | cons row rest ih =>
      rw [List.map_cons, List.nodup_cons] at h
      by_cases hRow : column row = value
      · refine Or.inr ⟨row, List.mem_cons_self, hRow, ?_⟩
        have hRest : (rest.filter fun row => column row = value) = [] := by
          rw [List.filter_eq_nil_iff]
          intro other hOther hEq
          rw [decide_eq_true_eq] at hEq
          exact h.1 (hRow.trans hEq.symm ▸ List.mem_map_of_mem hOther)
        rw [List.filter_cons_of_pos (by simpa using hRow), hRest]
      · rw [List.filter_cons_of_neg (by simpa using hRow)]
        rcases ih h.2 with hNil | ⟨other, hOther, hEq, hSingle⟩
        · exact Or.inl hNil
        · exact Or.inr ⟨other, List.mem_cons_of_mem _ hOther, hEq, hSingle⟩

theorem eq_of_column_eq {α β : Type} {column : α → β} {rows : List α} (h : (rows.map column).Nodup)
    {a b : α} (ha : a ∈ rows) (hb : b ∈ rows) (hColumn : column a = column b) : a = b :=
  List.inj_on_of_nodup_map h ha hb hColumn

/-- Ids and keys tell the stored events apart, the derived tables mention stored
events only, and an event has at most one tally and one reaction. -/
structure Database.Regular (db : Database) : Prop where
  ids : (db.event.map EventRow.id).Nodup
  keys : (db.event.map EventRow.key).Nodup
  mentioned : ∀ id ∈ db.derived.mentioned, ∃ row ∈ db.event, row.id = id
  tallies : (db.derived.reactionTally.map ReactionTallyRow.eventId).Nodup
  reactions : (db.derived.reaction.map ReactionRow.eventId).Nodup

namespace Database.Regular

variable {runtime : Runtime} {db : Database} {step : AddStep} {derived : DerivedTables}
  {tombstones : List ContentDeleteRow}

theorem empty : Database.empty.Regular where
  ids := .nil
  keys := .nil
  mentioned := by simp [Database.empty, DerivedTables.mentioned, DerivedTables.rows]
  tallies := .nil
  reactions := .nil

/-- A key selects one row at most. -/
theorem selectEvent_cases (h : db.Regular) (key : EventKeyParts) :
    db.selectEvent key = [] ∨ ∃ row ∈ db.event, row.key = key ∧ db.selectEvent key = [row] :=
  filter_eq_nil_or_singleton h.keys key

theorem selectNotDeletedEvent_cases (h : db.Regular) (key : EventKeyParts) :
    db.selectNotDeletedEvent key = [] ∨
      ∃ row ∈ db.event, row.key = key ∧ db.selectNotDeletedEvent key = [row] := by
  unfold Database.selectNotDeletedEvent
  split
  · exact Or.inl rfl
  · exact h.selectEvent_cases key

/-- A new id is mentioned nowhere. -/
theorem not_mentioned (h : db.Regular) (hFresh : step.FreshId db) :
    step.row.id ∉ db.derived.mentioned := by
  intro hMentioned
  obtain ⟨row, hRow, hId⟩ := h.mentioned _ hMentioned
  exact hFresh row hRow hId

/-- A fresh id is mentioned nowhere. -/
theorem newId (h : db.Regular) (hFresh : step.FreshId db) : db.NewId step.row.id :=
  ⟨hFresh, h.not_mentioned hFresh⟩

theorem tally_mentioned {tally : ReactionTallyRow} (h : tally ∈ db.derived.reactionTally) :
    tally.eventId ∈ db.derived.mentioned :=
  DerivedTables.mem_mentioned.mpr
    ⟨tally.view, DerivedTables.mem_rows.mpr (Or.inl ⟨tally, h, rfl⟩), Or.inl rfl⟩

theorem reaction_mentioned {reaction : ReactionRow} (h : reaction ∈ db.derived.reaction) :
    reaction.eventId ∈ db.derived.mentioned ∧ reaction.onPost ∈ db.derived.mentioned := by
  have hRow : reaction.view ∈ db.derived.rows :=
    DerivedTables.mem_rows.mpr (Or.inr (Or.inl ⟨reaction, h, rfl⟩))
  exact ⟨DerivedTables.mem_mentioned.mpr ⟨_, hRow, Or.inl rfl⟩,
    DerivedTables.mem_mentioned.mpr ⟨_, hRow, Or.inr rfl⟩⟩

/-- The event that a tally counts for. -/
theorem find_tallied (h : db.Regular) {tally : ReactionTallyRow}
    (hTally : tally ∈ db.derived.reactionTally) :
    ∃ post ∈ db.event, post.id = tally.eventId ∧
      (db.event.find? fun row => row.id = tally.eventId) = some post := by
  obtain ⟨row, hRow, hId⟩ := h.mentioned _ (tally_mentioned hTally)
  cases hFind : db.event.find? fun row => row.id = tally.eventId with
  | none =>
      rw [List.find?_eq_none] at hFind
      exact absurd (by simpa using hId) (hFind row hRow)
  | some post =>
      refine ⟨post, List.mem_of_find?_eq_some hFind, ?_, rfl⟩
      simpa using List.find?_some hFind

/-- Tallies are dropped, or the event brings its own. -/
theorem updateCache_tallies {now : Int} {eventId : Nat} {identity : String} {body : ContentBody}
    (h : updateCache runtime now db eventId identity body = .ok derived) :
    (derived.reactionTally.map ReactionTallyRow.eventId).Sublist
      (db.derived.reactionTally.map ReactionTallyRow.eventId ++ [eventId]) := by
  have hSame : (db.derived.reactionTally.map ReactionTallyRow.eventId).Sublist
      (db.derived.reactionTally.map ReactionTallyRow.eventId ++ [eventId]) :=
    List.sublist_append_left _ _
  cases body with
  | post post =>
      simp only [updateCache, postQuery, bind_eq_ok_iff, pure, Except.pure, Except.ok.injEq] at h
      obtain ⟨quotes, -, replies, -, rfl⟩ := h
      simp
  | reaction reaction =>
      simp only [updateCache, reactionQuery, bind_eq_ok_iff, pure, Except.pure,
        Except.ok.injEq] at h
      obtain ⟨parts, -, rfl⟩ := h
      rw [List.map_map, List.map_congr_left (g := ReactionTallyRow.eventId)]
      · exact hSame
      · intro tally _
        dsimp only [Function.comp]
        split
        · exact countReaction_eventId
        · rfl
  | repost post =>
      simp only [updateCache, repostQuery, bind_eq_ok_iff, pure, Except.pure, Except.ok.injEq] at h
      obtain ⟨reposts, -, rfl⟩ := h
      exact hSame
  | delete eventKey =>
      simp only [updateCache, deleteQuery, bind_eq_ok_iff, pure, Except.pure, Except.ok.injEq] at h
      obtain ⟨parts, -, rfl⟩ := h
      split_ifs
      · exact (List.filter_sublist.map _).trans hSame
      · exact hSame
      · exact hSame
      · unfold deleteReaction
        rw [List.map_map, List.map_congr_left (g := ReactionTallyRow.eventId)]
        · exact hSame
        · intro tally _
          dsimp only [Function.comp]
          split
          · exact uncountReaction_eventId
          · rfl
      · exact hSame
  | _ =>
      obtain rfl := Except.ok.inj h
      exact hSame

/-- Reactions are dropped, or the event brings its own, at most one. -/
theorem updateCache_reactions (hRegular : db.Regular) {now : Int} {eventId : Nat}
    {identity : String} {body : ContentBody}
    (h : updateCache runtime now db eventId identity body = .ok derived) :
    (derived.reaction.map ReactionRow.eventId).Sublist
      (db.derived.reaction.map ReactionRow.eventId ++ [eventId]) := by
  have hSame : (db.derived.reaction.map ReactionRow.eventId).Sublist
      (db.derived.reaction.map ReactionRow.eventId ++ [eventId]) :=
    List.sublist_append_left _ _
  cases body with
  | post post =>
      simp only [updateCache, postQuery, bind_eq_ok_iff, pure, Except.pure, Except.ok.injEq] at h
      obtain ⟨quotes, -, replies, -, rfl⟩ := h
      exact hSame
  | reaction reaction =>
      simp only [updateCache, reactionQuery, bind_eq_ok_iff, pure, Except.pure,
        Except.ok.injEq] at h
      obtain ⟨parts, -, rfl⟩ := h
      rcases hRegular.selectNotDeletedEvent_cases parts with hNone | ⟨post, -, -, hOne⟩
      · simp [hNone]
      · simp [hOne]
  | repost post =>
      simp only [updateCache, repostQuery, bind_eq_ok_iff, pure, Except.pure, Except.ok.injEq] at h
      obtain ⟨reposts, -, rfl⟩ := h
      exact hSame
  | delete eventKey =>
      simp only [updateCache, deleteQuery, bind_eq_ok_iff, pure, Except.pure, Except.ok.injEq] at h
      obtain ⟨parts, -, rfl⟩ := h
      split_ifs
      · exact (List.filter_sublist.map _).trans hSame
      · exact hSame
      · exact hSame
      · exact (List.filter_sublist.map _).trans hSame
      · exact hSame
  | _ =>
      obtain rfl := Except.ok.inj h
      exact hSame

private theorem nodup_append_new {α : Type} {l : List α} {a : α} (h : l.Nodup) (hNew : a ∉ l) :
    (l ++ [a]).Nodup :=
  List.nodup_append.mpr ⟨h, List.nodup_singleton a, fun _ hx _ hy hEq =>
    hNew (List.mem_singleton.mp hy ▸ hEq ▸ hx)⟩

theorem stored (h : db.Regular) (hFresh : step.FreshId db)
    (hStores : step.Stores runtime db derived tombstones) :
    (stored db step.row step.decoded derived tombstones).Regular := by
  have hNew := h.not_mentioned hFresh
  have hTallies : ∀ {tallies : List Nat}, tallies.Sublist
      (db.derived.reactionTally.map ReactionTallyRow.eventId ++ [step.row.id]) →
      tallies.Nodup := by
    intro tallies hSub
    apply hSub.nodup
    apply nodup_append_new h.tallies
    intro hMem
    obtain ⟨tally, hTally, hId⟩ := List.mem_map.mp hMem
    exact hNew (hId ▸ tally_mentioned hTally)
  have hReactions : ∀ {reactions : List Nat}, reactions.Sublist
      (db.derived.reaction.map ReactionRow.eventId ++ [step.row.id]) → reactions.Nodup := by
    intro reactions hSub
    apply hSub.nodup
    apply nodup_append_new h.reactions
    intro hMem
    obtain ⟨reaction, hReaction, hId⟩ := List.mem_map.mp hMem
    exact hNew (hId ▸ (reaction_mentioned hReaction).1)
  refine ⟨?_, ?_, ?_, ?_, ?_⟩
  · rw [Server.stored, List.map_append]
    apply nodup_append_new h.ids
    intro hMem
    obtain ⟨row, hRow, hId⟩ := List.mem_map.mp hMem
    exact hFresh row hRow hId
  · rw [Server.stored, List.map_append]
    apply nodup_append_new h.keys
    intro hMem
    obtain ⟨row, hRow, hKey⟩ := List.mem_map.mp hMem
    exact hStores.newKey row hRow hKey
  · intro id hId
    have hAfter := AddStep.derivedAfter_eq_ok_iff.mpr hStores.derived
    rcases derivedAfter_mentioned hAfter id hId with hOld | hSelf | ⟨body, -, key, -, post, hPost, hEq⟩
    · obtain ⟨row, hRow, hEq⟩ := h.mentioned id hOld
      exact ⟨row, List.mem_append_left _ hRow, hEq⟩
    · exact ⟨step.row, List.mem_append_right _ (List.mem_singleton_self _), hSelf.symm⟩
    · exact ⟨post, List.mem_append_left _ (mem_selectNotDeletedEvent.mp hPost).2.1, hEq⟩
  · rcases hStores.derived with ⟨-, hSame⟩ | ⟨body, -, hUpdate⟩
    · exact hTallies (hSame ▸ List.sublist_append_left _ _)
    · exact hTallies (updateCache_tallies hUpdate)
  · rcases hStores.derived with ⟨-, hSame⟩ | ⟨body, -, hUpdate⟩
    · exact hReactions (hSame ▸ List.sublist_append_left _ _)
    · exact hReactions (updateCache_reactions h hUpdate)

theorem run_step (h : db.Regular) (hFresh : step.FreshId db) : (step.run runtime db).Regular :=
  AddStep.run_induction h fun _ _ hStores => h.stored hFresh hStores

end Database.Regular

/-! ### Stored content -/

/-- What the database and the digest promise of a step: its id is new, and its
content is that of its digest. -/
structure AddStep.Fresh (contentOf : ContentDigest → Content) (db : Database) (step : AddStep) :
    Prop where
  newId : step.FreshId db
  content : ∀ d, step.decoded = some d → d.content = contentOf d.digest

/-- The contents of the stored digests left their rows of `content_delete`, and
none of them has child rows that collide. -/
structure Database.ContentKnown (contentOf : ContentDigest → Content) (db : Database) : Prop where
  tombstoned : ∀ digest, db.hasContent digest = true → ∀ key,
    (contentOf digest).contentBody.bind deletedKey = some key → db.isTombstoned key = true
  apart : ∀ digest, db.hasContent digest = true →
    (contentOf digest).contentBody.any childConflict = false

namespace Database.ContentKnown

variable {runtime : Runtime} {contentOf : ContentDigest → Content} {db : Database} {step : AddStep}
  {derived : DerivedTables} {tombstones : List ContentDeleteRow}

theorem empty : Database.empty.ContentKnown contentOf where
  tombstoned := fun _ hContent => nomatch hContent
  apart := fun _ hContent => nomatch hContent

/-- Whatever the content of a stored step deletes is found in `content_delete`. -/
theorem isTombstoned (h : db.ContentKnown contentOf) (hFresh : step.Fresh contentOf db)
    (hStores : step.Stores runtime db derived tombstones) {d : DecodedContent}
    (hDecoded : step.decoded = some d) {key : EventKeyParts}
    (hKey : d.content.contentBody.bind deletedKey = some key) :
    (stored db step.row step.decoded derived tombstones).isTombstoned key = true := by
  rw [isTombstoned_stored, Bool.or_eq_true]
  cases hHas : db.hasContent d.digest with
  | true =>
      refine Or.inl (h.tombstoned d.digest hHas key ?_)
      rwa [← hFresh.content d hDecoded]
  | false =>
      have hNew : freshContent db step.decoded = some d :=
        freshContent_eq_some_iff.mpr ⟨hDecoded, hHas⟩
      have hTombstones := hStores.tombstones
      rw [hDecoded] at hTombstones
      exact Or.inr (by simpa [hNew] using tombstonesOf_deletedKey hTombstones hKey)

/-- A content that could not be stored with its children is not stored again without them. -/
theorem not_conflict (h : db.ContentKnown contentOf) (hFresh : step.Fresh contentOf db)
    (hStores : step.Stores runtime db derived tombstones) {d : DecodedContent}
    (hDecoded : step.decoded = some d) : d.content.contentBody.any childConflict = false := by
  cases hHas : db.hasContent d.digest with
  | true =>
      rw [hFresh.content d hDecoded]
      exact h.apart d.digest hHas
  | false =>
      have hNew : freshContent db step.decoded = some d :=
        freshContent_eq_some_iff.mpr ⟨hDecoded, hHas⟩
      have hSingle := hStores.single
      rw [isDuplicate, hNew, Bool.or_eq_false_iff] at hSingle
      exact hSingle.2

theorem stored (h : db.ContentKnown contentOf) (hFresh : step.Fresh contentOf db)
    (hStores : step.Stores runtime db derived tombstones) :
    (stored db step.row step.decoded derived tombstones).ContentKnown contentOf := by
  have hNew : ∀ digest, (Server.stored db step.row step.decoded derived tombstones).hasContent
      digest = true → db.hasContent digest = true ∨
        ∃ d, step.decoded = some d ∧ d.content = contentOf digest := by
    intro digest hHas
    rw [hasContent_stored, Bool.or_eq_true] at hHas
    refine hHas.imp_right fun hAny => ?_
    cases hSome : freshContent db step.decoded with
    | none => simp [hSome] at hAny
    | some d =>
        have hDecoded := (freshContent_eq_some_iff.mp hSome).1
        have hDigest : d.digest = digest := by simpa [hSome] using hAny
        exact ⟨d, hDecoded, hDigest ▸ hFresh.content d hDecoded⟩
  refine ⟨fun digest hHas key hKey => ?_, fun digest hHas => ?_⟩
  · rcases hNew digest hHas with hOld | ⟨d, hDecoded, hContent⟩
    · rw [isTombstoned_stored, h.tombstoned digest hOld key hKey, Bool.true_or]
    · rw [← hContent] at hKey
      exact h.isTombstoned hFresh hStores hDecoded hKey
  · rcases hNew digest hHas with hOld | ⟨d, hDecoded, hContent⟩
    · exact h.apart digest hOld
    · rw [← hContent]
      exact h.not_conflict hFresh hStores hDecoded

theorem run_step (h : db.ContentKnown contentOf) (hFresh : step.Fresh contentOf db) :
    (step.run runtime db).ContentKnown contentOf :=
  AddStep.run_induction h fun _ _ hStores => h.stored hFresh hStores

end Database.ContentKnown

end Polycentric.Server
