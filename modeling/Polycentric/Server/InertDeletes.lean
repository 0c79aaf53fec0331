import Polycentric.Server.UpdateFrame
import Polycentric.Library.Runs

/-! Two runs of ingestion, with and without one extra `Delete` that its author may
not perform. Such a `Delete` leaves the derived tables alone, but it leaves a row
in `content_delete`, and later events look references up there. -/
namespace Polycentric.Server

open Proto Result Runs

/-- One call of `add_event`. The id is the one that the database assigns. -/
structure AddStep where
  now : Int
  row : EventRow
  decoded : Option DecodedContent

namespace AddStep

def body (step : AddStep) : Option ContentBody :=
  step.decoded.bind fun d => d.content.contentBody

theorem contentBody_eq (step : AddStep) :
    (step.decoded.map DecodedContent.content).bind Content.contentBody = step.body :=
  map_content_bind_contentBody step.decoded

/-- The database after the transaction of the step. -/
def run (runtime : Runtime) (db : Database) (step : AddStep) : Database :=
  match addEvent runtime step.now db step.row step.decoded with
  | .ok (_, db') => db'
  | .error _ => db

end AddStep

/-- A step whose body reads the same in two databases updates the derived tables
alike. -/
theorem AddStep.derivedAfter_congr (step : AddStep) (runtime : Runtime) {db₁ db₂ : Database}
    (hDerived : db₁.derived = db₂.derived)
    (h : ∀ {body}, step.body = some body → SameView body db₁ db₂) :
    derivedAfter runtime step.now db₁ step.row (step.decoded.map DecodedContent.content) =
      derivedAfter runtime step.now db₂ step.row (step.decoded.map DecodedContent.content) := by
  unfold derivedAfter
  rw [step.contentBody_eq]
  cases hBody : step.body with
  | none => simp [hDerived]
  | some body => simp only [updateCache_congr (h hBody), hDerived]

/-- A step that reads the same in two databases is carried out in both or in
neither. -/
theorem AddStep.run_congr {runtime : Runtime} {db₁ db₂ : Database} {step : AddStep}
    (hDerived : derivedAfter runtime step.now db₁ step.row (step.decoded.map DecodedContent.content) =
      derivedAfter runtime step.now db₂ step.row (step.decoded.map DecodedContent.content))
    (hDuplicate : isDuplicate db₁ step.row step.decoded = isDuplicate db₂ step.row step.decoded) :
    (step.run runtime db₁ = db₁ ∧ step.run runtime db₂ = db₂) ∨
      ∃ derived tombstones,
        derivedAfter runtime step.now db₂ step.row (step.decoded.map DecodedContent.content) =
          .ok derived ∧
        tombstonesOf step.decoded = .ok tombstones ∧
        step.run runtime db₁ = stored db₁ step.row step.decoded derived tombstones ∧
        step.run runtime db₂ = stored db₂ step.row step.decoded derived tombstones := by
  simp only [AddStep.run, addEvent, hDerived, hDuplicate]
  cases hAfter : derivedAfter runtime step.now db₂ step.row
      (step.decoded.map DecodedContent.content) with
  | error e => exact Or.inl ⟨rfl, rfl⟩
  | ok derived =>
      cases hTombstones : tombstonesOf step.decoded with
      | error e => exact Or.inl ⟨rfl, rfl⟩
      | ok tombstones =>
          cases hRefuses : runtime.refuses step.row (step.decoded.map DecodedContent.content) with
          | true => exact Or.inl ⟨rfl, rfl⟩
          | false =>
              cases hStored : isDuplicate db₂ step.row step.decoded with
              | true => exact Or.inl ⟨rfl, rfl⟩
              | false => exact Or.inr ⟨derived, tombstones, rfl, rfl, rfl, rfl⟩

/-- The step stores nothing, whatever its event refers to: it is a duplicate, the tombstones of
its content cannot be read, or the database refuses the statement. -/
def AddStep.rejected (runtime : Runtime) (db : Database) (step : AddStep) : Bool :=
  isDuplicate db step.row step.decoded || !(tombstonesOf step.decoded).isOk ||
    runtime.refuses step.row (step.decoded.map DecodedContent.content)

theorem AddStep.run_rejected {runtime : Runtime} {db : Database} {step : AddStep}
    (h : step.rejected runtime db = true) : step.run runtime db = db := by
  unfold AddStep.run
  cases hAdd : addEvent runtime step.now db step.row step.decoded with
  | error e => rfl
  | ok result =>
      obtain ⟨added, db'⟩ := result
      obtain ⟨derived, tombstones, -, hTombstones, hAccepted, hResult⟩ := addEvent_eq_ok_iff.mp hAdd
      rcases hResult with ⟨-, -, rfl⟩ | ⟨hNew, -, -⟩
      · rfl
      · simp [AddStep.rejected, hNew, hTombstones, hAccepted, Except.isOk, Except.toBool] at h

/-- The ids that the tables mention after an event. -/
theorem derivedAfter_mentioned {runtime : Runtime} {db : Database} {step : AddStep}
    {derived : DerivedTables}
    (h : derivedAfter runtime step.now db step.row (step.decoded.map DecodedContent.content) =
      .ok derived) :
    ∀ id ∈ derived.mentioned, id ∈ db.derived.mentioned ∨ id = step.row.id ∨
      ∃ body, step.body = some body ∧ ∃ key ∈ references body,
        ∃ post ∈ db.selectNotDeletedEvent key, post.id = id := by
  intro id hId
  unfold derivedAfter at h
  rw [step.contentBody_eq] at h
  split at h
  · next body hSome =>
      split at h
      · rw [mapError_eq_ok_iff] at h
        rcases updateCache_mentioned h id hId with hOld | hSelf | hReference
        · exact Or.inl hOld
        · exact Or.inr (Or.inl hSelf)
        · exact Or.inr (Or.inr ⟨body, hSome, hReference⟩)
      · obtain rfl := Except.ok.inj h
        exact Or.inl hId
  · obtain rfl := Except.ok.inj h
    exact Or.inl hId

/-! ### One extra `Delete` -/

/-- A `Delete` that its author may not perform: the key it names belongs to
another identity. -/
structure ForeignDelete where
  step : AddStep
  decoded : DecodedContent
  eventKey : EventKey
  hDecoded : step.decoded = some decoded
  hBody : decoded.content.contentBody = some (.delete (some eventKey))
  hForeign : eventKey.identity ≠ step.row.key.identity

namespace ForeignDelete

variable (extra : ForeignDelete)

/-- The columns of the key that it names. -/
def target : Option EventKeyParts := partsOf (some extra.eventKey)

/-- The columns of its own key. -/
def key : EventKeyParts := extra.step.row.key

/-- A later step that the extra event does not reach. It takes the extra event's
key only with the same content. It refers to that key only where some stored
`Delete` names it, and to the deleted key only where no event is found: none is
stored, or another stored `Delete` names it. -/
structure Unreached (db : Database) (step : AddStep) : Prop where
  key : step.row.key = extra.key → step.decoded = extra.step.decoded
  ownReference : ∀ body, step.body = some body → extra.key ∈ references body →
    db.isTombstoned extra.key = true
  reference : ∀ body, step.body = some body → ∀ key ∈ references body,
    extra.target = some key → db.selectNotDeletedEvent key = []

/-- A later step that the extra event leaves as it is: it stores nothing anyway, or the extra
event does not reach it. -/
def Passes (runtime : Runtime) (db : Database) (step : AddStep) : Prop :=
  step.rejected runtime db = true ∨ extra.Unreached db step

/-- What the database and the digest promise of a later step: its id is new, and
content with the digest of the extra event's content is that content. -/
structure Fresh (db : Database) (step : AddStep) : Prop where
  newId : db.NewId step.row.id
  distinct : step.row.id ≠ extra.step.row.id
  content : ∀ d, step.decoded = some d → d.digest = extra.decoded.digest →
    d.content = extra.decoded.content

/-- The ids under which the extra event is stored, in the run with it and, if it
comes again, in the run without it. -/
def OwnId (without : Database) (id : Nat) : Prop :=
  id = extra.step.row.id ∨ ∃ row ∈ without.event, row.key = extra.key ∧ row.id = id

/-- The database with the extra event, against the one without. -/
structure Shadow (withExtra without : Database) : Prop where
  derived : withExtra.derived = without.derived
  events : (withExtra.event.filter fun row => row.key ≠ extra.key) =
    without.event.filter fun row => row.key ≠ extra.key
  present : ∃ row ∈ withExtra.event, row.key = extra.key
  own : ∀ row ∈ withExtra.event, row.key = extra.key → row.id = extra.step.row.id
  apart : ∀ row ∈ without.event, extra.OwnId without row.id → row.key = extra.key
  unmentioned : ∀ id, extra.OwnId without id → id ∉ without.derived.mentioned
  tombstoned : ∀ key, extra.target ≠ some key →
    withExtra.isTombstoned key = without.isTombstoned key
  target : ∀ key, extra.target = some key →
    without.isTombstoned key = true → withExtra.isTombstoned key = true
  content : ∀ digest, digest ≠ extra.decoded.digest →
    withExtra.hasContent digest = without.hasContent digest
  held : withExtra.hasContent extra.decoded.digest = true
  brought : without.hasContent extra.decoded.digest = false →
    ∀ key, extra.target = some key → withExtra.isTombstoned key = true

variable {extra} {withExtra without : Database} {step : AddStep}

theorem target_ne_key : extra.target ≠ some extra.key := by
  intro h
  simp only [target, partsOf, Option.bind_eq_bind, Option.bind_some, Option.bind_eq_some_iff,
    pure, Option.some.injEq] at h
  obtain ⟨signedBy, -, hParts⟩ := h
  exact extra.hForeign (congrArg EventKeyParts.identity hParts)

theorem Shadow.selectEvent (h : extra.Shadow withExtra without) {key : EventKeyParts}
    (hKey : key ≠ extra.key) : withExtra.selectEvent key = without.selectEvent key := by
  have hFilter : ∀ db : Database, db.selectEvent key =
      (db.event.filter fun row => row.key ≠ extra.key).filter fun row => row.key = key := by
    intro db
    rw [List.filter_filter]
    apply List.filter_congr
    intro row _
    by_cases hRow : row.key = key <;> simp [hRow, hKey]
  rw [hFilter, hFilter, h.events]

theorem Shadow.selectNotDeletedEvent (h : extra.Shadow withExtra without)
    (hStep : extra.Unreached without step) {body : ContentBody} (hBody : step.body = some body)
    {key : EventKeyParts} (hMem : key ∈ references body) :
    withExtra.selectNotDeletedEvent key = without.selectNotDeletedEvent key := by
  by_cases hOwn : key = extra.key
  · subst hOwn
    have hTomb := hStep.ownReference body hBody hMem
    have hTomb' := (h.tombstoned extra.key target_ne_key).trans hTomb
    simp [Database.selectNotDeletedEvent, hTomb, hTomb']
  · by_cases hTarget : extra.target = some key
    · have hNone := hStep.reference body hBody key hMem hTarget
      rw [hNone]
      unfold Database.selectNotDeletedEvent at hNone ⊢
      split
      · rfl
      · next hNot =>
          -- Not named in the larger database, so not named without the extra event.
          rw [if_neg fun hTomb => hNot (h.target key hTarget hTomb)] at hNone
          rw [h.selectEvent hOwn, hNone]
    · unfold Database.selectNotDeletedEvent
      rw [h.tombstoned key hTarget, h.selectEvent hOwn]

/-- The events that the derived tables mention are found in both alike. -/
theorem Shadow.findEvent (h : extra.Shadow withExtra without) {id : Nat}
    (hId : id ∈ without.derived.mentioned) :
    (withExtra.event.find? fun row => row.id = id) = without.event.find? fun row => row.id = id := by
  have hFilter : ∀ rows : List EventRow, (∀ row ∈ rows, row.id = id → row.key ≠ extra.key) →
      (rows.find? fun row => row.id = id) =
        (rows.filter fun row => row.key ≠ extra.key).find? fun row => row.id = id := by
    intro rows hRows
    rw [List.find?_filter]
    apply List.find?_congr
    intro row hRow
    by_cases hEq : row.id = id
    · simp [hEq, hRows row hRow hEq]
    · simp [hEq]
  rw [hFilter withExtra.event, hFilter without.event, h.events]
  · rintro row hRow rfl hKey
    exact h.unmentioned row.id (Or.inr ⟨row, hRow, hKey, rfl⟩) hId
  · rintro row hRow rfl hKey
    exact h.unmentioned row.id (Or.inl (h.own row hRow hKey)) hId

/-- An unreached step reads the same in both databases. -/
theorem Shadow.sameView (h : extra.Shadow withExtra without) (hStep : extra.Unreached without step)
    {body : ContentBody} (hBody : step.body = some body) : SameView body withExtra without where
  derived := h.derived
  references key hMem := h.selectNotDeletedEvent hStep hBody hMem
  deleted key hDeleted id hId := by
    by_cases hOwn : key = extra.key
    · -- Neither side deletes a mentioned event.
      subst hOwn
      simp only [Database.selectEvent, List.mem_map, List.mem_filter, decide_eq_true_eq]
      constructor
      · rintro ⟨row, ⟨hRow, hKey⟩, rfl⟩
        exact absurd hId (h.unmentioned row.id (Or.inl (h.own row hRow hKey)))
      · rintro ⟨row, ⟨hRow, hKey⟩, rfl⟩
        exact absurd hId (h.unmentioned row.id (Or.inr ⟨row, hRow, hKey, rfl⟩))
    · rw [h.selectEvent hOwn]
  posts id hId := h.findEvent hId

/-- Whether content is new is decided alike, except for another copy of the extra
content: then its tombstone is there already. -/
theorem Shadow.freshContent (h : extra.Shadow withExtra without)
    (hFresh : extra.Fresh without step) :
    Server.freshContent withExtra step.decoded = Server.freshContent without step.decoded ∨
      ∃ d, Server.freshContent withExtra step.decoded = none ∧
        Server.freshContent without step.decoded = some d ∧ step.decoded = some d ∧
        d.digest = extra.decoded.digest ∧ d.content = extra.decoded.content := by
  cases hDecoded : step.decoded with
  | none => exact Or.inl rfl
  | some d =>
      simp only [Server.freshContent, Option.filter_some]
      by_cases hDigest : d.digest = extra.decoded.digest
      · cases hHas : without.hasContent d.digest with
        | true => exact Or.inl (by simp [hDigest, h.held])
        | false =>
            exact Or.inr ⟨d, by simp [hDigest, h.held], rfl, rfl, hDigest,
              hFresh.content d hDecoded hDigest⟩
      · exact Or.inl (by simp [h.content d.digest hDigest])

/-- The tombstones of the extra content: the key that it names. -/
theorem mem_tombstonesOf {d : DecodedContent} (hContent : d.content = extra.decoded.content)
    {tombstones : List ContentDeleteRow} (h : tombstonesOf (some d) = .ok tombstones) :
    ∃ parts, extra.target = some parts ∧ tombstones = [⟨d.digest, parts⟩] := by
  simp only [tombstonesOf, hContent, extra.hBody, Option.elim_some, saveContentBody, bind_eq_ok_iff,
    pure, Except.pure, Except.ok.injEq] at h
  obtain ⟨parts, hParts, rfl⟩ := h
  exact ⟨parts, splitEventKey_eq_ok_iff.mp hParts, rfl⟩

/-- The extra `Delete` does not change the derived tables. -/
theorem derivedAfter_eq {runtime : Runtime} {now : Int} {db : Database} {row : EventRow}
    (hKey : row.key = extra.key) :
    derivedAfter runtime now db row (extra.step.decoded.map DecodedContent.content) =
      .ok db.derived := by
  have hAuthorised : eventIsAuthorised row.key.identity
      (extra.step.decoded.map DecodedContent.content) = false := by
    simp only [eventIsAuthorised, extra.hDecoded, Option.map_some, Option.bind_some, extra.hBody]
    exact beq_false_of_ne (hKey ▸ extra.hForeign)
  unfold derivedAfter
  split
  · exact if_neg (by simp [hAuthorised])
  · rfl

/-- What a step with the extra event's key and content can do. -/
theorem run_own (runtime : Runtime) (db : Database) (hKey : step.row.key = extra.key)
    (hDecoded : step.decoded = extra.step.decoded) :
    step.run runtime db = db ∨
      (∀ row ∈ db.event, row.key ≠ extra.key) ∧ ∃ parts, extra.target = some parts ∧
        step.run runtime db = stored db step.row (some extra.decoded) db.derived
          [⟨extra.decoded.digest, parts⟩] := by
  simp only [AddStep.run]
  cases hAdd : addEvent runtime step.now db step.row step.decoded with
  | error e => exact Or.inl rfl
  | ok result =>
      obtain ⟨added, db'⟩ := result
      obtain ⟨derived, tombstones, hDerived, hTombstones, -, hResult⟩ := addEvent_eq_ok_iff.mp hAdd
      rcases hResult with ⟨-, -, rfl⟩ | ⟨hNew, -, rfl⟩
      · exact Or.inl rfl
      · rw [hDecoded, derivedAfter_eq hKey] at hDerived
        obtain rfl := Except.ok.inj hDerived
        rw [hDecoded, extra.hDecoded] at hTombstones ⊢
        obtain ⟨parts, hParts, rfl⟩ := mem_tombstonesOf rfl hTombstones
        refine Or.inr ⟨?_, parts, hParts, rfl⟩
        simp only [Server.isDuplicate, Bool.or_eq_false_iff, List.any_eq_false,
          decide_eq_true_eq] at hNew
        exact fun row hRow => hKey ▸ hNew.1 row hRow

theorem ownId_stored {decoded : Option DecodedContent} {derived : DerivedTables}
    {tombstones : List ContentDeleteRow} {id : Nat} :
    extra.OwnId (stored without step.row decoded derived tombstones) id ↔
      extra.OwnId without id ∨ (step.row.key = extra.key ∧ step.row.id = id) := by
  simp only [OwnId, stored, List.mem_append, List.mem_singleton, or_and_right, exists_or,
    exists_eq_left, or_assoc]

/-- Own ids stay apart from the others when an event with a new id is stored. -/
theorem Shadow.apart_stored (h : extra.Shadow withExtra without) (hFresh : extra.Fresh without step)
    {decoded : Option DecodedContent} {derived : DerivedTables} {tombstones : List ContentDeleteRow} :
    ∀ row ∈ (stored without step.row decoded derived tombstones).event,
      extra.OwnId (stored without step.row decoded derived tombstones) row.id →
        row.key = extra.key := by
  intro row hRow hOwn
  rcases List.mem_append.mp hRow with hOld | hNew
  · rcases ownId_stored.mp hOwn with hOwn | ⟨-, hId⟩
    · exact h.apart row hOld hOwn
    · exact absurd hId.symm (hFresh.newId.event row hOld)
  · obtain rfl := List.mem_singleton.mp hNew
    rcases ownId_stored.mp hOwn with (hId | ⟨row, hRow, -, hId⟩) | ⟨hKey, -⟩
    · exact absurd hId hFresh.distinct
    · exact absurd hId (hFresh.newId.event row hRow)
    · exact hKey

/-- The extra event comes again: only the database without it changes. -/
theorem Shadow.step_own {runtime : Runtime} (h : extra.Shadow withExtra without)
    (hFresh : extra.Fresh without step) (hKey : step.row.key = extra.key)
    (hDecoded : step.decoded = extra.step.decoded) :
    extra.Shadow (step.run runtime withExtra) (step.run runtime without) := by
  have hWith : step.run runtime withExtra = withExtra := by
    rcases run_own runtime withExtra hKey hDecoded with hSame | ⟨hNone, -⟩
    · exact hSame
    · obtain ⟨row, hRow, hEq⟩ := h.present
      exact absurd hEq (hNone row hRow)
  rw [hWith]
  rcases run_own runtime without hKey hDecoded with hSame | ⟨-, parts, hParts, hRun⟩
  · rwa [hSame]
  · rw [hRun]
    exact
      { derived := h.derived
        events := by simpa [stored, hKey] using h.events
        present := h.present
        own := h.own
        apart := h.apart_stored hFresh
        unmentioned := by
          intro id hOwn
          rcases ownId_stored.mp hOwn with hOwn | ⟨-, rfl⟩
          · exact h.unmentioned id hOwn
          · exact hFresh.newId.derived
        tombstoned := by
          intro key hTarget
          have hNe : parts ≠ key := fun hEq => hTarget (hEq ▸ hParts)
          simp [isTombstoned_stored, hNe, h.tombstoned key hTarget]
        target := by
          intro key hTarget hTomb
          rw [isTombstoned_stored, Bool.or_eq_true, Bool.and_eq_true] at hTomb
          rcases hTomb with hOld | ⟨hNew, -⟩
          · exact h.target key hTarget hOld
          · obtain ⟨d, hSome⟩ := Option.isSome_iff_exists.mp hNew
            obtain ⟨hEq, hHas⟩ := freshContent_eq_some_iff.mp hSome
            obtain rfl := Option.some.inj hEq
            exact h.brought hHas key hTarget
        content := by
          intro digest hDigest
          rw [hasContent_stored, h.content digest hDigest]
          cases hNew : Server.freshContent without (some extra.decoded) with
          | none => simp
          | some d =>
              obtain rfl := Option.some.inj (freshContent_eq_some_iff.mp hNew).1
              simp [hDigest.symm]
        held := h.held
        brought := by
          intro hHas
          rw [hasContent_stored, Bool.or_eq_false_iff] at hHas
          exact h.brought hHas.1 }

theorem Shadow.isDuplicate (h : extra.Shadow withExtra without) (hFresh : extra.Fresh without step)
    (hKey : step.row.key ≠ extra.key) :
    Server.isDuplicate withExtra step.row step.decoded =
      Server.isDuplicate without step.row step.decoded := by
  have hAny : ∀ db : Database, (db.event.any fun row => row.key = step.row.key) =
      !(db.selectEvent step.row.key).isEmpty := by
    intro db
    rw [Bool.eq_iff_iff]
    simp [Database.selectEvent]
  unfold Server.isDuplicate
  rw [hAny, hAny, h.selectEvent hKey]
  rcases h.freshContent hFresh with hSame | ⟨d, hNone, hSome, -, -, hContent⟩
  · rw [hSame]
  · rw [hNone, hSome]
    simp [hContent, extra.hBody, childConflict]

/-- What another step that is stored in both databases mentions. -/
theorem Shadow.unmentioned_stored {runtime : Runtime} (h : extra.Shadow withExtra without)
    (hFresh : extra.Fresh without step) (hStep : extra.Unreached without step)
    {derived : DerivedTables}
    (hAfter : derivedAfter runtime step.now without step.row
      (step.decoded.map DecodedContent.content) = .ok derived) :
    ∀ id, extra.OwnId without id → id ∉ derived.mentioned := by
  intro id hOwn hMem
  rcases derivedAfter_mentioned hAfter id hMem with hOld | rfl | ⟨body, hBody, key, hKey, post, hPost, rfl⟩
  · exact h.unmentioned id hOwn hOld
  · rcases hOwn with hId | ⟨row, hRow, -, hId⟩
    · exact hFresh.distinct hId
    · exact hFresh.newId.event row hRow hId
  · -- A resolved reference is neither the extra event nor a copy of it.
    obtain ⟨hNot, hStored, rfl⟩ := mem_selectNotDeletedEvent.mp hPost
    have hEq := h.apart post hStored hOwn
    rw [hEq] at hKey hNot
    exact absurd (hStep.ownReference body hBody hKey) (by simp [hNot])

/-- The contents and tombstones after another step that is stored in both. -/
theorem Shadow.isTombstoned_stored (h : extra.Shadow withExtra without)
    (hFresh : extra.Fresh without step) {derived : DerivedTables}
    {tombstones : List ContentDeleteRow} (hTombstones : tombstonesOf step.decoded = .ok tombstones)
    (key : EventKeyParts) :
    (extra.target ≠ some key →
      (stored withExtra step.row step.decoded derived tombstones).isTombstoned key =
        (stored without step.row step.decoded derived tombstones).isTombstoned key) ∧
    (extra.target = some key →
      (stored without step.row step.decoded derived tombstones).isTombstoned key = true →
        (stored withExtra step.row step.decoded derived tombstones).isTombstoned key = true) := by
  rw [Server.isTombstoned_stored, Server.isTombstoned_stored]
  rcases h.freshContent hFresh with hSame | ⟨d, hNone, hSome, hDecoded, hDigest, hContent⟩
  · rw [hSame]
    refine ⟨fun hTarget => by rw [h.tombstoned key hTarget], fun hTarget hTomb => ?_⟩
    rw [Bool.or_eq_true] at hTomb ⊢
    exact hTomb.imp_left (h.target key hTarget)
  · rw [hDecoded] at hTombstones
    obtain ⟨parts, hParts, rfl⟩ := mem_tombstonesOf hContent hTombstones
    have hHas := (freshContent_eq_some_iff.mp hSome).2
    rw [hDigest] at hHas
    refine ⟨fun hTarget => ?_, fun hTarget _ => by simp [h.brought hHas key hTarget]⟩
    have hNe : parts ≠ key := fun hEq => hTarget (hEq ▸ hParts)
    simp [hNone, hNe, h.tombstoned key hTarget]

/-- Any other step is carried out in both databases or in neither. -/
theorem Shadow.step_other {runtime : Runtime} (h : extra.Shadow withExtra without)
    (hFresh : extra.Fresh without step) (hStep : extra.Unreached without step)
    (hKey : step.row.key ≠ extra.key) :
    extra.Shadow (step.run runtime withExtra) (step.run runtime without) := by
  have hDerived := step.derivedAfter_congr runtime h.derived fun hBody => h.sameView hStep hBody
  rcases AddStep.run_congr hDerived (h.isDuplicate hFresh hKey) with
    ⟨hWith, hWithout⟩ | ⟨derived, tombstones, hAfter, hTombstones, hWith, hWithout⟩
  · rwa [hWith, hWithout]
  · rw [hWith, hWithout]
    exact
      { derived := rfl
        events := by simpa [stored, hKey] using h.events
        present := by
          obtain ⟨row, hRow, hEq⟩ := h.present
          exact ⟨row, List.mem_append_left _ hRow, hEq⟩
        own := by
          intro row hRow hEq
          rcases List.mem_append.mp hRow with hOld | hNew
          · exact h.own row hOld hEq
          · obtain rfl := List.mem_singleton.mp hNew
            exact absurd hEq hKey
        apart := h.apart_stored hFresh
        unmentioned := by
          intro id hOwn
          rcases ownId_stored.mp hOwn with hOwn | ⟨hEq, -⟩
          · exact h.unmentioned_stored hFresh hStep hAfter id hOwn
          · exact absurd hEq hKey
        tombstoned := fun key => (h.isTombstoned_stored hFresh hTombstones key).1
        target := fun key => (h.isTombstoned_stored hFresh hTombstones key).2
        content := by
          intro digest hDigest
          rw [hasContent_stored, hasContent_stored, h.content digest hDigest]
          rcases h.freshContent hFresh with hSame | ⟨d, hNone, hSome, -, hEq, -⟩
          · rw [hSame]
          · simp [hNone, hSome, hEq, hDigest.symm]
        held := by simp [hasContent_stored, h.held]
        brought := by
          intro hHas key hTarget
          rw [hasContent_stored, Bool.or_eq_false_iff] at hHas
          simp [Server.isTombstoned_stored, h.brought hHas.1 key hTarget] }

/-- What is rejected without the extra event is rejected with it. -/
theorem Shadow.rejected {runtime : Runtime} (h : extra.Shadow withExtra without)
    (hFresh : extra.Fresh without step) (hStep : step.rejected runtime without = true) :
    step.rejected runtime withExtra = true := by
  by_cases hKey : step.row.key = extra.key
  · -- The extra event has taken the key.
    obtain ⟨row, hRow, hEq⟩ := h.present
    have hTaken : withExtra.event.any (fun stored => stored.key = step.row.key) = true :=
      List.any_eq_true.mpr ⟨row, hRow, decide_eq_true (hEq.trans hKey.symm)⟩
    simp [AddStep.rejected, Server.isDuplicate, hTaken]
  · rw [AddStep.rejected, h.isDuplicate hFresh hKey]
    exact hStep

theorem Shadow.run_step {runtime : Runtime} (h : extra.Shadow withExtra without)
    (hStep : extra.Fresh without step ∧ extra.Passes runtime without step) :
    extra.Shadow (step.run runtime withExtra) (step.run runtime without) := by
  obtain ⟨hFresh, hRejected | hUnreached⟩ := hStep
  · rw [AddStep.run_rejected hRejected, AddStep.run_rejected (h.rejected hFresh hRejected)]
    exact h
  · by_cases hKey : step.row.key = extra.key
    · exact h.step_own hFresh hKey (hUnreached.key hKey)
    · exact h.step_other hFresh hUnreached hKey

/-- The extra event itself: nothing changes, or the run with it starts. -/
theorem run_extra (extra : ForeignDelete) (runtime : Runtime) {db : Database}
    (hNew : db.NewId extra.step.row.id) :
    extra.step.run runtime db = db ∨ extra.Shadow (extra.step.run runtime db) db := by
  rcases run_own runtime db rfl rfl with hSame | ⟨hNone, parts, hParts, hRun⟩
  · exact Or.inl hSame
  · refine Or.inr ?_
    rw [hRun]
    have hOwn : ∀ id, extra.OwnId db id → id = extra.step.row.id := by
      rintro id (hId | ⟨row, hRow, hKey, -⟩)
      · exact hId
      · exact absurd hKey (hNone row hRow)
    exact
      { derived := rfl
        events := by simp [stored, ForeignDelete.key]
        present := ⟨extra.step.row, by simp [stored], rfl⟩
        own := by
          intro row hRow hKey
          rcases List.mem_append.mp hRow with hOld | hLast
          · exact absurd hKey (hNone row hOld)
          · rw [List.mem_singleton.mp hLast]
        apart := fun row hRow hId => absurd (hOwn row.id hId) (hNew.event row hRow)
        unmentioned := fun id hId => hOwn id hId ▸ hNew.derived
        tombstoned := by
          intro key hTarget
          have hNe : parts ≠ key := fun hEq => hTarget (hEq ▸ hParts)
          simp [Server.isTombstoned_stored, hNe]
        target := fun key _ hTomb => by simp [Server.isTombstoned_stored, hTomb]
        content := by
          intro digest hDigest
          cases hHas : db.hasContent extra.decoded.digest <;>
            simp [hasContent_stored, Server.freshContent, hHas, hDigest.symm]
        held := by
          cases hHas : db.hasContent extra.decoded.digest <;>
            simp [hasContent_stored, Server.freshContent, hHas]
        brought := by
          intro hHas key hTarget
          obtain rfl : parts = key := Option.some.inj (hParts.symm.trans hTarget)
          simp [Server.isTombstoned_stored, Server.freshContent, hHas] }

end ForeignDelete

/-- A `Delete` of another identity's event changes no derived table, neither at
once nor later, as long as no later event that is stored is reached by it. -/
theorem foreignDelete_inert (runtime : Runtime) (extra : ForeignDelete) (db : Database)
    (steps : List AddStep) (hNew : db.NewId extra.step.row.id)
    (hFresh : Along (AddStep.run runtime) extra.Fresh db steps)
    (hPasses : Along (AddStep.run runtime) (extra.Passes runtime) db steps) (n : Nat) :
    (run (AddStep.run runtime) (extra.step.run runtime db) (steps.take n)).derived =
      (run (AddStep.run runtime) db (steps.take n)).derived := by
  rcases extra.run_extra runtime hNew with hSame | hShadow
  · rw [hSame]
  · have hAlong := (hFresh.and hPasses).take n
    exact (run_related (fun h hStep => h.run_step hStep) hShadow hAlong).derived

/-! Alice has a post, mallory deletes it, and bob follows alice or reacts to it. -/

namespace InertDeletes

open TableInstance

def eventKey (collection : Int32) (identity : String) : EventKey :=
  ⟨collection, identity, some ⟨keyTypeEd25519, identity.toUTF8.toList⟩, 1⟩

def addStep (id : Nat) (collection : Int32) (identity : String) (body : ContentBody) : AddStep where
  now := 0
  row := ⟨id, .of (eventKey collection identity) ⟨keyTypeEd25519, identity.toUTF8.toList⟩, none, [], [], 0⟩
  decoded := some ⟨[], ⟨some body⟩, ⟨contentDigestTypeSha256, [UInt8.ofNat id]⟩⟩

def alicePost : AddStep := addStep 1 Collections.feed "alice" (.post ⟨"hello", none, [], none, []⟩)

def malloryDelete : ForeignDelete where
  step := addStep 2 Collections.feed "mallory" (.delete (some (eventKey Collections.feed "alice")))
  decoded := ⟨[], ⟨some (.delete (some (eventKey Collections.feed "alice")))⟩,
    ⟨contentDigestTypeSha256, [2]⟩⟩
  eventKey := eventKey Collections.feed "alice"
  hDecoded := rfl
  hBody := rfl
  hForeign := by decide

def bobFollow : AddStep := addStep 3 Collections.socialGraph "bob" (.follow "alice")

def bobReaction : AddStep :=
  addStep 3 Collections.interactions "bob"
    (.reaction ⟨some (eventKey Collections.feed "alice"), none, true⟩)

def database : Database := run (AddStep.run runtime) Database.empty [alicePost]

theorem database_newId : database.NewId malloryDelete.step.row.id where
  event := by decide +kernel
  derived := by decide +kernel

theorem addStep_fresh (collection : Int32) (identity : String) (body : ContentBody) :
    malloryDelete.Fresh database (addStep 3 collection identity body) where
  newId := (⟨by decide +kernel, by decide +kernel⟩ : database.NewId 3)
  distinct := (by decide : 3 ≠ 2)
  content := by
    rintro _ ⟨⟩ hDigest
    exact absurd hDigest (by decide : (⟨contentDigestTypeSha256, [3]⟩ : ContentDigest) ≠
      ⟨contentDigestTypeSha256, [2]⟩)

theorem bobFollow_unreached : malloryDelete.Unreached database bobFollow where
  key := by decide
  ownReference := by
    rintro _ ⟨⟩ hMem
    cases hMem
  reference := by
    rintro _ ⟨⟩ key hMem
    cases hMem

end InertDeletes

open InertDeletes TableInstance

theorem foreignDelete_inert_follow :
    (run (AddStep.run runtime) (malloryDelete.step.run runtime database) ([bobFollow].take 1)).derived =
      (run (AddStep.run runtime) database ([bobFollow].take 1)).derived :=
  foreignDelete_inert runtime malloryDelete database [bobFollow] database_newId
    ⟨addStep_fresh _ _ _, trivial⟩ ⟨Or.inr bobFollow_unreached, trivial⟩ 1

/-- A reaction is lost because of a `Delete` that may not delete anything. -/
theorem foreignDelete_not_inert_reaction :
    database.NewId malloryDelete.step.row.id ∧
      Along (AddStep.run runtime) malloryDelete.Fresh database [bobReaction] ∧
      (run (AddStep.run runtime) (malloryDelete.step.run runtime database) [bobReaction]).derived ≠
        (run (AddStep.run runtime) database [bobReaction]).derived :=
  ⟨database_newId, ⟨addStep_fresh _ _ _, trivial⟩, by decide +kernel⟩

end Polycentric.Server
