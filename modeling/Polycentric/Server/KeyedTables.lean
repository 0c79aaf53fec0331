import Polycentric.Server.Tallies

/-! The derived tables up to row ids and up to the order of rows: every id is
replaced by the key of its event. Over them, ingestion as one rule: an event drops
the rows that it clears, and adds its own rows whose reference resolves. -/
namespace Polycentric.Server

open Proto Result Runs

/-- A row of any derived table, with keys in place of ids. A column that its table
does not have is `none`; `subject` is the followee or the blocked identity. -/
structure KeyedRow where
  table : DerivedTable
  event : EventKeyParts
  identity : Option String := none
  post : Option EventKeyParts := none
  emoji : Option String := none
  positive : Option Bool := none
  subject : Option String := none
  name : Option String := none
  aliasName : Option String := none
  counts : Option (Int × Int) := none
  deriving DecidableEq, Repr

section Views

variable (keyOf : Nat → EventKeyParts)

def ReactionTallyRow.keyed (row : ReactionTallyRow) : KeyedRow where
  table := .reactionTally
  event := keyOf row.eventId
  counts := some (row.positiveCount, row.negativeCount)

def ReactionRow.keyed (row : ReactionRow) : KeyedRow where
  table := .reaction
  event := keyOf row.eventId
  identity := some row.identity
  post := some (keyOf row.onPost)
  emoji := row.emoji
  positive := some row.positive

def ReferenceRow.keyed (table : DerivedTable) (row : ReferenceRow) : KeyedRow where
  table := table
  event := keyOf row.eventId
  identity := some row.identity
  post := some (keyOf row.post)

def FollowRow.keyed (row : FollowRow) : KeyedRow where
  table := .follow
  event := keyOf row.eventId
  identity := some row.follower
  subject := some row.followee

def BlockRow.keyed (row : BlockRow) : KeyedRow where
  table := .block
  event := keyOf row.eventId
  identity := some row.blocker
  subject := some row.blocked

def ProfileRow.keyed (row : ProfileRow) : KeyedRow where
  table := .profile
  event := keyOf row.eventId
  identity := some row.identity
  name := row.name
  aliasName := row.aliasName

/-- All rows of the derived tables. -/
def DerivedTables.keyed (derived : DerivedTables) : Multiset KeyedRow :=
  (derived.reactionTally.map (·.keyed keyOf) : Multiset KeyedRow) +
    derived.reaction.map (·.keyed keyOf) + derived.quote.map (·.keyed keyOf .quote) +
    derived.reply.map (·.keyed keyOf .reply) + derived.repost.map (·.keyed keyOf .repost) +
    derived.follow.map (·.keyed keyOf) + derived.block.map (·.keyed keyOf) +
    derived.profile.map (·.keyed keyOf)

end Views

/-- The key of the event with the id. -/
def Database.keyOf (db : Database) (id : Nat) : EventKeyParts :=
  ((db.event.find? fun row => row.id = id).map EventRow.key).getD ⟨0, "", 0, [], 0⟩

/-- The derived tables up to row ids. -/
def Database.keyedRows (db : Database) : Multiset KeyedRow := db.derived.keyed db.keyOf

/-! ### Ingestion over keys -/

/-- An event with its content, as it arrives: nothing of it depends on the order. -/
structure ArrivedEvent where
  key : EventKeyParts
  decoded : Option DecodedContent
  deriving DecidableEq, Repr

def AddStep.event (step : AddStep) : ArrivedEvent := ⟨step.row.key, step.decoded⟩

namespace ArrivedEvent

variable (event : ArrivedEvent)

def body : Option ContentBody := event.decoded.bind fun d => d.content.contentBody

/-- The body by which the event updates the derived tables. -/
def authorisedBody : Option ContentBody :=
  if eventIsAuthorised event.key.identity (event.decoded.map DecodedContent.content) then event.body
  else none

/-- The key that the event deletes, authorised or not. -/
def tombstone : Option EventKeyParts := event.body.bind deletedKey

/-- The row that a reference of the event gives. -/
def reference (table : DerivedTable) (post : EventKeyParts) : KeyedRow where
  table := table
  event := event.key
  identity := some event.key.identity
  post := some post

/-- The rows of the event if all its references resolve. -/
def rows : List KeyedRow :=
  match event.authorisedBody with
  | some (.post post) =>
      { table := .reactionTally, event := event.key } ::
        ((partsOf post.quote).toList.map (event.reference .quote) ++
          (partsOf (post.reply.bind PostReply.parent)).toList.map (event.reference .reply))
  | some (.follow followee) =>
      [{ table := .follow, event := event.key, identity := event.key.identity, subject := followee }]
  | some (.block blocked) =>
      [{ table := .block, event := event.key, identity := event.key.identity, subject := blocked }]
  | some (.reaction reaction) => (partsOf reaction.eventKey).toList.map fun post =>
      { event.reference .reaction post with emoji := reaction.emoji, positive := reaction.positive }
  | some (.profileUpdate update) =>
      [{ table := .profile, event := event.key, identity := event.key.identity, name := update.name,
         aliasName := update.aliasName }]
  | some (.repost post) => (partsOf post).toList.map (event.reference .repost)
  | _ => []

end ArrivedEvent

/-- The row is cleared by a `Delete` of the key. -/
def KeyedRow.ClearedBy (row : KeyedRow) (key : EventKeyParts) : Prop :=
  (key.collection = collectionFeed ∧
    (row.table = .reactionTally ∧ row.event = key ∨
      (row.table = .quote ∨ row.table = .reply) ∧ (row.event = key ∨ row.post = some key) ∨
      row.table = .reaction ∧ row.post = some key)) ∨
  (key.collection = collectionProfile ∧ row.table = .profile ∧ row.event = key) ∨
  (key.collection = collectionSocial ∧ (row.table = .follow ∨ row.table = .block) ∧
    row.event = key) ∨
  (key.collection = collectionInteractions ∧ row.table = .reaction ∧ row.event = key)

instance (row : KeyedRow) (key : EventKeyParts) : Decidable (row.ClearedBy key) :=
  inferInstanceAs (Decidable (_ ∨ _))

section ClearedBy

variable {row : KeyedRow} {key : EventKeyParts}

theorem KeyedRow.clearedBy_feed (h : key.collection = collectionFeed) :
    row.ClearedBy key ↔ row.table = .reactionTally ∧ row.event = key ∨
      (row.table = .quote ∨ row.table = .reply) ∧ (row.event = key ∨ row.post = some key) ∨
      row.table = .reaction ∧ row.post = some key := by
  have hApart : collectionFeed ≠ collectionProfile ∧ collectionFeed ≠ collectionSocial ∧
      collectionFeed ≠ collectionInteractions := by decide
  simp [KeyedRow.ClearedBy, h, hApart]

theorem KeyedRow.clearedBy_profile (h : key.collection = collectionProfile) :
    row.ClearedBy key ↔ row.table = .profile ∧ row.event = key := by
  have hApart : collectionProfile ≠ collectionFeed ∧ collectionProfile ≠ collectionSocial ∧
      collectionProfile ≠ collectionInteractions := by decide
  simp [KeyedRow.ClearedBy, h, hApart]

theorem KeyedRow.clearedBy_social (h : key.collection = collectionSocial) :
    row.ClearedBy key ↔ (row.table = .follow ∨ row.table = .block) ∧ row.event = key := by
  have hApart : collectionSocial ≠ collectionFeed ∧ collectionSocial ≠ collectionProfile ∧
      collectionSocial ≠ collectionInteractions := by decide
  simp [KeyedRow.ClearedBy, h, hApart]

theorem KeyedRow.clearedBy_interactions (h : key.collection = collectionInteractions) :
    row.ClearedBy key ↔ row.table = .reaction ∧ row.event = key := by
  have hApart : collectionInteractions ≠ collectionFeed ∧
      collectionInteractions ≠ collectionProfile ∧ collectionInteractions ≠ collectionSocial := by
    decide
  simp [KeyedRow.ClearedBy, h, hApart]

end ClearedBy

namespace ArrivedEvent

variable (event : ArrivedEvent)

/-- The rows that the event drops: those that its `Delete` clears, or the previous
profile of its identity. -/
def drops (row : KeyedRow) : Bool :=
  match event.authorisedBody with
  | some (.delete eventKey) => (partsOf eventKey).any fun key => row.ClearedBy key
  | some (.profileUpdate _) => row.table = .profile ∧ row.identity = some event.key.identity
  | _ => false

/-- The references of the body are absent or complete. -/
def wellReferenced : Bool :=
  match event.authorisedBody with
  | some (.post post) => (post.quote.isNone || (partsOf post.quote).isSome) &&
      ((post.reply.bind PostReply.parent).isNone ||
        (partsOf (post.reply.bind PostReply.parent)).isSome)
  | some (.reaction reaction) => (partsOf reaction.eventKey).isSome
  | some (.repost post) => (partsOf post).isSome
  | some (.delete eventKey) => (partsOf eventKey).isSome
  | _ => true

/-- The event can be stored. -/
def wellFormed : Bool :=
  event.wellReferenced && (tombstonesOf event.decoded).isOk && !event.body.any childConflict

end ArrivedEvent

/-- The stored keys, the keys that stored content deletes, and the rows. -/
@[ext] structure Ledger where
  events : Finset EventKeyParts
  tombstones : Finset EventKeyParts
  rows : Multiset KeyedRow

namespace Ledger

def empty : Ledger := ⟨∅, ∅, 0⟩

/-- A reference to the key finds a post. -/
def Resolves (ledger : Ledger) (key : EventKeyParts) : Prop :=
  key ∈ ledger.events ∧ key ∉ ledger.tombstones

instance (ledger : Ledger) (key : EventKeyParts) : Decidable (ledger.Resolves key) :=
  inferInstanceAs (Decidable (_ ∧ _))

/-- The reference of the row, if it has one, finds a post. -/
def Admits (ledger : Ledger) (row : KeyedRow) : Prop :=
  ∀ key ∈ row.post.toList, ledger.Resolves key

instance (ledger : Ledger) (row : KeyedRow) : Decidable (ledger.Admits row) :=
  inferInstanceAs (Decidable (∀ key ∈ row.post.toList, ledger.Resolves key))

def ingest (ledger : Ledger) (event : ArrivedEvent) : Ledger :=
  if event.key ∈ ledger.events ∨ event.wellFormed = false then ledger
  else
    { events := insert event.key ledger.events
      tombstones := ledger.tombstones ∪ event.tombstone.toFinset
      rows := ledger.rows.filter (fun row => event.drops row = false) +
        (event.rows : Multiset KeyedRow).filter fun row => ledger.Admits row }

variable {ledger : Ledger} {event : ArrivedEvent}

theorem ingest_of_ignored (h : event.key ∈ ledger.events ∨ event.wellFormed = false) :
    ledger.ingest event = ledger := if_pos h

theorem ingest_of_new (hNew : event.key ∉ ledger.events) (hForm : event.wellFormed = true) :
    ledger.ingest event =
      { events := insert event.key ledger.events
        tombstones := ledger.tombstones ∪ event.tombstone.toFinset
        rows := ledger.rows.filter (fun row => event.drops row = false) +
          (event.rows : Multiset KeyedRow).filter fun row => ledger.Admits row } :=
  if_neg (by simp [hNew, hForm])

end Ledger

/-! ### Whole runs -/

namespace ArrivedEvent

variable {event : ArrivedEvent} {row : KeyedRow}

theorem rows_event (h : row ∈ event.rows) : row.event = event.key := by
  unfold rows at h
  split at h <;> simp [reference] at h
  · rcases h with rfl | ⟨_, _, rfl⟩ | ⟨_, _, rfl⟩ <;> rfl
  · rw [h]
  · rw [h]
  · obtain ⟨_, _, rfl⟩ := h
    rfl
  · rw [h]
  · obtain ⟨_, _, rfl⟩ := h
    rfl

theorem rows_counts (h : row ∈ event.rows) : row.counts = none := by
  unfold rows at h
  split at h <;> simp [reference] at h
  · rcases h with rfl | ⟨_, _, rfl⟩ | ⟨_, _, rfl⟩ <;> rfl
  · rw [h]
  · rw [h]
  · obtain ⟨_, _, rfl⟩ := h
    rfl
  · rw [h]
  · obtain ⟨_, _, rfl⟩ := h
    rfl

/-- An event with rows deletes nothing. -/
theorem tombstone_eq_none (h : row ∈ event.rows) : event.tombstone = none := by
  have hBody : ∀ body, event.authorisedBody = some body → event.body = some body := by
    intro body hBody
    unfold authorisedBody at hBody
    split at hBody
    · exact hBody
    · cases hBody
  unfold rows at h
  split at h
  case h_7 => cases h
  all_goals
    next hEq =>
    rw [tombstone, hBody _ hEq]
    rfl

/-- The rows of an event differ by their table. -/
theorem rows_nodup (event : ArrivedEvent) : event.rows.Nodup := by
  have hSingle : ∀ (key : Option EventKeyParts) (view : EventKeyParts → KeyedRow),
      (key.toList.map view).Nodup := by
    intro key view
    cases key with
    | none => exact List.nodup_nil
    | some key => exact List.nodup_singleton _
  unfold rows
  split
  case h_1 post _ =>
    rw [List.nodup_cons]
    constructor
    · simp [reference]
    · rw [List.nodup_append]
      refine ⟨hSingle _ _, hSingle _ _, ?_⟩
      intro quote hQuote reply hReply hEq
      obtain ⟨_, _, rfl⟩ := List.mem_map.mp hQuote
      obtain ⟨_, _, rfl⟩ := List.mem_map.mp hReply
      simp [reference] at hEq
  case h_4 => exact hSingle _ _
  case h_6 => exact hSingle _ _
  case h_7 => exact List.nodup_nil
  all_goals exact List.nodup_singleton _

end ArrivedEvent

/-- The ledger after the events, in order. -/
def ledgerOf (events : List ArrivedEvent) : Ledger := run Ledger.ingest Ledger.empty events

section LedgerOf

variable {events front : List ArrivedEvent} {event : ArrivedEvent} {key : EventKeyParts}
  {row : KeyedRow}

theorem ledgerOf_append : ledgerOf (front ++ [event]) = (ledgerOf front).ingest event := by
  simp [ledgerOf, run, List.foldl_append]

theorem ledgerOf_append_of_ignored (hForm : event.wellFormed = false) :
    ledgerOf (front ++ [event]) = ledgerOf front := by
  rw [ledgerOf_append, Ledger.ingest_of_ignored (Or.inr hForm)]

theorem mem_events_ledgerOf :
    key ∈ (ledgerOf events).events ↔ ∃ e ∈ events, e.wellFormed = true ∧ e.key = key := by
  induction events using List.reverseRecOn with
  | nil => simp [ledgerOf, run, Ledger.empty]
  | append_singleton front event ih =>
      rw [ledgerOf_append]
      by_cases hIgnored : event.key ∈ (ledgerOf front).events ∨ event.wellFormed = false
      · rw [Ledger.ingest_of_ignored hIgnored, ih]
        grind
      · rw [not_or, Bool.not_eq_false] at hIgnored
        rw [Ledger.ingest_of_new hIgnored.1 hIgnored.2, Finset.mem_insert, ih]
        grind

/-- A new event of a list with different keys is not ignored. -/
theorem key_notMem_ledgerOf (hKeys : ((front ++ [event]).map ArrivedEvent.key).Nodup) :
    event.key ∉ (ledgerOf front).events := by
  intro hMem
  obtain ⟨other, hOther, -, hKey⟩ := mem_events_ledgerOf.mp hMem
  rw [List.map_append, List.nodup_append] at hKeys
  exact hKeys.2.2 other.key (List.mem_map_of_mem hOther) event.key (by simp) hKey

theorem nodup_front (hKeys : ((front ++ [event]).map ArrivedEvent.key).Nodup) :
    (front.map ArrivedEvent.key).Nodup := by
  rw [List.map_append, List.nodup_append] at hKeys
  exact hKeys.1

theorem mem_tombstones_ledgerOf (hKeys : (events.map ArrivedEvent.key).Nodup) :
    key ∈ (ledgerOf events).tombstones ↔
      ∃ e ∈ events, e.wellFormed = true ∧ e.tombstone = some key := by
  induction events using List.reverseRecOn with
  | nil => simp [ledgerOf, run, Ledger.empty]
  | append_singleton front event ih =>
      specialize ih (nodup_front hKeys)
      cases hForm : event.wellFormed with
      | false =>
          rw [ledgerOf_append_of_ignored hForm, ih]
          grind
      | true =>
          rw [ledgerOf_append, Ledger.ingest_of_new (key_notMem_ledgerOf hKeys) hForm,
            Finset.mem_union, ih, Option.mem_toFinset]
          simp [or_and_right, exists_or, hForm]

/-- A row is there at the end if its reference resolved when its event came, and
no later event dropped it. -/
theorem mem_rows_ledgerOf (hKeys : (events.map ArrivedEvent.key).Nodup) :
    row ∈ (ledgerOf events).rows ↔ ∃ front event back, events = front ++ event :: back ∧
      event.wellFormed = true ∧ row ∈ event.rows ∧ (ledgerOf front).Admits row ∧
      ∀ e ∈ back, e.wellFormed = true → e.drops row = false := by
  induction events using List.reverseRecOn with
  | nil => simp [ledgerOf, run, Ledger.empty]
  | append_singleton front last ih =>
      specialize ih (nodup_front hKeys)
      -- The last event brings the row, or it keeps a row that was there before.
      have hSplit : (∃ first event back, front ++ [last] = first ++ event :: back ∧
          event.wellFormed = true ∧ row ∈ event.rows ∧ (ledgerOf first).Admits row ∧
          ∀ e ∈ back, e.wellFormed = true → e.drops row = false) ↔
          (row ∈ (ledgerOf front).rows ∧ (last.wellFormed = true → last.drops row = false)) ∨
            (last.wellFormed = true ∧ row ∈ last.rows ∧ (ledgerOf front).Admits row) := by
        rw [ih]
        constructor
        · rintro ⟨first, event, back, hEq, hForm, hRow, hAdmits, hBack⟩
          rcases List.eq_nil_or_concat back with rfl | ⟨back, e, rfl⟩
          · obtain ⟨rfl, hLast⟩ := List.append_inj' hEq rfl
            cases hLast
            exact Or.inr ⟨hForm, hRow, hAdmits⟩
          · rw [List.concat_eq_append, ← List.cons_append, ← List.append_assoc] at hEq
            obtain ⟨rfl, hLast⟩ := List.append_inj' hEq rfl
            cases hLast
            refine Or.inl ⟨⟨first, event, back, rfl, hForm, hRow, hAdmits, ?_⟩, ?_⟩
            · intro e he
              exact hBack e (by simp [he])
            · exact hBack last (by simp)
        · rintro (⟨⟨first, event, back, rfl, hForm, hRow, hAdmits, hBack⟩, hKept⟩ |
            ⟨hForm, hRow, hAdmits⟩)
          · refine ⟨first, event, back ++ [last], by simp, hForm, hRow, hAdmits, ?_⟩
            intro e he
            rcases List.mem_append.mp he with hOld | hLast
            · exact hBack e hOld
            · rw [List.mem_singleton.mp hLast]
              exact hKept
          · exact ⟨front, last, [], rfl, hForm, hRow, hAdmits, by simp⟩
      rw [hSplit]
      cases hForm : last.wellFormed with
      | false =>
          rw [ledgerOf_append_of_ignored hForm]
          simp
      | true =>
          rw [ledgerOf_append, Ledger.ingest_of_new (key_notMem_ledgerOf hKeys) hForm]
          simp [Multiset.mem_add, Multiset.mem_filter]

theorem nodup_rows_ledgerOf (hKeys : (events.map ArrivedEvent.key).Nodup) :
    (ledgerOf events).rows.Nodup := by
  induction events using List.reverseRecOn with
  | nil => exact Multiset.nodup_zero
  | append_singleton front last ih =>
      have hFront := nodup_front hKeys
      specialize ih hFront
      cases hForm : last.wellFormed with
      | false => rwa [ledgerOf_append_of_ignored hForm]
      | true =>
          rw [ledgerOf_append, Ledger.ingest_of_new (key_notMem_ledgerOf hKeys) hForm]
          have hOwn : (last.rows : Multiset KeyedRow).Nodup := last.rows_nodup
          refine Multiset.nodup_add.mpr ⟨ih.filter _, hOwn.filter _, ?_⟩
          rw [Multiset.disjoint_left]
          intro row hOld hNew
          -- Rows name their event, and the last event is new.
          obtain ⟨first, event, back, rfl, hEvent, hRow, -⟩ :=
            (mem_rows_ledgerOf hFront).mp (Multiset.mem_of_mem_filter hOld)
          have hLast : row ∈ last.rows := Multiset.mem_of_mem_filter hNew
          apply key_notMem_ledgerOf hKeys
          rw [mem_events_ledgerOf]
          refine ⟨event, by simp, hEvent, ?_⟩
          rw [← ArrivedEvent.rows_event hRow, ← ArrivedEvent.rows_event hLast]

end LedgerOf

end Polycentric.Server
