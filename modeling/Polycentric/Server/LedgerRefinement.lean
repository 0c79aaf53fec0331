import Polycentric.Server.KeyedTables

/-! The database refines the ledger: a step of `add_event` ingests its event, and
the derived tables up to row ids are a function of the ledger. -/
namespace Polycentric.Server

open Proto Result Runs

section Outline

variable (keyOf : Nat → EventKeyParts)

/-- The row of a tally, without its counts. -/
def ReactionTallyRow.outlined (row : ReactionTallyRow) : KeyedRow where
  table := .reactionTally
  event := keyOf row.eventId

/-- All rows of the derived tables, without the counts. -/
def DerivedTables.outlined (derived : DerivedTables) : Multiset KeyedRow :=
  (derived.reactionTally.map (·.outlined keyOf) : Multiset KeyedRow) +
    derived.reaction.map (·.keyed keyOf) + derived.quote.map (·.keyed keyOf .quote) +
    derived.reply.map (·.keyed keyOf .reply) + derived.repost.map (·.keyed keyOf .repost) +
    derived.follow.map (·.keyed keyOf) + derived.block.map (·.keyed keyOf) +
    derived.profile.map (·.keyed keyOf)

variable {keyOf} {derived derived' : DerivedTables}

theorem coe_map_filter {α : Type} {table : List α} {view : α → KeyedRow} {keep : α → Bool}
    {p : KeyedRow → Prop} [DecidablePred p] (h : ∀ r ∈ table, keep r = true ↔ p (view r)) :
    (((table.filter keep).map view : List KeyedRow) : Multiset KeyedRow) =
      (table.map view : Multiset KeyedRow).filter p := by
  rw [Multiset.filter_coe, List.filter_map, List.filter_congr (q := (fun b => decide (p b)) ∘ view)]
  intro r hr
  rw [Bool.eq_iff_iff, h r hr, Function.comp, decide_eq_true_eq]

theorem outlined_eq_filter {p : KeyedRow → Prop} [DecidablePred p]
    (hTally : (derived'.reactionTally.map (·.outlined keyOf) : Multiset KeyedRow) =
      (derived.reactionTally.map (·.outlined keyOf) : Multiset KeyedRow).filter p)
    (hReaction : (derived'.reaction.map (·.keyed keyOf) : Multiset KeyedRow) =
      (derived.reaction.map (·.keyed keyOf) : Multiset KeyedRow).filter p)
    (hQuote : (derived'.quote.map (·.keyed keyOf .quote) : Multiset KeyedRow) =
      (derived.quote.map (·.keyed keyOf .quote) : Multiset KeyedRow).filter p)
    (hReply : (derived'.reply.map (·.keyed keyOf .reply) : Multiset KeyedRow) =
      (derived.reply.map (·.keyed keyOf .reply) : Multiset KeyedRow).filter p)
    (hRepost : (derived'.repost.map (·.keyed keyOf .repost) : Multiset KeyedRow) =
      (derived.repost.map (·.keyed keyOf .repost) : Multiset KeyedRow).filter p)
    (hFollow : (derived'.follow.map (·.keyed keyOf) : Multiset KeyedRow) =
      (derived.follow.map (·.keyed keyOf) : Multiset KeyedRow).filter p)
    (hBlock : (derived'.block.map (·.keyed keyOf) : Multiset KeyedRow) =
      (derived.block.map (·.keyed keyOf) : Multiset KeyedRow).filter p)
    (hProfile : (derived'.profile.map (·.keyed keyOf) : Multiset KeyedRow) =
      (derived.profile.map (·.keyed keyOf) : Multiset KeyedRow).filter p) :
    derived'.outlined keyOf = (derived.outlined keyOf).filter p := by
  simp only [DerivedTables.outlined, Multiset.filter_add, hTally, hReaction, hQuote, hReply, hRepost,
    hFollow, hBlock, hProfile]

theorem coe_map_all {α : Type} {table : List α} {view : α → KeyedRow} {p : KeyedRow → Prop}
    [DecidablePred p] (h : ∀ r ∈ table, p (view r)) :
    ((table.map view : List KeyedRow) : Multiset KeyedRow) =
      (table.map view : Multiset KeyedRow).filter p := by
  rw [eq_comm, Multiset.filter_eq_self]
  intro row hRow
  obtain ⟨r, hr, rfl⟩ := List.mem_map.mp (Multiset.mem_coe.mp hRow)
  exact h r hr

end Outline

/-- The database as a ledger. -/
def Database.ledger (db : Database) : Ledger where
  events := (db.event.map EventRow.key).toFinset
  tombstones := (db.contentDelete.map ContentDeleteRow.eventKey).toFinset
  rows := db.derived.outlined db.keyOf

/-- Ids stand for keys one to one. -/
theorem Database.Regular.keyOf_eq {db : Database} (h : db.Regular) {row : EventRow}
    (hRow : row ∈ db.event) : db.keyOf row.id = row.key := by
  unfold Database.keyOf
  cases hFind : db.event.find? fun other => other.id = row.id with
  | none => exact absurd (List.find?_eq_none.mp hFind row hRow) (by simp)
  | some other =>
      have hId := List.find?_some hFind
      rw [decide_eq_true_eq] at hId
      obtain rfl := eq_of_column_eq h.ids (List.mem_of_find?_eq_some hFind) hRow hId
      rfl

section Simulation

variable {runtime : Runtime} {now : Int} {db : Database} {eventId : Nat} {derived : DerivedTables}
  {keyOf : Nat → EventKeyParts} {event : ArrivedEvent}

theorem mem_ledger_events {key : EventKeyParts} :
    key ∈ db.ledger.events ↔ ∃ row ∈ db.event, row.key = key := by
  simp [Database.ledger]

theorem mem_ledger_tombstones {key : EventKeyParts} :
    key ∈ db.ledger.tombstones ↔ db.isTombstoned key = true := by
  simp [Database.ledger, Database.isTombstoned]

/-- The id of a stored event is selected by its key. -/
theorem mem_selectEvent_iff (hRegular : db.Regular) (hView : ∀ row ∈ db.event, keyOf row.id = row.key)
    {id : Nat} (hId : id ∈ db.derived.mentioned) (key : EventKeyParts) :
    id ∈ (db.selectEvent key).map EventRow.id ↔ keyOf id = key := by
  obtain ⟨row, hRow, rfl⟩ := hRegular.mentioned id hId
  rw [hView row hRow]
  simp only [Database.selectEvent, List.mem_map, List.mem_filter, decide_eq_true_eq]
  constructor
  · rintro ⟨other, ⟨hOther, hKey⟩, hEq⟩
    rw [← eq_of_column_eq hRegular.ids hOther hRow hEq]
    exact hKey
  · intro hKey
    exact ⟨row, ⟨hRow, hKey⟩, rfl⟩

/-- A reference gives one row if it resolves, and none otherwise. -/
theorem map_selectNotDeletedEvent (hRegular : db.Regular)
    (hView : ∀ row ∈ db.event, keyOf row.id = row.key) (key : EventKeyParts)
    (view : EventKeyParts → KeyedRow) :
    (db.selectNotDeletedEvent key).map (fun post => view (keyOf post.id)) =
      if db.ledger.Resolves key then [view key] else [] := by
  rcases hRegular.selectNotDeletedEvent_cases key with hNone | ⟨post, hPost, hKey, hOne⟩
  · have hNot : ¬db.ledger.Resolves key := by
      rintro ⟨hEvent, hAlive⟩
      obtain ⟨row, hRow, hKey⟩ := mem_ledger_events.mp hEvent
      rw [mem_ledger_tombstones, Bool.not_eq_true] at hAlive
      have hMem := mem_selectNotDeletedEvent.mpr ⟨hAlive, hRow, hKey⟩
      rw [hNone] at hMem
      cases hMem
    rw [hNone, if_neg hNot, List.map_nil]
  · have hMem : post ∈ db.selectNotDeletedEvent key := hOne ▸ List.mem_singleton_self post
    obtain ⟨hAlive, -, -⟩ := mem_selectNotDeletedEvent.mp hMem
    have hResolves : db.ledger.Resolves key := by
      refine ⟨mem_ledger_events.mpr ⟨post, hPost, hKey⟩, ?_⟩
      rw [mem_ledger_tombstones, hAlive]
      exact Bool.false_ne_true
    rw [hOne, if_pos hResolves, List.map_singleton, hView post hPost, hKey]

/-- The rows of one reference, as far as the ledger admits them. -/
theorem filter_admits_reference (key : Option EventKey) {view : EventKeyParts → KeyedRow}
    (hPost : ∀ k, (view k).post = some k) (ledger : Ledger) :
    (((partsOf key).toList.map view : List KeyedRow) : Multiset KeyedRow).filter
        (fun row => ledger.Admits row) =
      ((partsOf key).toList.flatMap fun k => if ledger.Resolves k then [view k] else [] :
        List KeyedRow) := by
  cases partsOf key with
  | none => rfl
  | some k =>
      have hAdmits : ledger.Admits (view k) ↔ ledger.Resolves k := by
        simp [Ledger.Admits, hPost]
      simp only [Option.toList_some, List.map_cons, List.map_nil, List.flatMap_cons,
        List.flatMap_nil, List.append_nil, Multiset.filter_coe]
      by_cases hResolves : ledger.Resolves k
      · rw [if_pos hResolves, List.filter_cons_of_pos (by simpa using hAdmits.mpr hResolves),
          List.filter_nil]
      · rw [if_neg hResolves, List.filter_cons_of_neg (by simpa using fun h => hResolves (hAdmits.mp h)),
          List.filter_nil]

/-- A reference brings its row if the ledger admits it. -/
theorem referenceRows_keyed (hRegular : db.Regular)
    (hView : ∀ row ∈ db.event, keyOf row.id = row.key) (hOwn : keyOf eventId = event.key)
    (table : DerivedTable) {key : Option EventKey} {subject : String} {rows : List ReferenceRow}
    (h : referenceRows db eventId event.key.identity key subject = .ok rows) :
    ((rows.map (·.keyed keyOf table) : List KeyedRow) : Multiset KeyedRow) =
      ((partsOf key).toList.map (event.reference table) : Multiset KeyedRow).filter
        fun row => db.ledger.Admits row := by
  simp only [referenceRows, bind_eq_ok_iff, pure, Except.pure, Except.ok.injEq] at h
  obtain ⟨parts, hParts, rfl⟩ := h
  rw [splitEventKey_eq_ok_iff] at hParts
  rw [filter_admits_reference key (fun _ => rfl), hParts, List.map_map]
  have hRows : (db.selectNotDeletedEvent parts).map
      ((fun row : ReferenceRow => row.keyed keyOf table) ∘
        fun post => ⟨eventId, event.key.identity, post.id⟩) =
      (db.selectNotDeletedEvent parts).map fun post => event.reference table (keyOf post.id) := by
    apply List.map_congr_left
    intro post _
    simp only [Function.comp, ReferenceRow.keyed, hOwn, ArrivedEvent.reference]
  rw [hRows, map_selectNotDeletedEvent hRegular hView]
  simp

theorem optionalReferenceRows_keyed (hRegular : db.Regular)
    (hView : ∀ row ∈ db.event, keyOf row.id = row.key) (hOwn : keyOf eventId = event.key)
    (table : DerivedTable) {key : Option EventKey} {subject : String} {rows : List ReferenceRow}
    (h : optionalReferenceRows db eventId event.key.identity key subject = .ok rows) :
    ((rows.map (·.keyed keyOf table) : List KeyedRow) : Multiset KeyedRow) =
      ((partsOf key).toList.map (event.reference table) : Multiset KeyedRow).filter
        fun row => db.ledger.Admits row := by
  cases key with
  | none =>
      obtain rfl := Except.ok.inj h
      rfl
  | some key => exact referenceRows_keyed hRegular hView hOwn table h

/-- Counting leaves the outline of a tally as it is. -/
theorem map_outlined_map {f : ReactionTallyRow → ReactionTallyRow}
    (h : ∀ tally, (f tally).eventId = tally.eventId) (tallies : List ReactionTallyRow) :
    (tallies.map f).map (·.outlined keyOf) = tallies.map (·.outlined keyOf) := by
  rw [List.map_map]
  apply List.map_congr_left
  intro tally _
  rw [Function.comp, ReactionTallyRow.outlined, ReactionTallyRow.outlined, h]

/-- A row without a reference is admitted. -/
theorem filter_admits_singleton {row : KeyedRow} (h : row.post = none) (ledger : Ledger) :
    (([row] : List KeyedRow) : Multiset KeyedRow).filter (fun row => ledger.Admits row) = [row] := by
  rw [Multiset.filter_eq_self]
  intro other hOther
  rw [List.mem_singleton.mp (Multiset.mem_coe.mp hOther)]
  simp [Ledger.Admits, h]

/-- The rows that a non-deleting event leaves. -/
theorem filter_drops_none (h : ∀ row, event.drops row = false) (rows : Multiset KeyedRow) :
    rows.filter (fun row => event.drops row = false) = rows :=
  Multiset.filter_eq_self.mpr fun row _ => h row

/-- A post brings the rows of its references that the ledger admits. -/
theorem postQuery_outlined (hRegular : db.Regular)
    (hView : ∀ row ∈ db.event, keyOf row.id = row.key) (hOwn : keyOf eventId = event.key)
    {post : Post} (hBody : event.authorisedBody = some (.post post))
    (hQuery : postQuery runtime now db eventId event.key.identity post = .ok derived) :
    derived.outlined keyOf = db.derived.outlined keyOf +
      (event.rows : Multiset KeyedRow).filter fun row => db.ledger.Admits row := by
  simp only [postQuery, bind_eq_ok_iff, pure, Except.pure, Except.ok.injEq] at hQuery
  obtain ⟨quotes, hQuotes, replies, hReplies, rfl⟩ := hQuery
  have hTally : ReactionTallyRow.outlined keyOf
      ⟨eventId, 0, 0, runtime.reactionCountDecay 0 now⟩ =
        { table := .reactionTally, event := event.key } := by
    rw [ReactionTallyRow.outlined, hOwn]
  have hRows : (event.rows : Multiset KeyedRow) =
      ([{ table := .reactionTally, event := event.key }] : List KeyedRow) +
        (((partsOf post.quote).toList.map (event.reference .quote) : List KeyedRow) +
        ((partsOf (post.reply.bind PostReply.parent)).toList.map (event.reference .reply) :
          List KeyedRow) : Multiset KeyedRow) := by
    simp only [ArrivedEvent.rows, hBody, Multiset.coe_add, List.singleton_append]
  rw [hRows, Multiset.filter_add, Multiset.filter_add, filter_admits_singleton rfl,
    ← optionalReferenceRows_keyed hRegular hView hOwn .quote hQuotes,
    ← optionalReferenceRows_keyed hRegular hView hOwn .reply hReplies]
  simp only [DerivedTables.outlined, List.map_append, List.map_cons, List.map_nil, hTally,
    ← Multiset.coe_add]
  abel

/-- A reaction brings its row if the ledger admits it. -/
theorem reactionQuery_outlined (hRegular : db.Regular)
    (hView : ∀ row ∈ db.event, keyOf row.id = row.key) (hOwn : keyOf eventId = event.key)
    {reaction : Reaction} (hBody : event.authorisedBody = some (.reaction reaction))
    (hQuery : reactionQuery runtime db eventId event.key.identity reaction = .ok derived) :
    derived.outlined keyOf = db.derived.outlined keyOf +
      (event.rows : Multiset KeyedRow).filter fun row => db.ledger.Admits row := by
  simp only [reactionQuery, bind_eq_ok_iff, pure, Except.pure, Except.ok.injEq] at hQuery
  obtain ⟨parts, hParts, rfl⟩ := hQuery
  rw [splitEventKey_eq_ok_iff] at hParts
  let view (key : EventKeyParts) : KeyedRow :=
    { event.reference .reaction key with emoji := reaction.emoji, positive := reaction.positive }
  have hRows : ((event.rows : Multiset KeyedRow).filter fun row => db.ledger.Admits row) =
      ((db.selectNotDeletedEvent parts).map fun post => view (keyOf post.id) : List KeyedRow) := by
    have hEvent : event.rows = (partsOf reaction.eventKey).toList.map view := by
      simp only [ArrivedEvent.rows, hBody, view]
    rw [hEvent, filter_admits_reference _ (fun _ => rfl), hParts,
      map_selectNotDeletedEvent hRegular hView]
    simp
  have hNew : (db.selectNotDeletedEvent parts).map
      ((fun row : ReactionRow => row.keyed keyOf) ∘ fun post =>
        ⟨eventId, event.key.identity, post.id, reaction.emoji, reaction.positive⟩) =
      (db.selectNotDeletedEvent parts).map fun post => view (keyOf post.id) := by
    apply List.map_congr_left
    intro post _
    simp only [Function.comp, ReactionRow.keyed, hOwn, view, ArrivedEvent.reference]
  simp only [DerivedTables.outlined]
  rw [map_outlined_map]
  · simp only [List.map_append, List.map_map, hNew, hRows, ← Multiset.coe_add]
    abel
  · -- Counting a reaction changes no row but its counts.
    intro tally
    split
    · exact countReaction_eventId
    · rfl

/-- A repost brings its row if the ledger admits it. -/
theorem repostQuery_outlined (hRegular : db.Regular)
    (hView : ∀ row ∈ db.event, keyOf row.id = row.key) (hOwn : keyOf eventId = event.key)
    {post : Option EventKey} (hBody : event.authorisedBody = some (.repost post))
    (hQuery : repostQuery db eventId event.key.identity post = .ok derived) :
    derived.outlined keyOf = db.derived.outlined keyOf +
      (event.rows : Multiset KeyedRow).filter fun row => db.ledger.Admits row := by
  simp only [repostQuery, bind_eq_ok_iff, pure, Except.pure, Except.ok.injEq] at hQuery
  obtain ⟨reposts, hReposts, rfl⟩ := hQuery
  have hRows : event.rows = (partsOf post).toList.map (event.reference .repost) := by
    simp only [ArrivedEvent.rows, hBody]
  rw [hRows, ← referenceRows_keyed hRegular hView hOwn .repost hReposts]
  simp only [DerivedTables.outlined, List.map_append, ← Multiset.coe_add]
  abel

/-- The rows of the derived tables mention stored events. -/
theorem selects_own (hRegular : db.Regular) (hView : ∀ row ∈ db.event, keyOf row.id = row.key)
    (key : EventKeyParts) :
    ∀ row ∈ db.derived.rows,
      (row.eventId ∈ (db.selectEvent key).map EventRow.id ↔ keyOf row.eventId = key) ∧
        ∀ post, row.post = some post →
          (post ∈ (db.selectEvent key).map EventRow.id ↔ keyOf post = key) := by
  intro row hRow
  refine ⟨mem_selectEvent_iff hRegular hView ?_ key, fun post hPost =>
    mem_selectEvent_iff hRegular hView ?_ key⟩
  · exact DerivedTables.mem_mentioned.mpr ⟨row, hRow, Or.inl rfl⟩
  · exact DerivedTables.mem_mentioned.mpr ⟨row, hRow, Or.inr hPost⟩

/-- A deletion takes the rows that the ledger drops. -/
theorem deleteQuery_outlined (hRegular : db.Regular)
    (hView : ∀ row ∈ db.event, keyOf row.id = row.key) {eventKey : Option EventKey}
    (hBody : event.authorisedBody = some (.delete eventKey))
    (hQuery : deleteQuery runtime db eventKey = .ok derived) :
    derived.outlined keyOf =
      (db.derived.outlined keyOf).filter fun row => event.drops row = false := by
  simp only [deleteQuery, bind_eq_ok_iff, pure, Except.pure, Except.ok.injEq] at hQuery
  obtain ⟨key, hKey, rfl⟩ := hQuery
  rw [splitEventKey_eq_ok_iff] at hKey
  have hDrops : ∀ row, event.drops row = false ↔ ¬row.ClearedBy key := by
    intro row
    simp [ArrivedEvent.drops, hBody, hKey]
  have hSelects := selects_own hRegular hView key
  rw [DerivedTables.forall_rows] at hSelects
  obtain ⟨hTally, hReaction, hQuote, hReply, hRepost, hFollow, hBlock, hProfile⟩ := hSelects
  simp only [hDrops]
  split_ifs with hFeed hIsProfile hSocial hInteractions
  · simp only [KeyedRow.clearedBy_feed hFeed]
    refine outlined_eq_filter (coe_map_filter fun r hr => ?_) (coe_map_filter fun r hr => ?_)
      (coe_map_filter fun r hr => ?_) (coe_map_filter fun r hr => ?_)
      (coe_map_all fun r _ => by simp [ReferenceRow.keyed])
      (coe_map_all fun r _ => by simp [FollowRow.keyed])
      (coe_map_all fun r _ => by simp [BlockRow.keyed])
      (coe_map_all fun r _ => by simp [ProfileRow.keyed])
    · grind [hTally r hr, ReactionTallyRow.view, ReactionTallyRow.outlined]
    · grind [hReaction r hr, ReactionRow.view, ReactionRow.keyed]
    · grind [hQuote r hr, ReferenceRow.view, ReferenceRow.keyed]
    · grind [hReply r hr, ReferenceRow.view, ReferenceRow.keyed]
  · simp only [KeyedRow.clearedBy_profile hIsProfile]
    refine outlined_eq_filter (coe_map_all fun r _ => by simp [ReactionTallyRow.outlined])
      (coe_map_all fun r _ => by simp [ReactionRow.keyed])
      (coe_map_all fun r _ => by simp [ReferenceRow.keyed])
      (coe_map_all fun r _ => by simp [ReferenceRow.keyed])
      (coe_map_all fun r _ => by simp [ReferenceRow.keyed])
      (coe_map_all fun r _ => by simp [FollowRow.keyed])
      (coe_map_all fun r _ => by simp [BlockRow.keyed]) (coe_map_filter fun r hr => ?_)
    grind [hProfile r hr, ProfileRow.view, ProfileRow.keyed]
  · simp only [KeyedRow.clearedBy_social hSocial]
    refine outlined_eq_filter (coe_map_all fun r _ => by simp [ReactionTallyRow.outlined])
      (coe_map_all fun r _ => by simp [ReactionRow.keyed])
      (coe_map_all fun r _ => by simp [ReferenceRow.keyed])
      (coe_map_all fun r _ => by simp [ReferenceRow.keyed])
      (coe_map_all fun r _ => by simp [ReferenceRow.keyed]) (coe_map_filter fun r hr => ?_)
      (coe_map_filter fun r hr => ?_) (coe_map_all fun r _ => by simp [ProfileRow.keyed])
    · grind [hFollow r hr, FollowRow.view, FollowRow.keyed]
    · grind [hBlock r hr, BlockRow.view, BlockRow.keyed]
  · simp only [KeyedRow.clearedBy_interactions hInteractions]
    refine outlined_eq_filter ?_ (coe_map_filter fun r hr => ?_)
      (coe_map_all fun r _ => by simp [ReferenceRow.keyed])
      (coe_map_all fun r _ => by simp [ReferenceRow.keyed])
      (coe_map_all fun r _ => by simp [ReferenceRow.keyed])
      (coe_map_all fun r _ => by simp [FollowRow.keyed])
      (coe_map_all fun r _ => by simp [BlockRow.keyed])
      (coe_map_all fun r _ => by simp [ProfileRow.keyed])
    · unfold deleteReaction
      rw [map_outlined_map]
      · exact coe_map_all fun r _ => by simp [ReactionTallyRow.outlined]
      · intro tally
        split
        · exact uncountReaction_eventId
        · rfl
    · grind [hReaction r hr, ReactionRow.view, ReactionRow.keyed]
  · have hNone : ∀ row : KeyedRow, ¬row.ClearedBy key := by
      intro row
      simp [KeyedRow.ClearedBy, hFeed, hIsProfile, hSocial, hInteractions]
    simp [hNone]

/-- A profile update takes the row before it and brings its own. -/
theorem profileUpdateQuery_outlined (hOwn : keyOf eventId = event.key) {update : ProfileUpdate}
    (hBody : event.authorisedBody = some (.profileUpdate update)) (ledger : Ledger) :
    (profileUpdateQuery db eventId event.key.identity update).outlined keyOf =
      ((db.derived.outlined keyOf).filter fun row => event.drops row = false) +
        (event.rows : Multiset KeyedRow).filter fun row => ledger.Admits row := by
  have hDrops : ∀ row, event.drops row = false ↔
      ¬(row.table = .profile ∧ row.identity = some event.key.identity) := by
    intro row
    simp [ArrivedEvent.drops, hBody]
  have hRows : event.rows = [ProfileRow.keyed keyOf
      ⟨eventId, event.key.identity, update.name, update.aliasName⟩] := by
    simp only [ArrivedEvent.rows, hBody, ProfileRow.keyed, hOwn]
  have hKept : ({ db.derived with
      profile := db.derived.profile.filter fun row => row.identity ≠ event.key.identity } :
        DerivedTables).outlined keyOf =
      (db.derived.outlined keyOf).filter fun row => event.drops row = false := by
    simp only [hDrops]
    refine outlined_eq_filter (coe_map_all fun r _ => by simp [ReactionTallyRow.outlined])
      (coe_map_all fun r _ => by simp [ReactionRow.keyed])
      (coe_map_all fun r _ => by simp [ReferenceRow.keyed])
      (coe_map_all fun r _ => by simp [ReferenceRow.keyed])
      (coe_map_all fun r _ => by simp [ReferenceRow.keyed])
      (coe_map_all fun r _ => by simp [FollowRow.keyed])
      (coe_map_all fun r _ => by simp [BlockRow.keyed])
      (coe_map_filter fun r _ => by simp [ProfileRow.keyed])
  rw [← hKept, hRows, filter_admits_singleton rfl]
  simp only [profileUpdateQuery, DerivedTables.outlined, List.map_append, List.map_cons,
    List.map_nil, ← Multiset.coe_add]
  abel

/-- An update of the derived tables, over keys. -/
theorem updateCache_outlined (hRegular : db.Regular)
    (hView : ∀ row ∈ db.event, keyOf row.id = row.key) (hOwn : keyOf eventId = event.key)
    {body : ContentBody} (hBody : event.authorisedBody = some body)
    (hUpdate : updateCache runtime now db eventId event.key.identity body = .ok derived) :
    derived.outlined keyOf =
      ((db.derived.outlined keyOf).filter fun row => event.drops row = false) +
        (event.rows : Multiset KeyedRow).filter fun row => db.ledger.Admits row := by
  cases body with
  | post post =>
      rw [filter_drops_none fun row => by simp [ArrivedEvent.drops, hBody]]
      exact postQuery_outlined hRegular hView hOwn hBody hUpdate
  | reaction reaction =>
      rw [filter_drops_none fun row => by simp [ArrivedEvent.drops, hBody]]
      exact reactionQuery_outlined hRegular hView hOwn hBody hUpdate
  | repost post =>
      rw [filter_drops_none fun row => by simp [ArrivedEvent.drops, hBody]]
      exact repostQuery_outlined hRegular hView hOwn hBody hUpdate
  | follow followee =>
      obtain rfl := Except.ok.inj hUpdate
      have hRows : event.rows = [FollowRow.keyed keyOf ⟨eventId, event.key.identity, followee⟩] := by
        simp only [ArrivedEvent.rows, hBody, FollowRow.keyed, hOwn]
      rw [filter_drops_none fun row => by simp [ArrivedEvent.drops, hBody], hRows,
        filter_admits_singleton rfl]
      simp only [followQuery, DerivedTables.outlined, List.map_append, List.map_cons, List.map_nil,
        ← Multiset.coe_add]
      abel
  | block blocked =>
      obtain rfl := Except.ok.inj hUpdate
      have hRows : event.rows = [BlockRow.keyed keyOf ⟨eventId, event.key.identity, blocked⟩] := by
        simp only [ArrivedEvent.rows, hBody, BlockRow.keyed, hOwn]
      rw [filter_drops_none fun row => by simp [ArrivedEvent.drops, hBody], hRows,
        filter_admits_singleton rfl]
      simp only [blockQuery, DerivedTables.outlined, List.map_append, List.map_cons, List.map_nil,
        ← Multiset.coe_add]
      abel
  | profileUpdate update =>
      obtain rfl := Except.ok.inj hUpdate
      exact profileUpdateQuery_outlined hOwn hBody db.ledger
  | delete eventKey =>
      have hRows : event.rows = [] := by simp [ArrivedEvent.rows, hBody]
      rw [hRows, Multiset.coe_nil, Multiset.filter_zero, add_zero]
      exact deleteQuery_outlined hRegular hView hBody hUpdate
  | _ =>
      obtain rfl := Except.ok.inj hUpdate
      have hRows : event.rows = [] := by simp [ArrivedEvent.rows, hBody]
      rw [filter_drops_none fun row => by simp [ArrivedEvent.drops, hBody], hRows, Multiset.coe_nil,
        Multiset.filter_zero, add_zero]

/-- The update succeeds exactly if the references of the body can be split. -/
theorem updateCache_ok_iff (runtime : Runtime) (now : Int) (db : Database) (eventId : Nat)
    {body : ContentBody} (hBody : event.authorisedBody = some body) :
    (∃ derived, updateCache runtime now db eventId event.key.identity body = .ok derived) ↔
      event.wellReferenced = true := by
  have hOptional : ∀ (key : Option EventKey) (subject : String),
      (∃ rows, optionalReferenceRows db eventId event.key.identity key subject = .ok rows) ↔
        (key.isNone || (partsOf key).isSome) = true := by
    intro key subject
    cases key with
    | none => simp [optionalReferenceRows]
    | some key =>
        simp [optionalReferenceRows, referenceRows, bind_eq_ok_iff, splitEventKey_eq_ok_iff, pure,
          Except.pure, Option.isSome_iff_exists]
  cases body with
  | post post =>
      have hQuote := hOptional post.quote "quote"
      have hReply := hOptional (post.reply.bind PostReply.parent) "reply"
      simp only [updateCache, postQuery, bind_eq_ok_iff, pure, Except.pure, Except.ok.injEq,
        ArrivedEvent.wellReferenced, hBody, Bool.and_eq_true, ← hQuote, ← hReply]
      constructor
      · rintro ⟨_, quotes, hQuotes, replies, hReplies, _⟩
        exact ⟨⟨quotes, hQuotes⟩, replies, hReplies⟩
      · rintro ⟨⟨quotes, hQuotes⟩, replies, hReplies⟩
        exact ⟨_, quotes, hQuotes, replies, hReplies, rfl⟩
  | reaction reaction =>
      simp [updateCache, reactionQuery, bind_eq_ok_iff, splitEventKey_eq_ok_iff, pure, Except.pure,
        ArrivedEvent.wellReferenced, hBody, Option.isSome_iff_exists]
  | repost post =>
      simp [updateCache, repostQuery, referenceRows, bind_eq_ok_iff, splitEventKey_eq_ok_iff, pure,
        Except.pure, ArrivedEvent.wellReferenced, hBody, Option.isSome_iff_exists]
  | delete eventKey =>
      simp [updateCache, deleteQuery, bind_eq_ok_iff, splitEventKey_eq_ok_iff, pure, Except.pure,
        ArrivedEvent.wellReferenced, hBody, Option.isSome_iff_exists]
  | _ => simp [updateCache, ArrivedEvent.wellReferenced, hBody]

end Simulation

section Refinement

variable {runtime : Runtime} {contentOf : ContentDigest → Content} {db : Database} {step : AddStep}
  {derived : DerivedTables} {tombstones : List ContentDeleteRow}

/-- The derived tables can be updated just when the event is well referenced. -/
theorem derived_ok_iff (runtime : Runtime) (db : Database) (step : AddStep) :
    (∃ derived, (step.authorisedBody = none ∧ derived = db.derived) ∨ ∃ body,
      step.authorisedBody = some body ∧
        updateCache runtime step.now db step.row.id step.row.key.identity body = .ok derived) ↔
      step.event.wellReferenced = true := by
  have hSame : step.event.authorisedBody = step.authorisedBody := rfl
  cases hBody : step.authorisedBody with
  | none => simp [ArrivedEvent.wellReferenced, hSame, hBody]
  | some body =>
      rw [← updateCache_ok_iff runtime step.now db step.row.id (hSame.trans hBody)]
      simp only [reduceCtorEq, false_and, Option.some.injEq, exists_eq_left', false_or]
      exact Iff.rfl

/-- A step is stored exactly if its key is new and its event can be stored. -/
theorem stores_iff (hKnown : db.ContentKnown contentOf) (hFresh : step.Fresh contentOf db)
    (hAccepted : runtime.refuses step.row (step.decoded.map DecodedContent.content) = false) :
    (∃ derived tombstones, step.Stores runtime db derived tombstones) ↔
      step.event.key ∉ db.ledger.events ∧ step.event.wellFormed = true := by
  constructor
  · rintro ⟨derived, tombstones, hStores⟩
    refine ⟨?_, ?_⟩
    · intro hMem
      obtain ⟨row, hRow, hKey⟩ := mem_ledger_events.mp hMem
      exact hStores.newKey row hRow hKey
    · have hApart : step.event.body.any childConflict = false := by
        cases hDecoded : step.decoded with
        | none => simp [ArrivedEvent.body, AddStep.event, hDecoded]
        | some d =>
            have hConflict := hKnown.not_conflict hFresh hStores hDecoded
            simpa [ArrivedEvent.body, AddStep.event, hDecoded] using hConflict
      have hOk : (tombstonesOf step.event.decoded).isOk = true :=
        isOk_iff.mpr ⟨tombstones, hStores.tombstones⟩
      rw [ArrivedEvent.wellFormed, (derived_ok_iff runtime db step).mp ⟨derived, hStores.derived⟩, hOk, hApart]
      rfl
  · rintro ⟨hNew, hForm⟩
    simp only [ArrivedEvent.wellFormed, Bool.and_eq_true, Bool.not_eq_true'] at hForm
    obtain ⟨⟨hReferenced, hOk⟩, hApart⟩ := hForm
    obtain ⟨derived, hDerived⟩ := (derived_ok_iff runtime db step).mpr hReferenced
    obtain ⟨tombstones, hTombstones⟩ := isOk_iff.mp hOk
    refine ⟨derived, tombstones, hDerived, hTombstones, hAccepted, ?_⟩
    rw [isDuplicate, Bool.or_eq_false_iff]
    constructor
    · rw [List.any_eq_false]
      intro row hRow hKey
      exact hNew (mem_ledger_events.mpr ⟨row, hRow, of_decide_eq_true hKey⟩)
    · cases hSome : freshContent db step.decoded with
      | none => rfl
      | some d =>
          have hDecoded := (freshContent_eq_some_iff.mp hSome).1
          simpa [ArrivedEvent.body, AddStep.event, hDecoded] using hApart

/-- Ids are read only as far as the tables mention them. -/
theorem outlined_congr {derived : DerivedTables} {keyOf keyOf' : Nat → EventKeyParts}
    (h : ∀ id ∈ derived.mentioned, keyOf id = keyOf' id) :
    derived.outlined keyOf = derived.outlined keyOf' := by
  have hRows : ∀ row ∈ derived.rows, keyOf row.eventId = keyOf' row.eventId ∧
      ∀ post, row.post = some post → keyOf post = keyOf' post := fun row hRow =>
    ⟨h _ (DerivedTables.mem_mentioned.mpr ⟨row, hRow, Or.inl rfl⟩), fun post hPost =>
      h _ (DerivedTables.mem_mentioned.mpr ⟨row, hRow, Or.inr hPost⟩)⟩
  rw [DerivedTables.forall_rows] at hRows
  obtain ⟨hTally, hReaction, hQuote, hReply, hRepost, hFollow, hBlock, hProfile⟩ := hRows
  have hReference : ∀ (table : DerivedTable) (rows : List ReferenceRow),
      (∀ row ∈ rows, keyOf row.eventId = keyOf' row.eventId ∧
        ∀ post, some row.post = some post → keyOf post = keyOf' post) →
      rows.map (·.keyed keyOf table) = rows.map (·.keyed keyOf' table) := by
    intro table rows hRows
    apply List.map_congr_left
    intro row hRow
    simp only [ReferenceRow.keyed, (hRows row hRow).1, (hRows row hRow).2 row.post rfl]
  have hTallies : derived.reactionTally.map (·.outlined keyOf) =
      derived.reactionTally.map (·.outlined keyOf') := by
    apply List.map_congr_left
    intro row hRow
    have hOwn : keyOf row.eventId = keyOf' row.eventId := (hTally row hRow).1
    simp only [ReactionTallyRow.outlined, hOwn]
  have hReactions : derived.reaction.map (·.keyed keyOf) =
      derived.reaction.map (·.keyed keyOf') := by
    apply List.map_congr_left
    intro row hRow
    have hOwn : keyOf row.eventId = keyOf' row.eventId := (hReaction row hRow).1
    simp only [ReactionRow.keyed, hOwn, (hReaction row hRow).2 row.onPost rfl]
  have hFollows : derived.follow.map (·.keyed keyOf) = derived.follow.map (·.keyed keyOf') := by
    apply List.map_congr_left
    intro row hRow
    have hOwn : keyOf row.eventId = keyOf' row.eventId := (hFollow row hRow).1
    simp only [FollowRow.keyed, hOwn]
  have hBlocks : derived.block.map (·.keyed keyOf) = derived.block.map (·.keyed keyOf') := by
    apply List.map_congr_left
    intro row hRow
    have hOwn : keyOf row.eventId = keyOf' row.eventId := (hBlock row hRow).1
    simp only [BlockRow.keyed, hOwn]
  have hProfiles : derived.profile.map (·.keyed keyOf) =
      derived.profile.map (·.keyed keyOf') := by
    apply List.map_congr_left
    intro row hRow
    have hOwn : keyOf row.eventId = keyOf' row.eventId := (hProfile row hRow).1
    simp only [ProfileRow.keyed, hOwn]
  unfold DerivedTables.outlined
  rw [hTallies, hReactions, hReference .quote _ hQuote, hReference .reply _ hReply,
    hReference .repost _ hRepost, hFollows, hBlocks, hProfiles]

/-- The rows of `content_delete` name the key that the content deletes. -/
theorem tombstonesOf_names {decoded : Option DecodedContent}
    (h : tombstonesOf decoded = .ok tombstones) {row : ContentDeleteRow} (hRow : row ∈ tombstones) :
    (decoded.bind fun d => d.content.contentBody).bind deletedKey = some row.eventKey := by
  cases decoded with
  | none =>
      obtain rfl := Except.ok.inj h
      cases hRow
  | some d =>
      rw [tombstonesOf_eq h, List.mem_map] at hRow
      obtain ⟨key, hKey, rfl⟩ := hRow
      exact Option.mem_toList.mp hKey

/-- The keys that are deleted after a step. -/
theorem tombstones_stored (hKnown : db.ContentKnown contentOf) (hFresh : step.Fresh contentOf db)
    (hStores : step.Stores runtime db derived tombstones) :
    (stored db step.row step.decoded derived tombstones).ledger.tombstones =
      db.ledger.tombstones ∪ step.event.tombstone.toFinset := by
  ext key
  rw [mem_ledger_tombstones, Finset.mem_union, mem_ledger_tombstones, Option.mem_toFinset]
  constructor
  · intro hDead
    rw [isTombstoned_stored, Bool.or_eq_true, Bool.and_eq_true] at hDead
    refine hDead.imp_right fun hOwn => ?_
    obtain ⟨row, hRow, hKey⟩ := List.any_eq_true.mp hOwn.2
    rw [← of_decide_eq_true hKey]
    exact tombstonesOf_names hStores.tombstones hRow
  · rintro (hOld | hOwn)
    · rw [isTombstoned_stored, hOld, Bool.true_or]
    · cases hDecoded : step.decoded with
      | none => simp [ArrivedEvent.tombstone, ArrivedEvent.body, AddStep.event, hDecoded] at hOwn
      | some d =>
          have hDeleted : d.content.contentBody.bind deletedKey = some key := by
            simpa [ArrivedEvent.tombstone, ArrivedEvent.body, AddStep.event, hDecoded] using hOwn
          rw [← hDecoded]
          exact hKnown.isTombstoned hFresh hStores hDecoded hDeleted

/-- The rows after a step. -/
theorem rows_stored (hRegular : db.Regular) (hFresh : step.Fresh contentOf db)
    (hStores : step.Stores runtime db derived tombstones) :
    (stored db step.row step.decoded derived tombstones).ledger.rows =
      db.ledger.rows.filter (fun row => step.event.drops row = false) +
        (step.event.rows : Multiset KeyedRow).filter fun row => db.ledger.Admits row := by
  have hAfter := hRegular.stored hFresh.newId hStores
  let keyOf := (stored db step.row step.decoded derived tombstones).keyOf
  have hView : ∀ row ∈ db.event, keyOf row.id = row.key := fun row hRow =>
    hAfter.keyOf_eq (List.mem_append_left _ hRow)
  have hOwn : keyOf step.row.id = step.event.key :=
    hAfter.keyOf_eq (List.mem_append_right _ (List.mem_singleton_self _))
  have hBefore : db.derived.outlined keyOf = db.ledger.rows := by
    apply outlined_congr
    intro id hId
    obtain ⟨row, hRow, rfl⟩ := hRegular.mentioned id hId
    rw [hView row hRow, hRegular.keyOf_eq hRow]
  show derived.outlined keyOf = _
  rcases hStores.derived with ⟨hBody, rfl⟩ | ⟨body, hBody, hUpdate⟩
  · have hEvent : step.event.authorisedBody = none := hBody
    have hRows : step.event.rows = [] := by simp [ArrivedEvent.rows, hEvent]
    rw [filter_drops_none fun row => by simp [ArrivedEvent.drops, hEvent], hRows, hBefore,
      Multiset.coe_nil, Multiset.filter_zero, add_zero]
  · rw [← hBefore]
    exact updateCache_outlined hRegular hView hOwn hBody hUpdate

/-- A step on the database is the ingestion of its event. -/
theorem ledger_run (hRegular : db.Regular) (hKnown : db.ContentKnown contentOf)
    (hFresh : step.Fresh contentOf db)
    (hAccepted : runtime.refuses step.row (step.decoded.map DecodedContent.content) = false) :
    (step.run runtime db).ledger = db.ledger.ingest step.event := by
  have hIff := stores_iff hKnown hFresh hAccepted
  rcases AddStep.run_cases runtime db step with hSame | ⟨derived, tombstones, hStores, hRun⟩
  · by_cases hStores : ∃ derived tombstones, step.Stores runtime db derived tombstones
    · -- A stored step brings a new key, so it does not leave the database as it is.
      obtain ⟨derived, tombstones, hStores⟩ := hStores
      have hOwn : step.row ∈ db.event := by
        rw [← hSame, hStores.run_eq]
        exact List.mem_append_right _ (List.mem_singleton_self _)
      exact absurd rfl (hStores.newKey step.row hOwn)
    · rw [hSame, Ledger.ingest_of_ignored]
      rw [hIff] at hStores
      by_cases hMem : step.event.key ∈ db.ledger.events
      · exact Or.inl hMem
      · exact Or.inr (Bool.eq_false_iff.mpr fun hForm => hStores ⟨hMem, hForm⟩)
  · obtain ⟨hNew, hForm⟩ := hIff.mp ⟨derived, tombstones, hStores⟩
    rw [hRun, Ledger.ingest_of_new hNew hForm]
    apply Ledger.ext
    · ext key
      simp [Database.ledger, stored, AddStep.event, eq_comm (a := key)]
    · exact tombstones_stored hKnown hFresh hStores
    · exact rows_stored hRegular hFresh hStores

/-! ### The counts -/

/-- The reactions of one sign among the rows. -/
def reactionsOn (rows : Multiset KeyedRow) (key : EventKeyParts) (positive : Bool) : Nat :=
  rows.countP fun row => row.table = .reaction ∧ row.post = some key ∧ row.positive = some positive

/-- The row with the counts of its reactions, if it is a tally. -/
def KeyedRow.counted (rows : Multiset KeyedRow) (row : KeyedRow) : KeyedRow :=
  if row.table = .reactionTally then
    { row with counts := some (reactionsOn rows row.event true, reactionsOn rows row.event false) }
  else row

/-- The reactions of the ledger are counted as the table counts them. -/
theorem reactionsOn_outlined (hRegular : db.Regular) {tally : ReactionTallyRow}
    (hTally : tally ∈ db.derived.reactionTally) (positive : Bool) :
    reactionsOn db.ledger.rows (db.keyOf tally.eventId) positive =
      db.derived.reactionCount tally.eventId positive := by
  have hOther : ∀ {α : Type} (rows : List α) (view : α → KeyedRow),
      (∀ row, (view row).table ≠ .reaction) →
      Multiset.countP (fun row : KeyedRow => row.table = .reaction ∧
        row.post = some (db.keyOf tally.eventId) ∧ row.positive = some positive)
        (rows.map view : Multiset KeyedRow) = 0 := by
    intro α rows view hView
    rw [Multiset.countP_eq_zero]
    intro row hRow hReaction
    obtain ⟨r, -, rfl⟩ := List.mem_map.mp (Multiset.mem_coe.mp hRow)
    exact hView r hReaction.1
  have hInjective : ∀ reaction ∈ db.derived.reaction,
      (db.keyOf reaction.onPost = db.keyOf tally.eventId ↔ reaction.onPost = tally.eventId) := by
    intro reaction hReaction
    obtain ⟨post, hPost, hPostId⟩ := hRegular.mentioned _
      (Database.Regular.reaction_mentioned hReaction).2
    obtain ⟨own, hOwn, hOwnId⟩ := hRegular.mentioned _ (Database.Regular.tally_mentioned hTally)
    rw [← hPostId, ← hOwnId, hRegular.keyOf_eq hPost, hRegular.keyOf_eq hOwn]
    constructor
    · intro hKey
      rw [eq_of_column_eq hRegular.keys hPost hOwn hKey]
    · intro hId
      rw [eq_of_column_eq hRegular.ids hPost hOwn hId]
  unfold reactionsOn Database.ledger DerivedTables.outlined
  simp only [Multiset.countP_add]
  rw [hOther db.derived.reactionTally, hOther db.derived.quote, hOther db.derived.reply,
    hOther db.derived.repost, hOther db.derived.follow, hOther db.derived.block,
    hOther db.derived.profile]
  · rw [Multiset.coe_countP, List.countP_map]
    simp only [zero_add, add_zero]
    apply List.countP_congr
    intro reaction hReaction
    simp [ReactionRow.keyed, hInjective reaction hReaction]
  all_goals
    intro row hTable
    cases hTable

/-- The rows with their counts are a function of the ledger. -/
theorem keyedRows_eq (h : db.Tallied) :
    db.keyedRows = db.ledger.rows.map (KeyedRow.counted db.ledger.rows) := by
  have hOther : ∀ {α : Type} (rows : List α) (view : α → KeyedRow),
      (∀ row, (view row).table ≠ .reactionTally) →
      Multiset.map (KeyedRow.counted db.ledger.rows) (rows.map view : Multiset KeyedRow) =
        (rows.map view : Multiset KeyedRow) := by
    intro α rows view hView
    rw [Multiset.map_coe, List.map_map]
    congr 1
    apply List.map_congr_left
    intro row _
    exact if_neg (hView row)
  have hTallies : Multiset.map (KeyedRow.counted db.ledger.rows)
      (db.derived.reactionTally.map (·.outlined db.keyOf) : Multiset KeyedRow) =
        (db.derived.reactionTally.map (·.keyed db.keyOf) : Multiset KeyedRow) := by
    rw [Multiset.map_coe, List.map_map]
    congr 1
    apply List.map_congr_left
    intro tally hTally
    have hPositive := h.counts tally hTally true
    have hNegative := h.counts tally hTally false
    rw [← reactionsOn_outlined h.regular hTally] at hPositive hNegative
    simp only [ReactionTallyRow.count] at hPositive hNegative
    simp only [Function.comp, KeyedRow.counted, ReactionTallyRow.outlined, if_true,
      ReactionTallyRow.keyed]
    rw [← hPositive, ← hNegative]
    rfl
  show _ = Multiset.map (KeyedRow.counted db.ledger.rows) (db.derived.outlined db.keyOf)
  unfold DerivedTables.outlined
  simp only [Multiset.map_add]
  rw [hTallies, hOther db.derived.reaction, hOther db.derived.quote, hOther db.derived.reply,
    hOther db.derived.repost, hOther db.derived.follow, hOther db.derived.block,
    hOther db.derived.profile]
  · rfl
  all_goals
    intro row hTable
    cases hTable

end Refinement

end Polycentric.Server
