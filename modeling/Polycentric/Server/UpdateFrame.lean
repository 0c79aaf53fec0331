import Polycentric.Server.Events

/-! What the update of the derived tables reads, and which events it mentions. -/
namespace Polycentric.Server

open Proto Result

/-- The columns of a key that is present with its signer. -/
def partsOf (key : Option EventKey) : Option EventKeyParts := do
  let key ← key
  return .of key (← key.signedBy)

theorem splitEventKey_eq_ok_iff {key : Option EventKey} {subject : String}
    {parts : EventKeyParts} :
    splitEventKey key subject = .ok parts ↔ partsOf key = some parts := by
  unfold splitEventKey partsOf
  simp only [bind_eq_ok_iff, okOr_eq_ok_iff, Option.bind_eq_bind, Option.bind_eq_some_iff, pure,
    Except.pure, Except.ok.injEq, Option.some.injEq]

/-- The references of a body that ingestion resolves, if the event is not deleted:
the quoted post, the parent of a reply, and what is reacted to or reposted. -/
def references (body : ContentBody) : List EventKeyParts :=
  match body with
  | .post post => [post.quote, post.reply.bind PostReply.parent].filterMap partsOf
  | .reaction reaction => (partsOf reaction.eventKey).toList
  | .repost post => (partsOf post).toList
  | _ => []

/-- The key that a `Delete` names. -/
def deletedKey (body : ContentBody) : Option EventKeyParts :=
  match body with
  | .delete eventKey => partsOf eventKey
  | _ => none

/-! ### Rows of all derived tables -/

inductive DerivedTable where
  | reactionTally
  | reaction
  | quote
  | reply
  | repost
  | follow
  | block
  | profile
  deriving DecidableEq, Repr

/-- Where a row comes from: the event that brought it, the identity it is
attributed to, and the post that it refers to. A tally has no identity column. -/
structure DerivedRow where
  table : DerivedTable
  eventId : Nat
  identity : Option String
  post : Option Nat
  deriving DecidableEq, Repr

def ReactionTallyRow.view (row : ReactionTallyRow) : DerivedRow :=
  ⟨.reactionTally, row.eventId, none, none⟩

def ReactionRow.view (row : ReactionRow) : DerivedRow :=
  ⟨.reaction, row.eventId, some row.identity, some row.onPost⟩

def ReferenceRow.view (table : DerivedTable) (row : ReferenceRow) : DerivedRow :=
  ⟨table, row.eventId, some row.identity, some row.post⟩

def FollowRow.view (row : FollowRow) : DerivedRow := ⟨.follow, row.eventId, some row.follower, none⟩

def BlockRow.view (row : BlockRow) : DerivedRow := ⟨.block, row.eventId, some row.blocker, none⟩

def ProfileRow.view (row : ProfileRow) : DerivedRow :=
  ⟨.profile, row.eventId, some row.identity, none⟩

def DerivedTables.rows (derived : DerivedTables) : List DerivedRow :=
  derived.reactionTally.map ReactionTallyRow.view ++ derived.reaction.map ReactionRow.view ++
    derived.quote.map (ReferenceRow.view .quote) ++ derived.reply.map (ReferenceRow.view .reply) ++
    derived.repost.map (ReferenceRow.view .repost) ++ derived.follow.map FollowRow.view ++
    derived.block.map BlockRow.view ++ derived.profile.map ProfileRow.view

/-- The ids of the events that the derived tables mention: those that brought a
row, and the posts that a row refers to. -/
def DerivedTables.mentioned (derived : DerivedTables) : List Nat :=
  derived.rows.flatMap fun row => row.eventId :: row.post.toList

/-- The rows of all tables, table by table. -/
theorem DerivedTables.mem_rows {derived : DerivedTables} {row : DerivedRow} :
    row ∈ derived.rows ↔ (∃ r ∈ derived.reactionTally, r.view = row) ∨
      (∃ r ∈ derived.reaction, r.view = row) ∨ (∃ r ∈ derived.quote, r.view .quote = row) ∨
      (∃ r ∈ derived.reply, r.view .reply = row) ∨ (∃ r ∈ derived.repost, r.view .repost = row) ∨
      (∃ r ∈ derived.follow, r.view = row) ∨ (∃ r ∈ derived.block, r.view = row) ∨
      ∃ r ∈ derived.profile, r.view = row := by
  simp only [DerivedTables.rows, List.mem_append, List.mem_map, or_assoc]

theorem DerivedTables.forall_rows {derived : DerivedTables} {p : DerivedRow → Prop} :
    (∀ row ∈ derived.rows, p row) ↔ (∀ r ∈ derived.reactionTally, p r.view) ∧
      (∀ r ∈ derived.reaction, p r.view) ∧ (∀ r ∈ derived.quote, p (r.view .quote)) ∧
      (∀ r ∈ derived.reply, p (r.view .reply)) ∧ (∀ r ∈ derived.repost, p (r.view .repost)) ∧
      (∀ r ∈ derived.follow, p r.view) ∧ (∀ r ∈ derived.block, p r.view) ∧
      ∀ r ∈ derived.profile, p r.view := by
  simp only [DerivedTables.rows, List.mem_append, List.mem_map, or_imp, forall_and,
    forall_exists_index, and_imp, forall_apply_eq_imp_iff₂, and_assoc]

/-- An id is mentioned by a row of its event, or by one about its event. -/
theorem DerivedTables.mem_mentioned {derived : DerivedTables} {id : Nat} :
    id ∈ derived.mentioned ↔ ∃ row ∈ derived.rows, row.eventId = id ∨ row.post = some id := by
  simp only [DerivedTables.mentioned, List.mem_flatMap, List.mem_cons, Option.mem_toList, eq_comm]

/-- The id is new, as the sequence of the database promises. -/
structure Database.NewId (db : Database) (id : Nat) : Prop where
  event : ∀ row ∈ db.event, row.id ≠ id
  derived : id ∉ db.derived.mentioned

/-! ### What the update of the derived tables reads -/

/-- The update reads the derived tables, the events of the references and of the
deleted key, and the posts of stored reactions. Of the deleted events only those
matter that the tables mention. -/
structure SameView (body : ContentBody) (db₁ db₂ : Database) : Prop where
  derived : db₁.derived = db₂.derived
  references : ∀ key ∈ references body, db₁.selectNotDeletedEvent key = db₂.selectNotDeletedEvent key
  deleted : ∀ key, deletedKey body = some key → ∀ id ∈ db₂.derived.mentioned,
    (id ∈ (db₁.selectEvent key).map EventRow.id ↔ id ∈ (db₂.selectEvent key).map EventRow.id)
  posts : ∀ id ∈ db₂.derived.mentioned,
    (db₁.event.find? fun e => e.id = id) = db₂.event.find? fun e => e.id = id

section Frame

variable {runtime : Runtime} {now : Int} {db₁ db₂ : Database} {eventId : Nat} {identity : String}

/-- The rows of a reference depend on the events of its key only. -/
theorem referenceRows_congr {key : Option EventKey} {subject : String}
    (h : ∀ parts, partsOf key = some parts →
      db₁.selectNotDeletedEvent parts = db₂.selectNotDeletedEvent parts) :
    referenceRows db₁ eventId identity key subject =
      referenceRows db₂ eventId identity key subject := by
  unfold referenceRows
  cases hSplit : splitEventKey key subject with
  | error e => rfl
  | ok parts =>
      have hRows := h parts (splitEventKey_eq_ok_iff.mp hSplit)
      simp only [bind, Except.bind, hRows]

theorem optionalReferenceRows_congr {key : Option EventKey} {subject : String}
    (h : ∀ parts, partsOf key = some parts →
      db₁.selectNotDeletedEvent parts = db₂.selectNotDeletedEvent parts) :
    optionalReferenceRows db₁ eventId identity key subject =
      optionalReferenceRows db₂ eventId identity key subject := by
  cases key with
  | none => rfl
  | some key => exact referenceRows_congr h

/-- Clearing tables reads only which of the mentioned events are deleted. -/
theorem clear_congr {ids₁ ids₂ : List Nat} (hDerived : db₁.derived = db₂.derived)
    (hIds : ∀ id ∈ db₂.derived.mentioned, (id ∈ ids₁ ↔ id ∈ ids₂)) :
    deletePost db₁ ids₁ = deletePost db₂ ids₂ ∧ deleteProfile db₁ ids₁ = deleteProfile db₂ ids₂ ∧
      deleteSocial db₁ ids₁ = deleteSocial db₂ ids₂ := by
  have hOwn : ∀ row ∈ db₂.derived.rows, (row.eventId ∈ ids₁ ↔ row.eventId ∈ ids₂) :=
    fun row hRow => hIds _ (DerivedTables.mem_mentioned.mpr ⟨row, hRow, Or.inl rfl⟩)
  have hPost : ∀ row ∈ db₂.derived.rows, ∀ post, row.post = some post →
      (post ∈ ids₁ ↔ post ∈ ids₂) :=
    fun row hRow post hEq => hIds _ (DerivedTables.mem_mentioned.mpr ⟨row, hRow, Or.inr hEq⟩)
  simp only [DerivedTables.forall_rows] at hOwn hPost
  obtain ⟨hTally, hReaction, hQuote, hReply, -, hFollow, hBlock, hProfile⟩ := hOwn
  obtain ⟨-, hReaction', hQuote', hReply', -⟩ := hPost
  unfold deletePost deleteProfile deleteSocial
  simp only [hDerived, DerivedTables.mk.injEq, true_and, and_true]
  refine ⟨⟨?_, ?_, ?_, ?_⟩, ?_, ?_, ?_⟩ <;>
    · apply List.filter_congr
      intro row hRow
      grind [ReactionTallyRow.view, ReactionRow.view, ReferenceRow.view, FollowRow.view, BlockRow.view,
        ProfileRow.view]

/-- Deleting reactions depends on the mentioned events only. -/
theorem deleteReaction_congr {ids₁ ids₂ : List Nat} (hDerived : db₁.derived = db₂.derived)
    (hIds : ∀ id ∈ db₂.derived.mentioned, (id ∈ ids₁ ↔ id ∈ ids₂))
    (hPosts : ∀ id ∈ db₂.derived.mentioned,
      (db₁.event.find? fun e => e.id = id) = db₂.event.find? fun e => e.id = id) :
    deleteReaction runtime db₁ ids₁ = deleteReaction runtime db₂ ids₂ := by
  have hMem : ∀ row ∈ db₂.derived.reaction, (row.eventId ∈ ids₁ ↔ row.eventId ∈ ids₂) := by
    intro row hRow
    apply hIds
    rw [DerivedTables.mem_mentioned]
    exact ⟨row.view, DerivedTables.mem_rows.mpr (Or.inr (Or.inl ⟨row, hRow, rfl⟩)), Or.inl rfl⟩
  have hDeleted : (db₂.derived.reaction.filter fun row => row.eventId ∈ ids₁) =
      db₂.derived.reaction.filter fun row => row.eventId ∈ ids₂ :=
    List.filter_congr fun row hRow => by simp [hMem row hRow]
  have hKept : (db₂.derived.reaction.filter fun row => row.eventId ∉ ids₁) =
      db₂.derived.reaction.filter fun row => row.eventId ∉ ids₂ :=
    List.filter_congr fun row hRow => by simp [hMem row hRow]
  unfold deleteReaction
  simp only [hDerived, hDeleted, hKept, DerivedTables.mk.injEq, and_true]
  apply List.map_congr_left
  intro tally hTally
  rw [hPosts tally.eventId]
  rw [DerivedTables.mem_mentioned]
  exact ⟨tally.view, DerivedTables.mem_rows.mpr (Or.inl ⟨tally, hTally, rfl⟩), Or.inl rfl⟩

/-- Databases with the same view are updated alike. -/
theorem updateCache_congr {body : ContentBody} (h : SameView body db₁ db₂) :
    updateCache runtime now db₁ eventId identity body =
      updateCache runtime now db₂ eventId identity body := by
  have hDerived := h.derived
  cases body with
  | post post =>
      have hQuote : optionalReferenceRows db₁ eventId identity post.quote "quote" =
          optionalReferenceRows db₂ eventId identity post.quote "quote" :=
        optionalReferenceRows_congr fun parts hParts =>
          h.references parts (by simp [references, hParts])
      have hReply : optionalReferenceRows db₁ eventId identity (post.reply.bind PostReply.parent)
          "reply" = optionalReferenceRows db₂ eventId identity (post.reply.bind PostReply.parent)
          "reply" :=
        optionalReferenceRows_congr fun parts hParts =>
          h.references parts (by
            refine List.mem_filterMap.mpr ⟨post.reply.bind PostReply.parent, by simp, hParts⟩)
      simp only [updateCache, postQuery, hQuote, hReply, hDerived]
  | reaction reaction =>
      simp only [updateCache, reactionQuery]
      cases hSplit : splitEventKey reaction.eventKey "reaction" with
      | error e => rfl
      | ok parts =>
          have hPosts := h.references parts
            (by simp [references, splitEventKey_eq_ok_iff.mp hSplit])
          simp only [bind, Except.bind, hPosts, hDerived]
  | repost post =>
      have hRepost : referenceRows db₁ eventId identity post "repost" =
          referenceRows db₂ eventId identity post "repost" :=
        referenceRows_congr fun parts hParts => h.references parts (by simp [references, hParts])
      simp only [updateCache, repostQuery, hRepost, hDerived]
  | delete eventKey =>
      simp only [updateCache, deleteQuery]
      cases hSplit : splitEventKey eventKey "delete content" with
      | error e => rfl
      | ok parts =>
          have hIds := h.deleted parts (splitEventKey_eq_ok_iff.mp hSplit)
          obtain ⟨hPost, hProfile, hSocial⟩ := clear_congr hDerived hIds
          have hReaction : deleteReaction runtime db₁ ((db₁.selectEvent parts).map EventRow.id) =
              deleteReaction runtime db₂ ((db₂.selectEvent parts).map EventRow.id) :=
            deleteReaction_congr hDerived hIds h.posts
          simp only [bind, Except.bind, hPost, hProfile, hSocial, hReaction, hDerived]
  | follow followee => simp [updateCache, followQuery, hDerived]
  | block blocked => simp [updateCache, blockQuery, hDerived]
  | profileUpdate update => simp [updateCache, profileUpdateQuery, hDerived]
  | _ => simp [updateCache, hDerived]

/-- A row that an event brings: it is attributed to the identity of the event and
refers to events that the body references. -/
structure BroughtBy (db : Database) (eventId : Nat) (identity : String) (body : ContentBody)
    (row : DerivedRow) : Prop where
  eventId : row.eventId = eventId
  identity : ∀ owner, row.identity = some owner → owner = identity
  post : ∀ id, row.post = some id →
    ∃ key ∈ references body, ∃ post ∈ db.selectNotDeletedEvent key, post.id = id

/-- The rows of a reference are brought by the event that refers. -/
theorem referenceRows_brought (body : ContentBody) {key : Option EventKey} {subject : String}
    {rows : List ReferenceRow} (h : referenceRows db₁ eventId identity key subject = .ok rows)
    (hReference : ∀ parts, partsOf key = some parts → parts ∈ references body)
    (table : DerivedTable) :
    ∀ row ∈ rows, BroughtBy db₁ eventId identity body (row.view table) := by
  intro row hRow
  simp only [referenceRows, bind_eq_ok_iff, pure, Except.pure, Except.ok.injEq] at h
  obtain ⟨parts, hParts, rfl⟩ := h
  obtain ⟨post, hPost, rfl⟩ := List.mem_map.mp hRow
  refine ⟨rfl, fun owner hOwner => (Option.some.inj hOwner).symm, fun id hId => ?_⟩
  obtain rfl := Option.some.inj hId
  exact ⟨parts, hReference parts (splitEventKey_eq_ok_iff.mp hParts), post, hPost, rfl⟩

theorem optionalReferenceRows_brought (body : ContentBody) {key : Option EventKey}
    {subject : String} {rows : List ReferenceRow}
    (h : optionalReferenceRows db₁ eventId identity key subject = .ok rows)
    (hReference : ∀ parts, partsOf key = some parts → parts ∈ references body)
    (table : DerivedTable) :
    ∀ row ∈ rows, BroughtBy db₁ eventId identity body (row.view table) := by
  cases key with
  | none =>
      obtain rfl := Except.ok.inj h
      exact nofun
  | some key => exact referenceRows_brought body h hReference table

theorem countReaction_eventId {positive : Bool} {post : EventRow} {tally : ReactionTallyRow} :
    (countReaction runtime positive post tally).eventId = tally.eventId := by
  unfold countReaction
  split <;> rfl

theorem uncountReaction_eventId {positive : Bool} {post : EventRow} {tally : ReactionTallyRow} :
    (uncountReaction runtime positive post tally).eventId = tally.eventId := by
  unfold uncountReaction
  split <;> rfl

/-- After the update there are old rows and rows that the event brings. -/
theorem updateCache_rows {body : ContentBody} {derived : DerivedTables}
    (h : updateCache runtime now db₁ eventId identity body = .ok derived) :
    ∀ row ∈ derived.rows, row ∈ db₁.derived.rows ∨ BroughtBy db₁ eventId identity body row := by
  obtain ⟨hTally, hReaction, hQuote, hReply, hRepost, hFollow, hBlock, hProfile⟩ :=
    DerivedTables.forall_rows.mp fun row (hRow : row ∈ db₁.derived.rows) => hRow
  have hSelf : ∀ table, BroughtBy db₁ eventId identity body ⟨table, eventId, some identity, none⟩ :=
    fun table => ⟨rfl, fun owner hOwner => (Option.some.inj hOwner).symm, nofun⟩
  rw [DerivedTables.forall_rows]
  cases body with
  | post post =>
      simp only [updateCache, postQuery, bind_eq_ok_iff, pure, Except.pure, Except.ok.injEq] at h
      obtain ⟨quotes, hQuotes, replies, hReplies, rfl⟩ := h
      have hNewQuote := optionalReferenceRows_brought (.post post) hQuotes
        (fun parts hParts => List.mem_filterMap.mpr ⟨_, by simp, hParts⟩) .quote
      have hNewReply := optionalReferenceRows_brought (.post post) hReplies
        (fun parts hParts => List.mem_filterMap.mpr ⟨_, by simp, hParts⟩) .reply
      have hNewTally : BroughtBy db₁ eventId identity (.post post)
          ⟨.reactionTally, eventId, none, none⟩ := ⟨rfl, nofun, nofun⟩
      simp only [List.mem_append, List.mem_singleton]
      grind [ReactionTallyRow.view]
  | reaction reaction =>
      simp only [updateCache, reactionQuery, bind_eq_ok_iff, pure, Except.pure,
        Except.ok.injEq] at h
      obtain ⟨parts, hParts, rfl⟩ := h
      have hMem : parts ∈ references (.reaction reaction) := by
        simp [references, splitEventKey_eq_ok_iff.mp hParts]
      have hNew : ∀ post ∈ db₁.selectNotDeletedEvent parts, BroughtBy db₁ eventId identity
          (.reaction reaction) ⟨.reaction, eventId, some identity, some post.id⟩ := by
        intro post hPost
        refine ⟨rfl, fun owner hOwner => (Option.some.inj hOwner).symm, fun id hId => ?_⟩
        exact ⟨parts, hMem, post, hPost, Option.some.inj hId⟩
      simp only [List.mem_append, List.mem_map]
      grind [ReactionRow.view, ReactionTallyRow.view, countReaction_eventId]
  | repost post =>
      simp only [updateCache, repostQuery, bind_eq_ok_iff, pure, Except.pure, Except.ok.injEq] at h
      obtain ⟨reposts, hReposts, rfl⟩ := h
      have hNew := referenceRows_brought (.repost post) hReposts
        (fun parts hParts => by simp [references, hParts]) .repost
      simp only [List.mem_append]
      grind
  | delete eventKey =>
      simp only [updateCache, deleteQuery, bind_eq_ok_iff, pure, Except.pure,
        Except.ok.injEq] at h
      obtain ⟨parts, -, rfl⟩ := h
      split_ifs
      · simp only [deletePost, List.mem_filter]
        grind
      · simp only [deleteProfile, List.mem_filter]
        grind
      · simp only [deleteSocial, List.mem_filter]
        grind
      · simp only [deleteReaction, List.mem_map, List.mem_filter]
        grind [ReactionTallyRow.view, uncountReaction_eventId]
      · exact ⟨fun r hr => Or.inl (hTally r hr), fun r hr => Or.inl (hReaction r hr),
          fun r hr => Or.inl (hQuote r hr), fun r hr => Or.inl (hReply r hr),
          fun r hr => Or.inl (hRepost r hr), fun r hr => Or.inl (hFollow r hr),
          fun r hr => Or.inl (hBlock r hr), fun r hr => Or.inl (hProfile r hr)⟩
  | follow followee =>
      obtain rfl := Except.ok.inj h
      simp only [followQuery, List.mem_append, List.mem_singleton]
      grind [FollowRow.view]
  | block blocked =>
      obtain rfl := Except.ok.inj h
      simp only [blockQuery, List.mem_append, List.mem_singleton]
      grind [BlockRow.view]
  | profileUpdate update =>
      obtain rfl := Except.ok.inj h
      simp only [profileUpdateQuery, List.mem_append, List.mem_filter, List.mem_singleton]
      grind [ProfileRow.view]
  | _ =>
      obtain rfl := Except.ok.inj h
      grind

/-- The update mentions the event itself and the events of its references. -/
theorem updateCache_mentioned {body : ContentBody} {derived : DerivedTables}
    (h : updateCache runtime now db₁ eventId identity body = .ok derived) :
    ∀ id ∈ derived.mentioned, id ∈ db₁.derived.mentioned ∨ id = eventId ∨
      ∃ key ∈ references body, ∃ post ∈ db₁.selectNotDeletedEvent key, post.id = id := by
  intro id hId
  obtain ⟨row, hRow, hMention⟩ := DerivedTables.mem_mentioned.mp hId
  rcases updateCache_rows h row hRow with hOld | hNew
  · exact Or.inl (DerivedTables.mem_mentioned.mpr ⟨row, hOld, hMention⟩)
  · rcases hMention with rfl | hPost
    · exact Or.inr (Or.inl hNew.eventId)
    · exact Or.inr (Or.inr (hNew.post id hPost))

/-- The row was brought by one of the events or refers to one. -/
def DerivedRow.Touches (ids : List Nat) (row : DerivedRow) : Prop :=
  row.eventId ∈ ids ∨ ∃ post ∈ ids, row.post = some post

/-- Deleting a post takes rows of the post and rows about it only. -/
theorem deletePost_rows (ids : List Nat) :
    ∀ row ∈ db₁.derived.rows, row ∈ (deletePost db₁ ids).rows ∨ row.Touches ids := by
  obtain ⟨hTally, hReaction, hQuote, hReply, hRepost, hFollow, hBlock, hProfile⟩ :=
    DerivedTables.forall_rows.mp fun row (hRow : row ∈ (deletePost db₁ ids).rows) => hRow
  rw [DerivedTables.forall_rows]
  simp only [deletePost, List.mem_filter, decide_eq_true_eq] at hTally hReaction hQuote hReply
  refine ⟨fun r hr => ?_, fun r hr => ?_, fun r hr => ?_, fun r hr => ?_,
    fun r hr => Or.inl (hRepost r hr), fun r hr => Or.inl (hFollow r hr),
    fun r hr => Or.inl (hBlock r hr), fun r hr => Or.inl (hProfile r hr)⟩
  · by_cases h : r.eventId ∈ ids
    · exact Or.inr (Or.inl h)
    · exact Or.inl (hTally r ⟨hr, h⟩)
  · by_cases h : r.onPost ∈ ids
    · exact Or.inr (Or.inr ⟨r.onPost, h, rfl⟩)
    · exact Or.inl (hReaction r ⟨hr, h⟩)
  · by_cases h : r.eventId ∈ ids
    · exact Or.inr (Or.inl h)
    · by_cases h' : r.post ∈ ids
      · exact Or.inr (Or.inr ⟨r.post, h', rfl⟩)
      · exact Or.inl (hQuote r ⟨hr, h, h'⟩)
  · by_cases h : r.eventId ∈ ids
    · exact Or.inr (Or.inl h)
    · by_cases h' : r.post ∈ ids
      · exact Or.inr (Or.inr ⟨r.post, h', rfl⟩)
      · exact Or.inl (hReply r ⟨hr, h, h'⟩)

theorem deleteProfile_rows (ids : List Nat) :
    ∀ row ∈ db₁.derived.rows, row ∈ (deleteProfile db₁ ids).rows ∨ row.Touches ids := by
  obtain ⟨hTally, hReaction, hQuote, hReply, hRepost, hFollow, hBlock, hProfile⟩ :=
    DerivedTables.forall_rows.mp fun row (hRow : row ∈ (deleteProfile db₁ ids).rows) => hRow
  rw [DerivedTables.forall_rows]
  simp only [deleteProfile, List.mem_filter, decide_eq_true_eq] at hProfile
  refine ⟨fun r hr => Or.inl (hTally r hr), fun r hr => Or.inl (hReaction r hr),
    fun r hr => Or.inl (hQuote r hr), fun r hr => Or.inl (hReply r hr),
    fun r hr => Or.inl (hRepost r hr), fun r hr => Or.inl (hFollow r hr),
    fun r hr => Or.inl (hBlock r hr), fun r hr => ?_⟩
  by_cases h : r.eventId ∈ ids
  · exact Or.inr (Or.inl h)
  · exact Or.inl (hProfile r ⟨hr, h⟩)

theorem deleteSocial_rows (ids : List Nat) :
    ∀ row ∈ db₁.derived.rows, row ∈ (deleteSocial db₁ ids).rows ∨ row.Touches ids := by
  obtain ⟨hTally, hReaction, hQuote, hReply, hRepost, hFollow, hBlock, hProfile⟩ :=
    DerivedTables.forall_rows.mp fun row (hRow : row ∈ (deleteSocial db₁ ids).rows) => hRow
  rw [DerivedTables.forall_rows]
  simp only [deleteSocial, List.mem_filter, decide_eq_true_eq] at hFollow hBlock
  refine ⟨fun r hr => Or.inl (hTally r hr), fun r hr => Or.inl (hReaction r hr),
    fun r hr => Or.inl (hQuote r hr), fun r hr => Or.inl (hReply r hr),
    fun r hr => Or.inl (hRepost r hr), fun r hr => ?_, fun r hr => ?_,
    fun r hr => Or.inl (hProfile r hr)⟩
  · by_cases h : r.eventId ∈ ids
    · exact Or.inr (Or.inl h)
    · exact Or.inl (hFollow r ⟨hr, h⟩)
  · by_cases h : r.eventId ∈ ids
    · exact Or.inr (Or.inl h)
    · exact Or.inl (hBlock r ⟨hr, h⟩)

/-- Deleting reactions takes no row that they do not touch. -/
theorem deleteReaction_rows (ids : List Nat) :
    ∀ row ∈ db₁.derived.rows, row ∈ (deleteReaction runtime db₁ ids).rows ∨ row.Touches ids := by
  obtain ⟨hTally, hReaction, hQuote, hReply, hRepost, hFollow, hBlock, hProfile⟩ :=
    DerivedTables.forall_rows.mp fun row (hRow : row ∈ (deleteReaction runtime db₁ ids).rows) => hRow
  rw [DerivedTables.forall_rows]
  simp only [deleteReaction, List.mem_map, List.mem_filter, decide_eq_true_eq] at hTally hReaction
  refine ⟨fun r hr => ?_, fun r hr => ?_, fun r hr => Or.inl (hQuote r hr),
    fun r hr => Or.inl (hReply r hr), fun r hr => Or.inl (hRepost r hr),
    fun r hr => Or.inl (hFollow r hr), fun r hr => Or.inl (hBlock r hr),
    fun r hr => Or.inl (hProfile r hr)⟩
  · -- The counts of a tally may change, but not its event.
    have hKept := hTally _ ⟨r, hr, rfl⟩
    refine Or.inl ?_
    split at hKept
    · rwa [ReactionTallyRow.view, uncountReaction_eventId] at hKept
    · exact hKept
  · by_cases h : r.eventId ∈ ids
    · exact Or.inr (Or.inl h)
    · exact Or.inl (hReaction r ⟨hr, h⟩)

/-- A `Delete` removes rows that the deleted event brought, and rows that refer to
it. -/
theorem updateCache_delete_removed {eventKey : Option EventKey} {derived : DerivedTables}
    (h : updateCache runtime now db₁ eventId identity (.delete eventKey) = .ok derived) :
    ∃ parts, partsOf eventKey = some parts ∧ ∀ row ∈ db₁.derived.rows,
      row ∈ derived.rows ∨ row.Touches ((db₁.selectEvent parts).map EventRow.id) := by
  simp only [updateCache, deleteQuery, bind_eq_ok_iff, pure, Except.pure, Except.ok.injEq] at h
  obtain ⟨parts, hParts, rfl⟩ := h
  refine ⟨parts, splitEventKey_eq_ok_iff.mp hParts, fun row hRow => ?_⟩
  split_ifs
  · exact deletePost_rows _ row hRow
  · exact deleteProfile_rows _ row hRow
  · exact deleteSocial_rows _ row hRow
  · exact deleteReaction_rows _ row hRow
  · exact Or.inl hRow

end Frame

end Polycentric.Server
