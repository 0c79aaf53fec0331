import Polycentric.Server.Database

/-! Storing an event, `events/repository.rs`. The source builds one statement with
data-modifying sub-queries: they all read the database as it was before, so the
new event is not visible to them. -/
namespace Polycentric.Server

open Proto Result

/-- What the database and its libraries decide: timestamps of `chrono`, the
function `reaction_count_decay`, and whether the database refuses a statement for
reasons of its own, such as a text with a zero byte. -/
structure Runtime where
  fromTimestampSecs : UInt64 → Option Int
  reactionCountDecay : Int → Int → Int
  refuses : EventRow → Option Content → Bool

def collectionFeed : Int16 := Collections.feed.toInt16

def collectionProfile : Int16 := Collections.profile.toInt16

def collectionSocial : Int16 := Collections.socialGraph.toInt16

def collectionInteractions : Int16 := Collections.interactions.toInt16

/-- Check if the identity is authorised to perform its mutation: only a `Delete`
of another identity's event is not, nor are verifications. -/
def eventIsAuthorised (identity : String) (content : Option Content) : Bool :=
  match content.bind Content.contentBody with
  | none => false
  | some (.delete none) => false
  | some (.delete (some eventKey)) => eventKey.identity == identity
  | some (.verificationVerify _) => false
  | some (.verificationTarget _ _) => false
  | some _ => true

section UpdateCache

variable (runtime : Runtime) (now : Int) (db : Database) (eventId : Nat) (identity : String)

/-- The rows that refer to a stored post which no `Delete` names. -/
def referenceRows (key : Option EventKey) (subject : String) : Except Status (List ReferenceRow) := do
  let parts ← splitEventKey key subject
  return (db.selectNotDeletedEvent parts).map fun post => ⟨eventId, identity, post.id⟩

/-- A reference that may be absent. -/
def optionalReferenceRows (key : Option EventKey) (subject : String) :
    Except Status (List ReferenceRow) :=
  match key with
  | none => .ok []
  | some key => referenceRows db eventId identity (some key) subject

/-- A reply is only added to the parent, not to the root. -/
def postQuery (post : Post) : Except Status DerivedTables := do
  let quotes ← optionalReferenceRows db eventId identity post.quote "quote"
  let replies ← optionalReferenceRows db eventId identity (post.reply.bind PostReply.parent) "reply"
  let tally : ReactionTallyRow := ⟨eventId, 0, 0, runtime.reactionCountDecay 0 now⟩
  return { db.derived with
    reactionTally := db.derived.reactionTally ++ [tally]
    quote := db.derived.quote ++ quotes
    reply := db.derived.reply ++ replies }

def followQuery (followee : String) : DerivedTables :=
  { db.derived with follow := db.derived.follow ++ [⟨eventId, identity, followee⟩] }

def blockQuery (blocked : String) : DerivedTables :=
  { db.derived with block := db.derived.block ++ [⟨eventId, identity, blocked⟩] }

/-- The tally of a post after one more reaction. -/
def countReaction (positive : Bool) (post : EventRow) (tally : ReactionTallyRow) :
    ReactionTallyRow :=
  if positive then
    { tally with
      positiveCount := tally.positiveCount + 1
      decayedCount := runtime.reactionCountDecay (tally.positiveCount + 1) post.createdAt }
  else { tally with negativeCount := tally.negativeCount + 1 }

def reactionQuery (reaction : Reaction) : Except Status DerivedTables := do
  let parts ← splitEventKey reaction.eventKey "reaction"
  let posts := db.selectNotDeletedEvent parts
  return { db.derived with
    reaction := db.derived.reaction ++ posts.map fun post =>
      ⟨eventId, identity, post.id, reaction.emoji, reaction.positive⟩
    reactionTally := db.derived.reactionTally.map fun tally =>
      match posts.find? fun post => post.id = tally.eventId with
      | some post => countReaction runtime reaction.positive post tally
      | none => tally }

/-- The previous profile of the identity is replaced. -/
def profileUpdateQuery (update : ProfileUpdate) : DerivedTables :=
  { db.derived with
    profile := (db.derived.profile.filter fun row => row.identity ≠ identity) ++
      [⟨eventId, identity, update.name, update.aliasName⟩] }

def repostQuery (post : Option EventKey) : Except Status DerivedTables := do
  let reposts ← referenceRows db eventId identity post "repost"
  return { db.derived with repost := db.derived.repost ++ reposts }

/-- The tally of a post after a reaction to it was removed. The decayed count is
computed from the count before the removal. -/
def uncountReaction (positive : Bool) (post : EventRow) (tally : ReactionTallyRow) :
    ReactionTallyRow :=
  if positive then
    { tally with
      positiveCount := tally.positiveCount - 1
      decayedCount := runtime.reactionCountDecay tally.positiveCount post.createdAt }
  else { tally with negativeCount := tally.negativeCount - 1 }

/-- A deleted post takes its tally, its quotes and replies, those that refer to it
and the reactions to it along. -/
def deletePost (ids : List Nat) : DerivedTables :=
  { db.derived with
    reactionTally := db.derived.reactionTally.filter fun row => row.eventId ∉ ids
    quote := db.derived.quote.filter fun row => row.eventId ∉ ids ∧ row.post ∉ ids
    reply := db.derived.reply.filter fun row => row.eventId ∉ ids ∧ row.post ∉ ids
    reaction := db.derived.reaction.filter fun row => row.onPost ∉ ids }

def deleteProfile (ids : List Nat) : DerivedTables :=
  { db.derived with profile := db.derived.profile.filter fun row => row.eventId ∉ ids }

/-- The key does not say whether the event is a follow or a block. -/
def deleteSocial (ids : List Nat) : DerivedTables :=
  { db.derived with
    follow := db.derived.follow.filter fun row => row.eventId ∉ ids
    block := db.derived.block.filter fun row => row.eventId ∉ ids }

def deleteReaction (ids : List Nat) : DerivedTables :=
  let deleted := db.derived.reaction.filter fun row => row.eventId ∈ ids
  { db.derived with
    reaction := db.derived.reaction.filter fun row => row.eventId ∉ ids
    reactionTally := db.derived.reactionTally.map fun tally =>
      match deleted.find? fun row => row.onPost = tally.eventId,
          db.event.find? fun row => row.id = tally.eventId with
      | some reaction, some post => uncountReaction runtime reaction.positive post tally
      | _, _ => tally }

/-- The collection of the deleted event decides which tables are cleared. -/
def deleteQuery (eventKey : Option EventKey) : Except Status DerivedTables := do
  let parts ← splitEventKey eventKey "delete content"
  let ids := (db.selectEvent parts).map EventRow.id
  return (
    if parts.collection = collectionFeed then deletePost db ids
    else if parts.collection = collectionProfile then deleteProfile db ids
    else if parts.collection = collectionSocial then deleteSocial db ids
    else if parts.collection = collectionInteractions then deleteReaction runtime db ids
    else db.derived)

/-- `update_cache_query`: the derived tables after an authorised event. -/
def updateCache (body : ContentBody) : Except Status DerivedTables :=
  match body with
  | .post post => postQuery runtime now db eventId identity post
  | .follow followee => .ok (followQuery db eventId identity followee)
  | .block blocked => .ok (blockQuery db eventId identity blocked)
  | .reaction reaction => reactionQuery runtime db eventId identity reaction
  | .profileUpdate update => .ok (profileUpdateQuery db eventId identity update)
  | .repost post => repostQuery db eventId identity post
  | .delete eventKey => deleteQuery runtime db eventKey
  | _ => .ok db.derived

end UpdateCache

/-- `save_content_body_query`, reduced to the rows of `content_delete` and to the
errors of the other child tables. -/
def saveContentBody (digest : ContentDigest) (body : ContentBody) :
    Except Status (List ContentDeleteRow) := do
  match body with
  | .delete eventKey => return [⟨digest, ← splitEventKey eventKey "delete content"⟩]
  | .reaction reaction => let _ ← splitEventKey reaction.eventKey "reaction content"
  | .attributedToReaction reaction =>
      let _ ← okOr (reaction.attributedTo.bind AttributedTo.linkUrl)
        ⟨.invalidArgument, "attributed_to_reaction must attribute to a link url"⟩
  | .repost (some post) => let _ ← splitEventKey (some post) "repost"
  | .report eventKey => let _ ← splitEventKey eventKey "report content"
  | .labels eventKey _ => let _ ← splitEventKey eventKey "labels content"
  | .verificationClaim schema =>
      let schema ← okOr schema ⟨.invalidArgument, "verification claim missing schema"⟩
      let _ ← okOr schema.digest ⟨.invalidArgument, "verification claim missing schema digest"⟩
  | .verificationTarget claim _ => let _ ← splitEventKey claim "verification target"
  | .verificationVerify claim => let _ ← splitEventKey claim "verification verify"
  | _ => pure ()
  return []

/-- Whether the child rows of new content collide with each other: their primary
keys hold the content and the value. -/
def childConflict (body : ContentBody) : Bool :=
  match body with
  -- The query of the label values selects no column, so every row has the value "()".
  | .labels _ labelValues => decide (2 ≤ labelValues.length)
  | .verificationTarget _ targetIdentities => !decide targetIdentities.Nodup
  | _ => false

/-- Content that was decoded and checked against its digest. -/
structure DecodedContent where
  bytes : Bytes
  content : Content
  digest : ContentDigest
  deriving DecidableEq, Repr

theorem map_content_bind_contentBody (decoded : Option DecodedContent) :
    (decoded.map DecodedContent.content).bind Content.contentBody =
      decoded.bind fun d => d.content.contentBody := by
  cases decoded <;> rfl

/-- The derived tables after the event. Only an authorised event changes them. -/
def derivedAfter (runtime : Runtime) (now : Int) (db : Database) (row : EventRow)
    (content : Option Content) : Except Status DerivedTables :=
  match content.bind Content.contentBody with
  | some body =>
      if eventIsAuthorised row.key.identity content then
        (updateCache runtime now db row.id row.key.identity body).mapError fun _ => internalError
      else .ok db.derived
  | none => .ok db.derived

/-- The rows of `content_delete` that new content brings. -/
def tombstonesOf (decoded : Option DecodedContent) : Except Status (List ContentDeleteRow) :=
  match decoded with
  | some d => d.content.contentBody.elim (.ok []) (saveContentBody d.digest)
  | none => .ok []

/-- The content, unless content with its digest is stored already. -/
def freshContent (db : Database) (decoded : Option DecodedContent) : Option DecodedContent :=
  decoded.filter fun d => !db.hasContent d.digest

/-- The statement violates a unique constraint: of the event key, or of a child
table of the content. -/
def isDuplicate (db : Database) (row : EventRow) (decoded : Option DecodedContent) : Bool :=
  db.event.any (fun stored => stored.key = row.key) ||
    (freshContent db decoded).any fun d => d.content.contentBody.any childConflict

/-- The tables after the statement. -/
def stored (db : Database) (row : EventRow) (decoded : Option DecodedContent)
    (derived : DerivedTables) (tombstones : List ContentDeleteRow) : Database :=
  { db with
    event := db.event ++ [row]
    content := db.content ++ ((freshContent db decoded).map fun d => ⟨d.digest, d.bytes⟩).toList
    contentDelete :=
      db.contentDelete ++ if (freshContent db decoded).isSome then tombstones else []
    derived := derived }

/-- Store an event and its content. `false` if the event is already stored: then
nothing changes. -/
def addEvent (runtime : Runtime) (now : Int) (db : Database) (row : EventRow)
    (decoded : Option DecodedContent) : Except Status (Bool × Database) := do
  let content := decoded.map DecodedContent.content
  let derived ← derivedAfter runtime now db row content
  let tombstones ← tombstonesOf decoded
  ensure (!runtime.refuses row content) internalError
  return if isDuplicate db row decoded then (false, db)
    else (true, stored db row decoded derived tombstones)

/-- What storing an event can do: nothing, or everything at once. -/
theorem addEvent_eq_ok_iff {runtime : Runtime} {now : Int} {db db' : Database} {row : EventRow}
    {decoded : Option DecodedContent} {added : Bool} :
    addEvent runtime now db row decoded = .ok (added, db') ↔
      ∃ derived tombstones,
        derivedAfter runtime now db row (decoded.map DecodedContent.content) = .ok derived ∧
        tombstonesOf decoded = .ok tombstones ∧
        runtime.refuses row (decoded.map DecodedContent.content) = false ∧
        ((isDuplicate db row decoded = true ∧ added = false ∧ db' = db) ∨
          (isDuplicate db row decoded = false ∧ added = true ∧
            db' = stored db row decoded derived tombstones)) := by
  simp only [addEvent, bind_eq_ok_iff, ensure_eq_ok_iff, Bool.not_eq_true', pure, Except.pure,
    Except.ok.injEq]
  constructor
  · rintro ⟨derived, hDerived, tombstones, hTombstones, _, hRefuses, hResult⟩
    refine ⟨derived, tombstones, hDerived, hTombstones, hRefuses, ?_⟩
    split at hResult
    · next hDuplicate => exact Or.inl ⟨hDuplicate, by simp_all⟩
    · next hDuplicate => exact Or.inr ⟨by simpa using hDuplicate, by simp_all⟩
  · rintro ⟨derived, tombstones, hDerived, hTombstones, hRefuses, hResult⟩
    refine ⟨derived, hDerived, tombstones, hTombstones, (), hRefuses, ?_⟩
    rcases hResult with ⟨hDuplicate, rfl, rfl⟩ | ⟨hDuplicate, rfl, rfl⟩ <;> simp [hDuplicate]

/-! ### The tables after the statement -/

section Stored

variable {db : Database} {row : EventRow} {decoded : Option DecodedContent} {derived : DerivedTables}
  {tombstones : List ContentDeleteRow}

theorem hasContent_stored (digest : ContentDigest) :
    (stored db row decoded derived tombstones).hasContent digest =
      (db.hasContent digest || (freshContent db decoded).any fun d => d.digest = digest) := by
  cases h : freshContent db decoded <;> simp [stored, Database.hasContent, h]

theorem isTombstoned_stored (key : EventKeyParts) :
    (stored db row decoded derived tombstones).isTombstoned key =
      (db.isTombstoned key ||
        (freshContent db decoded).isSome && tombstones.any fun row => row.eventKey = key) := by
  cases h : freshContent db decoded <;> simp [stored, Database.isTombstoned, h]

theorem mem_selectNotDeletedEvent {key : EventKeyParts} :
    row ∈ db.selectNotDeletedEvent key ↔
      db.isTombstoned key = false ∧ row ∈ db.event ∧ row.key = key := by
  cases h : db.isTombstoned key <;> simp [Database.selectNotDeletedEvent, Database.selectEvent, h]

theorem freshContent_eq_some_iff {d : DecodedContent} :
    freshContent db decoded = some d ↔ decoded = some d ∧ db.hasContent d.digest = false := by
  simp [freshContent, Option.filter_eq_some_iff]

end Stored

end Polycentric.Server

namespace Polycentric.TableInstance

/-- A database that refuses nothing and does not let counts decay. -/
def runtime : Server.Runtime where
  fromTimestampSecs secs := some secs.toNat
  reactionCountDecay count _ := count
  refuses _ _ := false

end Polycentric.TableInstance
