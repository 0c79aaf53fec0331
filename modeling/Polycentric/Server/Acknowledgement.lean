import Polycentric.Server.DeleteCompleteness
import Polycentric.Server.LedgerRefinement
import Polycentric.Server.Provenance

/-! What a success of `put_events` says about the tables. A statement that violates
a unique constraint is taken for an event that is stored already: it is rolled back
as a whole, and reported as a success. -/
namespace Polycentric.Server

open Proto Result Memo

variable (P : Primitives) (runtime : Runtime)

/-! ### Processing a bundle that passes the checks -/

/-- The call of `add_event` for the event. -/
def IncomingEvent.addStep (now : Int) (id : Nat) (incoming : IncomingEvent) : AddStep :=
  ⟨now, incoming.row runtime now id, incoming.decoded⟩

section Processing

variable {P} {runtime} {server : ServiceContext} {bundle : EventBundle} {incoming : IncomingEvent}
  {now : Int} {id : Nat}

/-- After the checks, the ban of the identity and the transaction decide. -/
theorem processEvent_of_incoming (h : incomingEvent P bundle = some incoming) :
    processEvent P runtime now id server bundle =
      match isBanned server incoming.key.identity with
      | (true, server) => (.error bannedError, server)
      | (false, server) =>
          match storeEvent P runtime now id server incoming with
          | (.error status, server) => (.error status, server)
          | (.ok (), server) => (.ok incoming.blobs, server) := by
  unfold incomingEvent at h
  cases hOpen : openBundle P bundle with
  | error status => simp [hOpen] at h
  | ok parts =>
      obtain ⟨signed, event, key⟩ := parts
      simp only [hOpen, toOption_eq_some_iff] at h
      obtain rfl : incoming.key = key := by
        simp only [checkEvent, bind_eq_ok_iff, pure, Except.pure, Except.ok.injEq] at h
        obtain ⟨signedBy, -, -, -, decoded, -, rfl⟩ := h
        rfl
      generalize hProcess : processEvent P runtime now id server bundle = result
      simp only [processEvent, hOpen, h] at hProcess
      exact hProcess.symm

/-- An event that is reported as a success was authorised, and the database was
asked to store it. -/
theorem processEvent_ok {blobs : List Blob} (hIncoming : incomingEvent P bundle = some incoming)
    (h : (processEvent P runtime now id server bundle).1 = .ok blobs) :
    ∃ added, addEvent runtime now server.db (incoming.row runtime now id) incoming.decoded =
      .ok (added, (processEvent P runtime now id server bundle).2.db) := by
  obtain ⟨hDb, hCache⟩ := isBanned_frame server incoming.key.identity
  rw [processEvent_of_incoming hIncoming] at h ⊢
  cases hBanned : isBanned server incoming.key.identity with
  | mk banned server' =>
      rw [hBanned] at hDb hCache h
      cases banned with
      | true => cases h
      | false =>
          dsimp only at h ⊢
          unfold storeEvent at h ⊢
          rw [hDb] at h ⊢
          cases hAuthorize : incoming.authorize P server.db server'.proofCache with
          | mk verdict cache =>
              rw [hAuthorize] at h
              cases verdict with
              | error status => cases h
              | ok _ =>
                  dsimp only at h ⊢
                  cases hAdd : addEvent runtime now server.db (incoming.row runtime now id)
                      incoming.decoded with
                  | error status => simp [hAdd] at h
                  | ok result =>
                      obtain ⟨added, db⟩ := result
                      cases added with
                      | true => exact ⟨true, rfl⟩
                      | false =>
                          obtain ⟨derived, tombstones, -, -, -, hSame⟩ := addEvent_eq_ok_iff.mp hAdd
                          have hEq : db = server.db :=
                            (hSame.resolve_right fun hNew => nomatch hNew.2.1).2.2
                          refine ⟨false, ?_⟩
                          rw [hEq]

/-- A bundle that passes the checks changes the database as `add_event` does, if at
all. -/
theorem processEvent_db_cases (hIncoming : incomingEvent P bundle = some incoming) :
    (processEvent P runtime now id server bundle).2.db = server.db ∨
      (processEvent P runtime now id server bundle).2.db =
        (incoming.addStep runtime now id).run runtime server.db := by
  have hOutcome := processEvent_outcome P runtime now id server bundle
  generalize (processEvent P runtime now id server bundle).2.db = db',
    (processEvent P runtime now id server bundle).2.proofCache = cache' at hOutcome ⊢
  cases hOutcome with
  | rejected => exact Or.inl rfl
  | checked _ _ => exact Or.inl rfl
  | stored incoming' hIncoming' _ _ hAdded =>
      obtain rfl : incoming = incoming' := Option.some.inj (hIncoming.symm.trans hIncoming')
      right
      simp [AddStep.run, IncomingEvent.addStep, hAdded]

/-- An event of a banned identity only fills the ban cache of the request. -/
theorem processEvent_of_banned (hIncoming : incomingEvent P bundle = some incoming)
    (hBanned : (isBanned server incoming.key.identity).1 = true) :
    (processEvent P runtime now id server bundle).2 =
      (isBanned server incoming.key.identity).2 := by
  rw [processEvent_of_incoming hIncoming]
  split
  · next hPair => rw [hPair]
  · next hPair =>
      rw [hPair] at hBanned
      cases hBanned

/-- An authorised event of an identity that is not banned reaches `add_event`. -/
theorem processEvent_of_authorised (hIncoming : incomingEvent P bundle = some incoming)
    (hAllowed : (isBanned server incoming.key.identity).1 = false)
    (hAuthorised : (incoming.authorize P server.db server.proofCache).1 = .ok ()) :
    (processEvent P runtime now id server bundle).2 =
      match addEvent runtime now server.db (incoming.row runtime now id) incoming.decoded with
      | .ok (true, db) =>
          { (isBanned server incoming.key.identity).2 with
            db := db
            proofCache := incoming.invalidate (incoming.authorize P server.db server.proofCache).2 }
      | _ =>
          { (isBanned server incoming.key.identity).2 with
            proofCache := (incoming.authorize P server.db server.proofCache).2 } := by
  obtain ⟨hDb, hCache⟩ := isBanned_frame server incoming.key.identity
  rw [processEvent_of_incoming hIncoming]
  cases hBanned : isBanned server incoming.key.identity with
  | mk banned server' =>
      rw [hBanned] at hDb hCache hAllowed
      obtain rfl : banned = false := hAllowed
      dsimp only at hDb hCache ⊢
      rw [← hDb, ← hCache] at hAuthorised ⊢
      cases hAuthorize : incoming.authorize P server'.db server'.proofCache with
      | mk verdict cache =>
          obtain rfl : verdict = .ok () := by rwa [hAuthorize] at hAuthorised
          unfold storeEvent
          rw [hAuthorize]
          dsimp only
          cases addEvent runtime now server'.db (incoming.row runtime now id) incoming.decoded with
          | error status => rfl
          | ok result =>
              obtain ⟨added, db⟩ := result
              cases added <;> rfl

/-- An event that is allowed and authorised does to the database what its step does. -/
theorem processEvent_db (hIncoming : incomingEvent P bundle = some incoming)
    (hAllowed : (isBanned server incoming.key.identity).1 = false)
    (hAuthorised : (incoming.authorize P server.db server.proofCache).1 = .ok ()) :
    (processEvent P runtime now id server bundle).2.db =
      (incoming.addStep runtime now id).run runtime server.db := by
  obtain ⟨hDb, -⟩ := isBanned_frame server incoming.key.identity
  rw [processEvent_of_authorised hIncoming hAllowed hAuthorised]
  unfold AddStep.run IncomingEvent.addStep
  cases hAdd : addEvent runtime now server.db (incoming.row runtime now id) incoming.decoded with
  | error status => exact hDb
  | ok result =>
      obtain ⟨added, db⟩ := result
      cases added with
      | true => rfl
      | false =>
          obtain ⟨derived, tombstones, -, -, -, hSame⟩ := addEvent_eq_ok_iff.mp hAdd
          exact hDb.trans (hSame.resolve_right fun hNew => nomatch hNew.2.1).2.2.symm

/-- The ban of an identity is looked up once in a request. -/
theorem isBanned_again (server : ServiceContext) (identity : String) (cache : ProofCache) :
    (isBanned { (isBanned server identity).2 with proofCache := cache } identity).1 =
      (isBanned server identity).1 := by
  cases hCached : server.bannedCache.get identity with
  | some banned => simp [isBanned, hCached]
  | none => simp [isBanned, hCached, Table.get_insert_self]

/-- A second lookup answers like the first, which has filled the cache. -/
theorem canonical_again {db : Database} {cache : ProofCache} (identity : String)
    (collection : Int32) :
    ((cache.canonical P db identity collection).2.canonical P db identity collection).1 =
      (cache.canonical P db identity collection).1 := by
  cases hCached : cache.canonicalTable.get (identity, collection) with
  | some signatures => simp [ProofCache.canonical, hCached]
  | none => simp [ProofCache.canonical, hCached, Table.get_insert_self]

theorem canonical_identityContent {db : Database} {cache : ProofCache} (identity : String)
    (collection : Int32) :
    (cache.canonical P db identity collection).2.identityContent identity =
      cache.identityContent identity := by
  rw [ProofCache.identityContent, ProofCache.canonical_identityTable]
  rfl

/-- A document that was looked up is in the cache. -/
theorem cachedIdentityContent_remembered {db : Database} {cache cache' : ProofCache}
    {identity : String} {document : Identity}
    (h : cachedIdentityContent P db cache identity = (.ok document, cache')) :
    cache'.identityContent identity = some document := by
  unfold cachedIdentityContent at h
  split at h
  · next hCached =>
      simp only [Prod.mk.injEq, Except.ok.injEq] at h
      rw [← h.1, ← h.2, hCached]
  · split at h
    · cases h
    · simp only [Prod.mk.injEq, Except.ok.injEq] at h
      rw [← h.1, ← h.2]
      exact Table.get_insert_self _ _

theorem cachedIdentityContent_hit {db : Database} {cache : ProofCache} {identity : String}
    {document : Identity} (h : cache.identityContent identity = some document) :
    cachedIdentityContent P db cache identity = (.ok document, cache) := by
  rw [cachedIdentityContent, h]

/-- A signer that was authorised is authorised again, from the cache. -/
theorem authorizeEventSigner_again {db : Database} {cache : ProofCache} {identity : String}
    {signer : PublicKey} {collection : Int32} {signature : Bytes}
    (h : (authorizeEventSigner P db cache identity signer collection signature).1 = .ok ()) :
    (authorizeEventSigner P db
      (authorizeEventSigner P db cache identity signer collection signature).2 identity signer
        collection signature).1 = .ok () := by
  cases hDocument : cachedIdentityContent P db cache identity with
  | mk verdict cache₁ =>
      cases verdict with
      | error status => simp [authorizeEventSigner, hDocument] at h
      | ok document =>
          have hRemembered := cachedIdentityContent_remembered hDocument
          by_cases hSigner : document.authorizesSigner signer = true
          · simp [authorizeEventSigner, hDocument, hSigner, cachedIdentityContent_hit hRemembered]
          · cases hTarget : document.revocationTargetFor signer collection with
            | none => simp [authorizeEventSigner, hDocument, hSigner, hTarget] at h
            | some target =>
                have hHit : cachedIdentityContent P db (cache₁.canonical P db identity collection).2
                    identity = (.ok document, (cache₁.canonical P db identity collection).2) :=
                  cachedIdentityContent_hit
                    ((canonical_identityContent identity collection).trans hRemembered)
                by_cases hOut : (cache₁.canonical P db identity collection).1.length <
                    target.leafCount.toNat ∨
                  ¬((cache₁.canonical P db identity collection).1.take target.leafCount.toNat).any
                    (fun s => s == signature)
                · simp only [authorizeEventSigner, hDocument, hSigner, hTarget, if_pos hOut,
                    Bool.false_eq_true, if_false, reduceCtorEq] at h
                · simp only [authorizeEventSigner, hDocument, hSigner, hTarget, if_neg hOut, hHit,
                    canonical_again, Bool.false_eq_true, if_false]

/-- An event that was authorised is authorised again by what the caches remember. -/
theorem authorize_again {db : Database} {cache : ProofCache}
    (h : (incoming.authorize P db cache).1 = .ok ()) :
    (incoming.authorize P db (incoming.authorize P db cache).2).1 = .ok () := by
  unfold IncomingEvent.authorize at h ⊢
  split_ifs at h ⊢ with hCollection
  · exact authorizeEventSigner_again h
  · rfl

end Processing

/-! ### Success without a row -/

/-- A row with the key and the signature of the event. -/
def Database.Holds (db : Database) (incoming : IncomingEvent) : Prop :=
  ∃ row ∈ db.event, row.key = .of incoming.key incoming.signedBy ∧
    row.signature = incoming.signed.signature

/-- No row has the key of the event. -/
def Database.NewKey (db : Database) (incoming : IncomingEvent) : Prop :=
  ∀ row ∈ db.event, row.key ≠ .of incoming.key incoming.signedBy

/-- Content that is new to the database brings no two child rows with one key: there is
at most one label, and no target of a verification is repeated. -/
def Database.ChildrenApart (db : Database) (decoded : Option DecodedContent) : Prop :=
  ∀ d, freshContent db decoded = some d → d.content.contentBody.any childConflict = false

instance (db : Database) (incoming : IncomingEvent) : Decidable (db.Holds incoming) :=
  inferInstanceAs (Decidable (∃ row ∈ db.event, _))

instance (db : Database) (incoming : IncomingEvent) : Decidable (db.NewKey incoming) :=
  inferInstanceAs (Decidable (∀ row ∈ db.event, _))

section Duplicates

variable {db : Database} {row : EventRow} {decoded : Option DecodedContent}

/-- An event counts as new if no row has its key and its content brings no two rows of one key. -/
theorem isDuplicate_eq_false_iff :
    isDuplicate db row decoded = false ↔
      (∀ stored ∈ db.event, stored.key ≠ row.key) ∧ db.ChildrenApart decoded := by
  rw [isDuplicate, Bool.or_eq_false_iff, List.any_eq_false]
  apply and_congr
  · simp
  · unfold Database.ChildrenApart
    cases freshContent db decoded <;> simp

end Duplicates

/-- A success leaves a row with the key and the signature of the event exactly if
there was one before, or if the key was new and the statement had no other reason
to violate a unique constraint. -/
theorem success_holds_iff {P : Primitives} {runtime : Runtime} {server : ServiceContext}
    {bundle : EventBundle} {incoming : IncomingEvent} {now : Int} {id : Nat} {blobs : List Blob}
    (hIncoming : incomingEvent P bundle = some incoming)
    (hOk : (processEvent P runtime now id server bundle).1 = .ok blobs) :
    (processEvent P runtime now id server bundle).2.db.Holds incoming ↔
      server.db.Holds incoming ∨
        server.db.NewKey incoming ∧ server.db.ChildrenApart incoming.decoded := by
  obtain ⟨added, hAdd⟩ := processEvent_ok hIncoming hOk
  obtain ⟨derived, tombstones, -, -, -, hResult⟩ := addEvent_eq_ok_iff.mp hAdd
  rcases hResult with ⟨hDuplicate, -, hSame⟩ | ⟨hSingle, -, hStored⟩
  · have hNot : ¬(server.db.NewKey incoming ∧ server.db.ChildrenApart incoming.decoded) := by
      intro hNew
      have hSingle : isDuplicate server.db (incoming.row runtime now id) incoming.decoded = false :=
        isDuplicate_eq_false_iff.mpr hNew
      simp [hDuplicate] at hSingle
    rw [hSame]
    simp [hNot]
  · refine iff_of_true ?_ (Or.inr (isDuplicate_eq_false_iff.mp hSingle))
    rw [hStored]
    exact ⟨incoming.row runtime now id, List.mem_append_right _ (List.mem_singleton_self _), rfl, rfl⟩

end Polycentric.Server

namespace Polycentric.TableInstance

open Proto Server Runs

/-- Alice posts, and labels the post with two values. -/
def labelPrimitives : Primitives := primitives
  [([1], event Collections.identity aliceIdentity (key 1) 1 [] [11]),
    ([3], event Collections.feed aliceIdentity (key 2) 1 [0, 1] [13]),
    ([7], event Collections.labels aliceIdentity (key 2) 1 [0, 1] [17])]
  [([11], ⟨some (.identity genesis)⟩), ([13], ⟨some (.post ⟨"hello", none, [], none, []⟩)⟩),
    ([17], ⟨some (.labels (some postKey) ["nsfw", "spam"])⟩)]

def aliceServer : ServiceContext :=
  run (step labelPrimitives runtime) (start []) [.request, .bundle (arrival 1 (key 1))]

/-- Event `[n]` of the key, with its content. -/
def incomingOf (collection : Int32) (n : UInt8) (content : Content) : IncomingEvent where
  signed := ⟨sign (key 2).key [n], [n]⟩
  event := event collection aliceIdentity (key 2) 1 [0, 1] [10 + n]
  key := ⟨collection, aliceIdentity, some (key 2), 1⟩
  signedBy := key 2
  decoded := some ⟨[10 + n], content, ⟨contentDigestTypeSha256, (digest [10 + n]).val⟩⟩

def postIncoming : IncomingEvent :=
  incomingOf Collections.feed 3 ⟨some (.post ⟨"hello", none, [], none, []⟩)⟩

def labelsIncoming : IncomingEvent :=
  incomingOf Collections.labels 7 ⟨some (.labels (some postKey) ["nsfw", "spam"])⟩

theorem incomingEvent_post :
    incomingEvent labelPrimitives (arrival 3 (key 2)).bundle = some postIncoming := by
  decide +kernel

end Polycentric.TableInstance

namespace Polycentric.Server

open Proto Result Memo TableInstance

theorem success_holds_post :
    (processEvent labelPrimitives TableInstance.runtime 0 3 aliceServer
      (arrival 3 (key 2)).bundle).2.db.Holds postIncoming := by
  have hOk : (processEvent labelPrimitives TableInstance.runtime 0 3 aliceServer
      (arrival 3 (key 2)).bundle).1 = .ok [] := by decide +kernel
  refine (success_holds_iff incomingEvent_post hOk).mpr (Or.inr ⟨by decide +kernel, ?_⟩)
  intro d hFresh
  obtain rfl := Option.some.inj (freshContent_eq_some_iff.mp hFresh).1
  rfl

/-- The labels are reported as a success, and there is no row of the event. -/
theorem success_without_row :
    incomingEvent labelPrimitives (arrival 7 (key 2)).bundle = some labelsIncoming ∧
      (processEvent labelPrimitives TableInstance.runtime 0 7 aliceServer
        (arrival 7 (key 2)).bundle).1 = .ok [] ∧
      ¬(processEvent labelPrimitives TableInstance.runtime 0 7 aliceServer
        (arrival 7 (key 2)).bundle).2.db.Holds labelsIncoming := by
  decide +kernel

/-! ### Content that arrives late -/

/-- The bundle without its content. -/
def withoutContent (bundle : EventBundle) : EventBundle := { bundle with serializedContent := none }

/-- The body changes no row of the derived tables. -/
def Idle (db : Database) (eventId : Nat) (identity : String) (body : ContentBody) : Prop :=
  match body with
  | .post _ | .follow _ | .block _ => False
  | .reaction reaction =>
      ∀ key, partsOf reaction.eventKey = some key → db.selectNotDeletedEvent key = []
  | .repost post => ∀ key, partsOf post = some key → db.selectNotDeletedEvent key = []
  | .profileUpdate update => ∃ others, (∀ row ∈ others, row.identity ≠ identity) ∧
      db.derived.profile = others ++ [⟨eventId, identity, update.name, update.aliasName⟩]
  | .delete eventKey => ∀ key, partsOf eventKey = some key → ∀ row ∈ db.derived.rows,
      Spared key.collection ((db.selectEvent key).map EventRow.id) row
  | _ => True

section Idle

variable {runtime : Runtime} {now : Int} {db : Database} {eventId : Nat} {identity : String}
  {derived : DerivedTables}

theorem append_map_eq_self_iff {α β : Type} {l : List β} {f : α → β} {added : List α} :
    l ++ added.map f = l ↔ added = [] := by
  simp

/-- A collection whose rows are all spared is left as it is. -/
theorem cleared_eq_self {key : EventKeyParts} (ids : List Nat)
    (h : ∀ row ∈ db.derived.rows, Spared key.collection ids row) :
    (if key.collection = collectionFeed then deletePost db ids
      else if key.collection = collectionProfile then deleteProfile db ids
      else if key.collection = collectionSocial then deleteSocial db ids
      else if key.collection = collectionInteractions then deleteReaction runtime db ids
      else db.derived) = db.derived := by
  obtain ⟨hTally, hReaction, hQuote, hReply, -, hFollow, hBlock, hProfile⟩ :=
    DerivedTables.forall_rows.mp h
  simp only [Spared, Cleared, DerivedRow.Mentions, ReactionTallyRow.view, ReactionRow.view,
    ReferenceRow.view, FollowRow.view, BlockRow.view, ProfileRow.view]
    at hTally hReaction hQuote hReply hFollow hBlock hProfile
  split_ifs with hIsFeed hIsProfile hIsSocial hIsInteractions
  · have hTallies : (db.derived.reactionTally.filter fun row => row.eventId ∉ ids) =
        db.derived.reactionTally := List.filter_eq_self.mpr (by grind)
    have hQuotes : (db.derived.quote.filter fun row => row.eventId ∉ ids ∧ row.post ∉ ids) =
        db.derived.quote := List.filter_eq_self.mpr (by grind)
    have hReplies : (db.derived.reply.filter fun row => row.eventId ∉ ids ∧ row.post ∉ ids) =
        db.derived.reply := List.filter_eq_self.mpr (by grind)
    have hReactions : (db.derived.reaction.filter fun row => row.onPost ∉ ids) =
        db.derived.reaction := List.filter_eq_self.mpr (by grind)
    rw [deletePost, hTallies, hQuotes, hReplies, hReactions]
  · have hProfiles : (db.derived.profile.filter fun row => row.eventId ∉ ids) =
        db.derived.profile := List.filter_eq_self.mpr (by grind)
    rw [deleteProfile, hProfiles]
  · have hFollows : (db.derived.follow.filter fun row => row.eventId ∉ ids) = db.derived.follow :=
      List.filter_eq_self.mpr (by grind)
    have hBlocks : (db.derived.block.filter fun row => row.eventId ∉ ids) = db.derived.block :=
      List.filter_eq_self.mpr (by grind)
    rw [deleteSocial, hFollows, hBlocks]
  · have hKept : (db.derived.reaction.filter fun row => row.eventId ∉ ids) = db.derived.reaction :=
      List.filter_eq_self.mpr (by grind)
    have hDeleted : (db.derived.reaction.filter fun row => row.eventId ∈ ids) = [] :=
      List.filter_eq_nil_iff.mpr (by grind)
    simp only [deleteReaction, hKept, hDeleted, List.find?_nil, List.map_id']
  · rfl

/-- A deletion changes nothing if it finds nothing to take. -/
theorem deleteQuery_eq_self_iff {eventKey : Option EventKey}
    (h : updateCache runtime now db eventId identity (.delete eventKey) = .ok derived) :
    derived = db.derived ↔ Idle db eventId identity (.delete eventKey) := by
  obtain ⟨key, hKey, hRows⟩ := mem_deleteQuery_rows h
  simp only [Idle, hKey, Option.some.injEq, forall_eq']
  constructor
  · intro hSame row hRow
    rw [hSame] at hRows
    exact ((hRows row).mp hRow).2
  · intro hSpared
    simp only [updateCache, deleteQuery, bind_eq_ok_iff, splitEventKey_eq_ok_iff, hKey, pure,
      Except.pure, Except.ok.injEq, Option.some.injEq, exists_eq_left'] at h
    rw [← h]
    exact cleared_eq_self _ hSpared

/-- A profile update changes nothing if the row of the profile stays. -/
theorem profileUpdateQuery_eq_self_iff {update : ProfileUpdate} :
    profileUpdateQuery db eventId identity update = db.derived ↔
      Idle db eventId identity (.profileUpdate update) := by
  unfold profileUpdateQuery Idle
  constructor
  · intro hSame
    refine ⟨db.derived.profile.filter fun row => row.identity ≠ identity, ?_, ?_⟩
    · intro row hRow
      simpa using (List.mem_filter.mp hRow).2
    · exact (congrArg DerivedTables.profile hSame).symm
  · rintro ⟨others, hOthers, hProfile⟩
    have hKept : (db.derived.profile.filter fun row => row.identity ≠ identity) = others := by
      rw [hProfile, List.filter_append, List.filter_eq_self.mpr (by simpa using hOthers)]
      simp
    rw [hKept, ← hProfile]

/-- The update leaves the derived tables as they are exactly if the body is idle. -/
theorem updateCache_eq_self_iff {body : ContentBody}
    (h : updateCache runtime now db eventId identity body = .ok derived) :
    derived = db.derived ↔ Idle db eventId identity body := by
  have hAppend : ∀ {α : Type} {l : List α} {a : α}, l ++ [a] ≠ l := by simp
  cases body with
  | post post =>
      simp only [updateCache, postQuery, bind_eq_ok_iff, pure, Except.pure, Except.ok.injEq] at h
      obtain ⟨quotes, -, replies, -, rfl⟩ := h
      exact iff_of_false (fun hEq => hAppend (congrArg DerivedTables.reactionTally hEq)) id
  | follow followee =>
      obtain rfl := Except.ok.inj h
      exact iff_of_false (fun hEq => hAppend (congrArg DerivedTables.follow hEq)) id
  | block blocked =>
      obtain rfl := Except.ok.inj h
      exact iff_of_false (fun hEq => hAppend (congrArg DerivedTables.block hEq)) id
  | reaction reaction =>
      simp only [updateCache, reactionQuery, bind_eq_ok_iff, splitEventKey_eq_ok_iff, pure,
        Except.pure, Except.ok.injEq] at h
      obtain ⟨key, hKey, rfl⟩ := h
      simp only [Idle, hKey, Option.some.injEq, forall_eq']
      constructor
      · intro hEq
        exact append_map_eq_self_iff.mp (congrArg DerivedTables.reaction hEq)
      · intro hNone
        simp [hNone]
  | repost post =>
      simp only [updateCache, repostQuery, referenceRows, bind_eq_ok_iff, splitEventKey_eq_ok_iff,
        pure, Except.pure, Except.ok.injEq] at h
      obtain ⟨reposts, ⟨key, hKey, rfl⟩, rfl⟩ := h
      simp only [Idle, hKey, Option.some.injEq, forall_eq']
      constructor
      · intro hEq
        exact append_map_eq_self_iff.mp (congrArg DerivedTables.repost hEq)
      · intro hNone
        simp [hNone]
  | profileUpdate update =>
      obtain rfl := Except.ok.inj h
      exact profileUpdateQuery_eq_self_iff
  | delete eventKey => exact deleteQuery_eq_self_iff h
  | _ =>
      obtain rfl := Except.ok.inj h
      exact iff_of_true rfl trivial

end Idle

namespace AddStep

/-- Nothing but the key of the event may keep the step from being stored. -/
structure Storable (runtime : Runtime) (db : Database) (step : AddStep) : Prop where
  referenced : step.event.wellReferenced = true
  body : (tombstonesOf step.decoded).isOk = true
  accepted : runtime.refuses step.row (step.decoded.map DecodedContent.content) = false
  children : db.ChildrenApart step.decoded

/-- The content is stored already, and the body is idle. -/
structure BringsNothing (db : Database) (step : AddStep) : Prop where
  content : ∀ d, step.decoded = some d → db.hasContent d.digest = true
  body : ∀ body, step.authorisedBody = some body →
    Idle db step.row.id step.row.key.identity body

variable {runtime : Runtime} {db : Database} {step : AddStep} {derived : DerivedTables}
  {tombstones : List ContentDeleteRow}

/-- A step stores if its key is new and its rows can be written. -/
theorem exists_stores_iff :
    (∃ derived tombstones, step.Stores runtime db derived tombstones) ↔
      (∀ row ∈ db.event, row.key ≠ step.row.key) ∧ step.Storable runtime db := by
  constructor
  · rintro ⟨derived, tombstones, hStores⟩
    exact ⟨hStores.newKey, (derived_ok_iff runtime db step).mp ⟨derived, hStores.derived⟩,
      isOk_iff.mpr ⟨tombstones, hStores.tombstones⟩, hStores.accepted,
      (isDuplicate_eq_false_iff.mp hStores.single).2⟩
  · rintro ⟨hNew, hStorable⟩
    obtain ⟨derived, hDerived⟩ := (derived_ok_iff runtime db step).mpr hStorable.referenced
    obtain ⟨tombstones, hTombstones⟩ := isOk_iff.mp hStorable.body
    exact ⟨derived, tombstones, hDerived, hTombstones, hStorable.accepted,
      isDuplicate_eq_false_iff.mpr ⟨hNew, hStorable.children⟩⟩

/-- A step with a key that is stored changes nothing. -/
theorem run_of_stored_key {row : EventRow} (hRow : row ∈ db.event) (hKey : row.key = step.row.key) :
    step.run runtime db = db := by
  rcases run_cases runtime db step with hSame | ⟨derived, tombstones, hStores, -⟩
  · exact hSame
  · exact absurd hKey (hStores.newKey row hRow)

end AddStep

/-- The same content, with its rows of `content_delete`, and the same derived
tables. -/
structure Database.SameContent (db db' : Database) : Prop where
  content : db.content = db'.content
  contentDelete : db.contentDelete = db'.contentDelete
  derived : db.derived = db'.derived

theorem AddStep.Stores.sameContent_iff {runtime : Runtime} {db : Database} {step : AddStep}
    {derived : DerivedTables} {tombstones : List ContentDeleteRow}
    (h : step.Stores runtime db derived tombstones) :
    db.SameContent (stored db step.row step.decoded derived tombstones) ↔ step.BringsNothing db := by
  have hIdle : derived = db.derived ↔ ∀ body, step.authorisedBody = some body →
      Idle db step.row.id step.row.key.identity body := by
    rcases h.derived with ⟨hNone, hSame⟩ | ⟨body, hBody, hUpdate⟩
    · simp [hNone, hSame]
    · simp only [hBody, Option.some.injEq, forall_eq']
      exact updateCache_eq_self_iff hUpdate
  have hContent : freshContent db step.decoded = none ↔
      ∀ d, step.decoded = some d → db.hasContent d.digest = true := by
    cases hDecoded : step.decoded with
    | none => simp [freshContent]
    | some d => simp [freshContent, Option.filter_eq_none_iff]
  constructor
  · intro hSame
    refine ⟨hContent.mp ?_, hIdle.mp hSame.derived.symm⟩
    have hRows := hSame.content
    cases hFresh : freshContent db step.decoded with
    | none => rfl
    | some d => simp [stored, hFresh] at hRows
  · intro hNothing
    have hFresh := hContent.mpr hNothing.content
    exact ⟨by simp [stored, hFresh], by simp [stored, hFresh],
      (hIdle.mpr hNothing.body).symm⟩

/-- A step with a new key leaves the content and the derived tables as they are
exactly if it is not stored, or brings nothing. -/
theorem AddStep.sameContent_run_iff {runtime : Runtime} {db : Database} {step : AddStep}
    (hNew : ∀ row ∈ db.event, row.key ≠ step.row.key) :
    db.SameContent (step.run runtime db) ↔
      ¬step.Storable runtime db ∨ step.BringsNothing db := by
  by_cases hStorable : step.Storable runtime db
  · obtain ⟨derived, tombstones, hStores⟩ := AddStep.exists_stores_iff.mpr ⟨hNew, hStorable⟩
    rw [hStores.run_eq, hStores.sameContent_iff]
    simp [hStorable]
  · have hRun : step.run runtime db = db := by
      rcases AddStep.run_cases runtime db step with hSame | ⟨derived, tombstones, hStores, -⟩
      · exact hSame
      · exact absurd (AddStep.exists_stores_iff.mp ⟨derived, tombstones, hStores⟩).2 hStorable
    rw [hRun]
    exact iff_of_true ⟨rfl, rfl, rfl⟩ (Or.inl hStorable)

/-- Without its content a bundle still comes in. -/
theorem incomingEvent_withoutContent {P : Primitives} {bundle : EventBundle}
    {incoming : IncomingEvent} (h : incomingEvent P bundle = some incoming) :
    incomingEvent P (withoutContent bundle) = some { incoming with decoded := none } := by
  unfold incomingEvent at h ⊢
  have hOpen : openBundle P (withoutContent bundle) = openBundle P bundle := rfl
  rw [hOpen]
  split at h
  · cases h
  · rw [toOption_eq_some_iff] at h ⊢
    simp only [checkEvent, bind_eq_ok_iff, okOr_eq_ok_iff, ensure_eq_ok_iff, pure, Except.pure,
      Except.ok.injEq] at h ⊢
    obtain ⟨signedBy, hSigner, -, hSignature, decoded, -, rfl⟩ := h
    exact ⟨signedBy, hSigner, (), hSignature, none, rfl, rfl⟩

section LateContent

variable {P : Primitives} {runtime : Runtime} {server : ServiceContext} {bundle : EventBundle}
  {incoming : IncomingEvent} {now : Int} {id : Nat}

/-- A bundle whose key is stored changes no table. -/
theorem processEvent_of_stored_key (hIncoming : incomingEvent P bundle = some incoming)
    {row : EventRow} (hRow : row ∈ server.db.event)
    (hKey : row.key = .of incoming.key incoming.signedBy) :
    (processEvent P runtime now id server bundle).2.db = server.db := by
  rcases processEvent_db_cases hIncoming with hSame | hRun
  · exact hSame
  · exact hRun.trans (AddStep.run_of_stored_key hRow hKey)

/-- The copy without content brings its row and nothing else. -/
theorem stores_withoutContent (hNew : server.db.NewKey incoming)
    (hAccepted : runtime.refuses (incoming.row runtime now id) none = false) :
    AddStep.Stores runtime server.db
      (IncomingEvent.addStep runtime now id { incoming with decoded := none }) server.db.derived [] where
  derived := Or.inl ⟨ite_self none, rfl⟩
  tombstones := rfl
  accepted := hAccepted
  single := isDuplicate_eq_false_iff.mpr ⟨hNew, fun _ hFresh => nomatch hFresh⟩

/-- After a copy that is stored, the full bundle is a duplicate. -/
theorem processEvent_after_copy (hIncoming : incomingEvent P bundle = some incoming)
    (hAllowed : (isBanned server incoming.key.identity).1 = false)
    (hAuthorised : (incoming.authorize P server.db server.proofCache).1 = .ok ())
    (hNew : server.db.NewKey incoming)
    (hAccepted : runtime.refuses (incoming.row runtime now id) none = false) {later : Int}
    {laterId : Nat} :
    (processEvent P runtime later laterId
        (processEvent P runtime now id server (withoutContent bundle)).2 bundle).2.db =
      stored server.db (incoming.row runtime now id) none server.db.derived [] := by
  have hFirstDb : (processEvent P runtime now id server (withoutContent bundle)).2.db =
      stored server.db (incoming.row runtime now id) none server.db.derived [] :=
    (processEvent_db (incomingEvent_withoutContent hIncoming) hAllowed hAuthorised).trans
      (stores_withoutContent hNew hAccepted).run_eq
  have hRow : incoming.row runtime now id ∈
      (processEvent P runtime now id server (withoutContent bundle)).2.db.event := by
    rw [hFirstDb]
    exact List.mem_append_right _ (List.mem_singleton_self _)
  rw [← hFirstDb]
  exact processEvent_of_stored_key hIncoming hRow rfl

theorem sameContent_withoutContent {db db' : Database} {row : EventRow} :
    (stored db row none db.derived []).SameContent db' ↔ db.SameContent db' := by
  have hContent : (stored db row none db.derived []).content = db.content := by
    simp [stored, freshContent]
  have hDelete : (stored db row none db.derived []).contentDelete = db.contentDelete := by
    simp [stored, freshContent]
  exact ⟨fun h => ⟨hContent ▸ h.content, hDelete ▸ h.contentDelete, h.derived⟩,
    fun h => ⟨hContent.trans h.content, hDelete.trans h.contentDelete, h.derived⟩⟩

/-- A copy that the database refuses only fills the caches, and they answer the full
bundle as before. -/
theorem processEvent_after_refused (hIncoming : incomingEvent P bundle = some incoming)
    (hAllowed : (isBanned server incoming.key.identity).1 = false)
    (hAuthorised : (incoming.authorize P server.db server.proofCache).1 = .ok ())
    (hRefused : runtime.refuses (incoming.row runtime now id) none = true) {later : Int}
    {laterId : Nat} :
    (processEvent P runtime later laterId
        (processEvent P runtime now id server (withoutContent bundle)).2 bundle).2.db =
      (processEvent P runtime later laterId server bundle).2.db := by
  have hError : addEvent runtime now server.db (incoming.row runtime now id) none =
      .error internalError := by
    simp [addEvent, derivedAfter, tombstonesOf, ensure, hRefused, bind, Except.bind]
  have hFirst : (processEvent P runtime now id server (withoutContent bundle)).2 =
      { (isBanned server incoming.key.identity).2 with
        proofCache := (incoming.authorize P server.db server.proofCache).2 } := by
    rw [processEvent_of_authorised (incomingEvent_withoutContent hIncoming) hAllowed hAuthorised]
    change (match addEvent runtime now server.db (incoming.row runtime now id) none with
      | .ok (true, _) => _
      | _ => _) = _
    rw [hError]
    rfl
  have hDb := (isBanned_frame server incoming.key.identity).1
  rw [hFirst, processEvent_db hIncoming hAllowed hAuthorised, processEvent_db hIncoming]
  · dsimp only
    rw [hDb]
  · rw [isBanned_again, hAllowed]
  · dsimp only
    rw [hDb]
    exact authorize_again hAuthorised

end LateContent

/-- The full bundle makes up for the copy that arrived without content exactly if
the identity is banned, the event was stored before, the copy or the full bundle
is not accepted, or the full bundle brings nothing new. In every other case its
content and its derived rows are lost. -/
theorem late_content_kept_iff {P : Primitives} {runtime : Runtime} {server : ServiceContext}
    {bundle : EventBundle} {incoming : IncomingEvent} (now later : Int) (id₁ id₂ : Nat)
    (hIncoming : incomingEvent P bundle = some incoming)
    (hAuthorised : (incoming.authorize P server.db server.proofCache).1 = .ok ()) :
    (processEvent P runtime later id₂
        (processEvent P runtime now id₁ server (withoutContent bundle)).2 bundle).2.db.SameContent
      (processEvent P runtime later id₂ server bundle).2.db ↔
      (isBanned server incoming.key.identity).1 = true ∨ ¬server.db.NewKey incoming ∨
        runtime.refuses (incoming.row runtime now id₁) none = true ∨
        ¬(incoming.addStep runtime later id₂).Storable runtime server.db ∨
        (incoming.addStep runtime later id₂).BringsNothing server.db := by
  have hFirst := incomingEvent_withoutContent hIncoming
  cases hAllowed : (isBanned server incoming.key.identity).1 with
  | true =>
      have hFirstServer : (processEvent P runtime now id₁ server (withoutContent bundle)).2 =
          (isBanned server incoming.key.identity).2 := by
        rw [processEvent_of_banned hFirst hAllowed]
      have hAgain := (isBanned_again server incoming.key.identity
        (isBanned server incoming.key.identity).2.proofCache).trans hAllowed
      rw [hFirstServer, processEvent_of_banned hIncoming hAllowed,
        processEvent_of_banned hIncoming hAgain, (isBanned_frame _ _).1]
      exact iff_of_true ⟨rfl, rfl, rfl⟩ (Or.inl rfl)
  | false =>
      rw [or_iff_right Bool.false_ne_true]
      by_cases hNew : server.db.NewKey incoming
      · cases hRefused : runtime.refuses (incoming.row runtime now id₁) none with
        | true =>
            rw [processEvent_after_refused hIncoming hAllowed hAuthorised hRefused]
            exact iff_of_true ⟨rfl, rfl, rfl⟩ (Or.inr (Or.inl rfl))
        | false =>
            have hSecondDb : (processEvent P runtime later id₂
                (processEvent P runtime now id₁ server (withoutContent bundle)).2 bundle).2.db =
                stored server.db (incoming.row runtime now id₁) none server.db.derived [] :=
              processEvent_after_copy hIncoming hAllowed hAuthorised hNew hRefused
            rw [hSecondDb, sameContent_withoutContent,
              processEvent_db hIncoming hAllowed hAuthorised]
            have hAlone : server.db.SameContent
                ((incoming.addStep runtime later id₂).run runtime server.db) ↔
                ¬(incoming.addStep runtime later id₂).Storable runtime server.db ∨
                  (incoming.addStep runtime later id₂).BringsNothing server.db :=
              AddStep.sameContent_run_iff hNew
            simp [hNew, hAlone]
      · have hStored : ∃ row ∈ server.db.event, row.key = .of incoming.key incoming.signedBy := by
          simpa [Database.NewKey] using hNew
        obtain ⟨row, hRow, hKey⟩ := hStored
        have hFirstDb : (processEvent P runtime now id₁ server (withoutContent bundle)).2.db =
            server.db := processEvent_of_stored_key hFirst hRow hKey
        rw [processEvent_of_stored_key hIncoming hRow hKey,
          processEvent_of_stored_key hIncoming (hFirstDb ▸ hRow) hKey, hFirstDb]
        exact iff_of_true ⟨rfl, rfl, rfl⟩ (Or.inl hNew)

/-- The post is stored with its content: both of its copies change nothing. -/
theorem late_content_kept_stored :
    let server := (processEvent labelPrimitives TableInstance.runtime 0 3 aliceServer
      (arrival 3 (key 2)).bundle).2
    (processEvent labelPrimitives TableInstance.runtime 2 5
        (processEvent labelPrimitives TableInstance.runtime 1 4 server
          (withoutContent (arrival 3 (key 2)).bundle)).2 (arrival 3 (key 2)).bundle).2.db.SameContent
      (processEvent labelPrimitives TableInstance.runtime 2 5 server
        (arrival 3 (key 2)).bundle).2.db :=
  (late_content_kept_iff 1 2 4 5 incomingEvent_post (by decide +kernel)).mpr
    (Or.inr (Or.inl (by decide +kernel)))

/-- The post arrives without its content first: its text and its tally are lost. -/
theorem late_content_lost_post :
    incomingEvent labelPrimitives (arrival 3 (key 2)).bundle = some postIncoming ∧
      (postIncoming.authorize labelPrimitives aliceServer.db aliceServer.proofCache).1 = .ok () ∧
      ¬(processEvent labelPrimitives TableInstance.runtime 1 4
          (processEvent labelPrimitives TableInstance.runtime 0 3 aliceServer
            (withoutContent (arrival 3 (key 2)).bundle)).2
          (arrival 3 (key 2)).bundle).2.db.SameContent
        (processEvent labelPrimitives TableInstance.runtime 1 4 aliceServer
          (arrival 3 (key 2)).bundle).2.db := by
  refine ⟨incomingEvent_post, by decide +kernel, fun hSame => ?_⟩
  exact absurd hSame.content (by decide +kernel)

end Polycentric.Server
