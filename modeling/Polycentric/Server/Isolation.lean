import Polycentric.Server.Acknowledgement

/-! Whether the bundles of a request are processed in isolation. The query builders
hand lists of values to `from_values`, which aborts on an empty one: then the
request has no response, and its transaction is dropped. -/
namespace Polycentric.Server

open Proto Result Memo Runs

variable (P : Primitives) (runtime : Runtime)

/-! ### The lists of values -/

def fromValuesAborts (values : List String) : Bool := values.isEmpty

/-- Only links to a URL that is not empty are indexed. -/
def attributedUrl (attributedTo : AttributedTo) : Option String :=
  attributedTo.linkUrl.filter fun url => !url.isEmpty

/-- The lists that `save_content_body_query` hands to `from_values`. A key that is
missing is an error before that. -/
def valueLists (body : ContentBody) : List (List String) :=
  match body with
  | .post post =>
      if post.attributedTo.isEmpty then [] else [post.attributedTo.filterMap attributedUrl]
  | .labels eventKey labelValues =>
      if (splitEventKey eventKey "labels content").isOk then [labelValues] else []
  | .verificationTarget claim targetIdentities =>
      if (splitEventKey claim "verification target").isOk && !targetIdentities.isEmpty then
        [targetIdentities]
      else []
  | _ => []

def queryAborts (body : ContentBody) : Bool := (valueLists body).any fromValuesAborts

/-- The query for the cache tables is built first: its error is returned before the
query for the content is reached. -/
def addEventAborts (now : Int) (db : Database) (row : EventRow) (decoded : Option DecodedContent) :
    Bool :=
  (derivedAfter runtime now db row (decoded.map DecodedContent.content)).isOk &&
    (decoded.bind fun d => d.content.contentBody).any queryAborts

/-! ### Requests -/

/-- What is left of the service if processing the bundle aborts. -/
def abortsWith (now : Int) (id : Nat) (server : ServiceContext) (bundle : EventBundle) :
    Option ServiceContext :=
  match incomingEvent P bundle with
  | none => none
  | some incoming =>
      match isBanned server incoming.key.identity with
      | (true, _) => none
      | (false, server) =>
          match incoming.authorize P server.db server.proofCache with
          | (.error _, _) => none
          | (.ok (), cache) =>
              if addEventAborts runtime now server.db (incoming.row runtime now id) incoming.decoded then
                some { server with proofCache := cache }
              else none

/-- One round of the loop, or what is left of the service. -/
def handleBundleOrAbort (progress : Progress) (arrival : Arrival × Nat) :
    Except ServiceContext Progress :=
  match abortsWith P runtime arrival.1.now arrival.1.id progress.server arrival.1.bundle with
  | some left => .error left
  | none => .ok (handleBundle P runtime progress arrival)

/-- Ingest a batch of signed events. There is no response if a bundle aborts. -/
def handleOrAbort (server : ServiceContext) (request : List Arrival) :
    Except ServiceContext Progress :=
  request.zipIdx.foldlM (handleBundleOrAbort P runtime) ⟨[], [], { server with bannedCache := [] }⟩

/-! ### Isolation -/

/-- The bundles of a request, sent one by one. -/
structure Sent where
  errors : List PutEventError
  server : ServiceContext

/-- The next bundle, alone in a request of its own. What is reported of it stands
under the index that it has among all of them. -/
def sendAlone (sent : Sent) (arrival : Arrival × Nat) : Sent :=
  match handleOrAbort P runtime sent.server [arrival.1] with
  | .ok progress =>
      { errors := sent.errors ++
          progress.errors.map fun error => { error with eventBundleIndex := UInt32.ofNat arrival.2 }
        server := progress.server }
  | .error left => { sent with server := left }

def oneByOne (server : ServiceContext) (request : List Arrival) : Sent :=
  request.zipIdx.foldl (sendAlone P runtime) ⟨[], server⟩

/-- There is a response, and every bundle is stored or reported as if it were sent
alone after the bundles before it. -/
def Isolated (server : ServiceContext) (request : List Arrival) : Prop :=
  ∃ progress, handleOrAbort P runtime server request = .ok progress ∧
    progress.errors = (oneByOne P runtime server request).errors ∧
    progress.server.db = (oneByOne P runtime server request).server.db

/-! ### Degenerate contents -/

def HasSigner (key : Option EventKey) : Prop := ∀ k, key = some k → k.signedBy ≠ none

/-- Labels without a value, and a post that is attributed, but to no URL. -/
inductive Degenerate : ContentBody → Prop where
  | labels (eventKey : EventKey) (hSigner : eventKey.signedBy ≠ none) :
      Degenerate (.labels (some eventKey) [])
  | post (post : Post) (hAttributed : post.attributedTo ≠ [])
      (hUrls : ∀ attributedTo ∈ post.attributedTo, attributedUrl attributedTo = none)
      (hQuote : HasSigner post.quote) (hParent : HasSigner (post.reply.bind PostReply.parent)) :
      Degenerate (.post post)

/-- The event of the bundle passes every check, and its content is degenerate. -/
def DegenerateAccepted (db : Database) (cache : ProofCache) (bundle : EventBundle) : Prop :=
  ∃ incoming body, incomingEvent P bundle = some incoming ∧
    db.ban.contains incoming.key.identity = false ∧
    (incoming.authorize P db cache).1 = .ok () ∧
    incoming.body = some body ∧ Degenerate body

section Queries

variable {runtime} {db : Database} {now : Int} {row : EventRow} {decoded : Option DecodedContent}

/-- A reference splits if it is there and names its signer. -/
theorem splitEventKey_isOk_iff {key : Option EventKey} {subject : String} :
    (splitEventKey key subject).isOk = true ↔ ∃ k, key = some k ∧ k.signedBy ≠ none := by
  simp only [isOk_iff, splitEventKey, bind_eq_ok_iff, okOr_eq_ok_iff, pure, Except.pure]
  constructor
  · rintro ⟨parts, k, hKey, signer, hSigner, -⟩
    exact ⟨k, hKey, by simp [hSigner]⟩
  · rintro ⟨k, hKey, hSigner⟩
    obtain ⟨signer, hSome⟩ := Option.ne_none_iff_exists'.mp hSigner
    exact ⟨_, k, hKey, signer, hSome, rfl⟩

/-- The insert of labels aborts on an empty list, once the reference has split. -/
theorem queryAborts_labels {eventKey : Option EventKey} {labelValues : List String} :
    queryAborts (.labels eventKey labelValues) = true ↔
      (∃ k, eventKey = some k ∧ k.signedBy ≠ none) ∧ labelValues = [] := by
  rw [← @splitEventKey_isOk_iff eventKey "labels content"]
  unfold queryAborts valueLists
  split <;> simp_all [fromValuesAborts]

/-- The insert of links aborts if there are attributions and none of them has a URL. -/
theorem queryAborts_post {post : Post} :
    queryAborts (.post post) = true ↔ post.attributedTo ≠ [] ∧
      ∀ attributedTo ∈ post.attributedTo, attributedUrl attributedTo = none := by
  unfold queryAborts valueLists
  split <;> simp_all [fromValuesAborts]

/-- The list of targets is looked at before it is handed on. -/
theorem queryAborts_verificationTarget {claim : Option EventKey} {targetIdentities : List String} :
    queryAborts (.verificationTarget claim targetIdentities) = false := by
  unfold queryAborts valueLists
  split <;> simp_all [fromValuesAborts]

theorem optionalReferenceRows_isOk_iff {key : Option EventKey} {subject : String} {id : Nat}
    {identity : String} :
    (optionalReferenceRows db id identity key subject).isOk = true ↔ HasSigner key := by
  cases key with
  | none => simp [optionalReferenceRows, HasSigner, Except.isOk, Except.toBool]
  | some k =>
      have hSplit := @splitEventKey_isOk_iff (some k) subject
      rw [isOk_iff] at hSplit ⊢
      simp only [optionalReferenceRows, referenceRows, bind_eq_ok_iff, pure, Except.pure,
        Except.ok.injEq]
      simp only [HasSigner, Option.some.injEq, exists_eq_left', forall_eq'] at hSplit ⊢
      rw [← hSplit]
      constructor
      · rintro ⟨_, parts, hParts, -⟩
        exact ⟨parts, hParts⟩
      · rintro ⟨parts, hParts⟩
        exact ⟨_, parts, hParts, rfl⟩

theorem postQuery_isOk_iff {id : Nat} {identity : String} {post : Post} :
    (postQuery runtime now db id identity post).isOk = true ↔
      HasSigner post.quote ∧ HasSigner (post.reply.bind PostReply.parent) := by
  rw [← @optionalReferenceRows_isOk_iff db post.quote "quote" id identity,
    ← @optionalReferenceRows_isOk_iff db (post.reply.bind PostReply.parent) "reply" id identity]
  simp only [isOk_iff, postQuery, bind_eq_ok_iff, pure, Except.pure, Except.ok.injEq]
  constructor
  · rintro ⟨_, quotes, hQuotes, replies, hReplies, -⟩
    exact ⟨⟨quotes, hQuotes⟩, ⟨replies, hReplies⟩⟩
  · rintro ⟨⟨quotes, hQuotes⟩, ⟨replies, hReplies⟩⟩
    exact ⟨_, quotes, hQuotes, replies, hReplies, rfl⟩

theorem mapError_isOk {x : Except Status DerivedTables} {f : Status → Status} :
    (x.mapError f).isOk = x.isOk := by
  cases x <;> rfl

/-- Only two of the builders can abort. -/
theorem queryAborts_cases {body : ContentBody} (h : queryAborts body = true) :
    (∃ post, body = .post post) ∨ ∃ eventKey labelValues, body = .labels eventKey labelValues := by
  cases body with
  | post post => exact Or.inl ⟨post, rfl⟩
  | labels eventKey labelValues => exact Or.inr ⟨eventKey, labelValues, rfl⟩
  | verificationTarget claim targetIdentities =>
      rw [queryAborts_verificationTarget] at h
      cases h
  | _ => cases h

/-- The rows of a post can be written if its references name their signers. -/
theorem derivedAfter_post_isOk_iff {content : Option Content} {post : Post}
    (h : content.bind Content.contentBody = some (.post post)) :
    (derivedAfter runtime now db row content).isOk = true ↔
      HasSigner post.quote ∧ HasSigner (post.reply.bind PostReply.parent) := by
  have hAuthorised : eventIsAuthorised row.key.identity content = true := by
    rw [eventIsAuthorised, h]
  simp only [derivedAfter, h, hAuthorised, if_true, mapError_isOk]
  exact postQuery_isOk_iff

/-- Labels update no derived table, so nothing of that can fail. -/
theorem derivedAfter_labels_isOk {content : Option Content} {eventKey : Option EventKey}
    {labelValues : List String} (h : content.bind Content.contentBody = some (.labels eventKey labelValues)) :
    (derivedAfter runtime now db row content).isOk = true := by
  have hAuthorised : eventIsAuthorised row.key.identity content = true := by
    rw [eventIsAuthorised, h]
  simp only [derivedAfter, h, hAuthorised, if_true, mapError_isOk]
  rfl

/-- Storing an event aborts exactly for a degenerate content, whatever is stored. -/
theorem addEventAborts_iff :
    addEventAborts runtime now db row decoded = true ↔
      ∃ body, (decoded.bind fun d => d.content.contentBody) = some body ∧ Degenerate body := by
  have hContent := map_content_bind_contentBody decoded
  rw [addEventAborts, Bool.and_eq_true, Option.any_eq_true]
  constructor
  · rintro ⟨hCache, body, hBody, hQuery⟩
    rw [hBody] at hContent
    obtain ⟨post, rfl⟩ | ⟨eventKey, labelValues, rfl⟩ := queryAborts_cases hQuery
    · obtain ⟨hQuote, hParent⟩ := (derivedAfter_post_isOk_iff hContent).mp hCache
      obtain ⟨hAttributed, hUrls⟩ := queryAborts_post.mp hQuery
      exact ⟨_, hBody, .post post hAttributed hUrls hQuote hParent⟩
    · obtain ⟨⟨k, rfl, hSigner⟩, rfl⟩ := queryAborts_labels.mp hQuery
      exact ⟨_, hBody, .labels k hSigner⟩
  · rintro ⟨body, hBody, hDegenerate⟩
    rw [hBody] at hContent
    cases hDegenerate with
    | labels eventKey hSigner =>
        exact ⟨derivedAfter_labels_isOk hContent,
          _, hBody, queryAborts_labels.mpr ⟨⟨eventKey, rfl, hSigner⟩, rfl⟩⟩
    | post post hAttributed hUrls hQuote hParent =>
        exact ⟨(derivedAfter_post_isOk_iff hContent).mpr ⟨hQuote, hParent⟩,
          _, hBody, queryAborts_post.mpr ⟨hAttributed, hUrls⟩⟩

end Queries

/-! ### One bundle -/

section Bundle

variable {P} {runtime} {server : ServiceContext} {bundle : EventBundle} {now : Int} {id : Nat}

/-- The ban cache of the request says what the database says. -/
def ServiceContext.BansCoherent (server : ServiceContext) : Prop :=
  server.bannedCache.Coherent fun identity banned => banned = server.db.ban.contains identity

/-- The same verdict, with the same tables and the same proof cache. -/
structure Agrees {α : Type} (left right : α × ServiceContext) : Prop where
  verdict : left.1 = right.1
  db : left.2.db = right.2.db
  proofCache : left.2.proofCache = right.2.proofCache

/-- A coherent cache answers what the table says. -/
theorem isBanned_eq (h : server.BansCoherent) (identity : String) :
    (isBanned server identity).1 = server.db.ban.contains identity := by
  unfold isBanned
  split
  · next hCached => exact h _ _ hCached
  · rfl

/-- Servers that differ in their ban caches only answer alike. -/
theorem isBanned_agrees {server' : ServiceContext} (h : server.BansCoherent) (h' : server'.BansCoherent)
    (hDb : server.db = server'.db) (hCache : server.proofCache = server'.proofCache) (identity : String) :
    Agrees (isBanned server identity) (isBanned server' identity) where
  verdict := by rw [isBanned_eq h, isBanned_eq h', hDb]
  db := by rw [(isBanned_frame server identity).1, (isBanned_frame server' identity).1, hDb]
  proofCache := by rw [(isBanned_frame server identity).2, (isBanned_frame server' identity).2, hCache]

/-- A lookup leaves the cache coherent. -/
theorem isBanned_coherent (h : server.BansCoherent) (identity : String) :
    (isBanned server identity).2.BansCoherent := by
  unfold isBanned
  split
  · exact h
  · exact Table.Coherent.insert h rfl

theorem storeEvent_bannedCache {incoming : IncomingEvent} :
    (storeEvent P runtime now id server incoming).2.bannedCache = server.bannedCache := by
  unfold storeEvent
  split
  · rfl
  · split <;> rfl

/-- Storing does not look at the ban cache. -/
theorem storeEvent_agrees {server' : ServiceContext} {incoming : IncomingEvent}
    (hDb : server.db = server'.db) (hCache : server.proofCache = server'.proofCache) :
    Agrees (storeEvent P runtime now id server incoming) (storeEvent P runtime now id server' incoming) := by
  unfold storeEvent
  rw [hDb, hCache]
  split
  · exact ⟨rfl, rfl, rfl⟩
  · split <;> exact ⟨rfl, rfl, rfl⟩

/-- A bundle does not change the bans. -/
theorem processEvent_ban :
    (processEvent P runtime now id server bundle).2.db.ban = server.db.ban := by
  have hOutcome := processEvent_outcome P runtime now id server bundle
  generalize (processEvent P runtime now id server bundle).2.db = db',
    (processEvent P runtime now id server bundle).2.proofCache = cache' at hOutcome ⊢
  cases hOutcome with
  | rejected => rfl
  | checked => rfl
  | stored _ _ _ _ hAdded =>
      obtain ⟨derived, tombstones, -, -, -, ⟨-, -, rfl⟩ | ⟨-, -, rfl⟩⟩ := addEvent_eq_ok_iff.mp hAdded
      · rfl
      · rfl

/-- A degenerate event is accepted if its identity is not banned and it is authorised. -/
theorem degenerateAccepted_iff {db : Database} {cache : ProofCache} {incoming : IncomingEvent}
    (h : incomingEvent P bundle = some incoming) :
    DegenerateAccepted P db cache bundle ↔ db.ban.contains incoming.key.identity = false ∧
      (incoming.authorize P db cache).1 = .ok () ∧
        ∃ body, incoming.body = some body ∧ Degenerate body := by
  constructor
  · rintro ⟨other, body, hOther, hAllowed, hAuthorised, hBody⟩
    obtain rfl : incoming = other := Option.some.inj (h.symm.trans hOther)
    exact ⟨hAllowed, hAuthorised, body, hBody⟩
  · rintro ⟨hAllowed, hAuthorised, body, hBody⟩
    exact ⟨incoming, body, h, hAllowed, hAuthorised, hBody⟩

/-- A bundle that aborts passes every check, and its content is degenerate. -/
theorem abortsWith_isSome_iff (h : server.BansCoherent) :
    (abortsWith P runtime now id server bundle).isSome = true ↔
      DegenerateAccepted P server.db server.proofCache bundle := by
  unfold abortsWith
  cases hIncoming : incomingEvent P bundle with
  | none => simp [DegenerateAccepted, hIncoming]
  | some incoming =>
      have hBan := isBanned_eq h incoming.key.identity
      obtain ⟨hDb, hCache⟩ := isBanned_frame server incoming.key.identity
      rw [degenerateAccepted_iff hIncoming]
      dsimp only
      cases hBanned : isBanned server incoming.key.identity with
      | mk banned server' =>
          rw [hBanned] at hBan hDb hCache
          rw [← hBan, ← hDb, ← hCache]
          cases banned with
          | true => simp
          | false =>
              dsimp only
              cases hAuthorize : incoming.authorize P server'.db server'.proofCache with
              | mk verdict cache =>
                  cases verdict with
                  | error status => simp
                  | ok _ =>
                      have hIff := @addEventAborts_iff runtime server'.db now
                        (incoming.row runtime now id) incoming.decoded
                      rw [IncomingEvent.body, ← hIff]
                      dsimp only
                      split <;> simp_all

/-- The verdict on a bundle and what it leaves in the tables and in the proof cache
do not depend on the ban cache. -/
theorem processEvent_agrees {server' : ServiceContext} (h : server.BansCoherent) (h' : server'.BansCoherent)
    (hDb : server.db = server'.db) (hCache : server.proofCache = server'.proofCache) :
    Agrees (processEvent P runtime now id server bundle) (processEvent P runtime now id server' bundle) := by
  unfold processEvent
  cases openBundle P bundle with
  | error status => exact ⟨rfl, hDb, hCache⟩
  | ok parts =>
      obtain ⟨signed, event, key⟩ := parts
      have hBanned := isBanned_agrees h h' hDb hCache key.identity
      dsimp only
      generalize isBanned server key.identity = left, isBanned server' key.identity = right at hBanned ⊢
      obtain ⟨banned, left⟩ := left
      obtain ⟨banned', right⟩ := right
      obtain rfl : banned = banned' := hBanned.verdict
      cases banned with
      | true => exact ⟨rfl, hBanned.db, hBanned.proofCache⟩
      | false =>
          dsimp only
          cases checkEvent P bundle signed event key with
          | error status => exact ⟨rfl, hBanned.db, hBanned.proofCache⟩
          | ok incoming =>
              have hStored := @storeEvent_agrees P runtime left now id right incoming hBanned.db
                hBanned.proofCache
              dsimp only
              generalize storeEvent P runtime now id left incoming = stored,
                storeEvent P runtime now id right incoming = stored' at hStored ⊢
              obtain ⟨verdict, stored⟩ := stored
              obtain ⟨verdict', stored'⟩ := stored'
              obtain rfl : verdict = verdict' := hStored.verdict
              cases verdict with
              | error status => exact ⟨rfl, hStored.db, hStored.proofCache⟩
              | ok _ => exact ⟨rfl, hStored.db, hStored.proofCache⟩

theorem processEvent_bannedCache :
    (processEvent P runtime now id server bundle).2.bannedCache = server.bannedCache ∨
      ∃ identity, (processEvent P runtime now id server bundle).2.bannedCache =
        (isBanned server identity).2.bannedCache := by
  unfold processEvent
  cases openBundle P bundle with
  | error status => exact Or.inl rfl
  | ok parts =>
      obtain ⟨signed, event, key⟩ := parts
      refine Or.inr ⟨key.identity, ?_⟩
      dsimp only
      cases isBanned server key.identity with
      | mk banned server' =>
          cases banned with
          | true => rfl
          | false =>
              dsimp only
              cases checkEvent P bundle signed event key with
              | error status => rfl
              | ok incoming =>
                  have hFrame := @storeEvent_bannedCache P runtime server' now id incoming
                  dsimp only
                  cases hStore : storeEvent P runtime now id server' incoming with
                  | mk result left =>
                      rw [hStore] at hFrame
                      cases result with
                      | error status => exact hFrame
                      | ok _ => exact hFrame

/-- A bundle leaves the cache coherent, whatever becomes of it. -/
theorem processEvent_coherent (h : server.BansCoherent) :
    (processEvent P runtime now id server bundle).2.BansCoherent := by
  unfold ServiceContext.BansCoherent
  rw [processEvent_ban]
  obtain hSame | ⟨identity, hSame⟩ := @processEvent_bannedCache P runtime server bundle now id
  · rw [hSame]
    exact h
  · rw [hSame]
    have hNext := isBanned_coherent h identity
    rwa [ServiceContext.BansCoherent, (isBanned_frame server identity).1] at hNext

end Bundle

/-! ### Whole requests -/

section Request

variable {P} {runtime} {server : ServiceContext} {request : List Arrival}

/-- The error of a bundle under its index. -/
def reported (result : Except Status (List Blob)) (index : Nat) : List PutEventError :=
  match result with
  | .ok _ => []
  | .error status => [⟨UInt32.ofNat index, status⟩]

/-- A bundle adds its own error and no other. -/
theorem handleBundle_errors {progress : Progress} {arrival : Arrival} {index : Nat} :
    (handleBundle P runtime progress (arrival, index)).errors = progress.errors ++
      reported (processEvent P runtime arrival.now arrival.id progress.server arrival.bundle).1 index := by
  unfold handleBundle reported
  split <;> simp_all

/-- A bundle leaves the server that it would leave as a request of its own. -/
theorem handleBundle_server {progress : Progress} {arrival : Arrival} {index : Nat} :
    (handleBundle P runtime progress (arrival, index)).server =
      step P runtime progress.server (.bundle arrival) := by
  unfold handleBundle step
  split <;> simp_all

/-- The next bundle of a request. -/
def nextBundle (P : Primitives) (runtime : Runtime) (server : ServiceContext) (arrival : Arrival) :
    ServiceContext :=
  step P runtime server (.bundle arrival)

/-- A request has a response exactly if none of its bundles aborts, and the response
is the one of the loop. -/
theorem foldlM_handleBundleOrAbort {n : Nat} {progress progress' : Progress} :
    (request.zipIdx n).foldlM (handleBundleOrAbort P runtime) progress = .ok progress' ↔
      Along (nextBundle P runtime) (fun server arrival =>
          (abortsWith P runtime arrival.now arrival.id server arrival.bundle).isSome = false)
        progress.server request ∧
        (request.zipIdx n).foldl (handleBundle P runtime) progress = progress' := by
  induction request generalizing n progress with
  | nil => simp [Along, pure, Except.pure]
  | cons arrival rest ih =>
      rw [List.zipIdx_cons, List.foldlM_cons, List.foldl_cons, bind_eq_ok_iff]
      cases hAbort : abortsWith P runtime arrival.now arrival.id progress.server arrival.bundle with
      | some left => simp [handleBundleOrAbort, Along, hAbort]
      | none =>
          have hRest := @ih (n + 1) (handleBundle P runtime progress (arrival, n))
          rw [handleBundle_server] at hRest
          simp only [handleBundleOrAbort, hAbort, Except.ok.injEq, exists_eq_left', hRest, Along]
          exact and_congr_left fun _ => (and_iff_right rfl).symm

/-- The bundles that may not be accepted, along a request. -/
theorem along_abortsWith (h : server.BansCoherent) :
    Along (nextBundle P runtime) (fun server arrival =>
        (abortsWith P runtime arrival.now arrival.id server arrival.bundle).isSome = false) server request ↔
      Along (nextBundle P runtime) (fun server arrival =>
        ¬DegenerateAccepted P server.db server.proofCache arrival.bundle) server request := by
  have hIff : ∀ {server : ServiceContext} {arrival : Arrival}, server.BansCoherent → True →
      ((abortsWith P runtime arrival.now arrival.id server arrival.bundle).isSome = false ↔
        ¬DegenerateAccepted P server.db server.proofCache arrival.bundle) := by
    intro server arrival hServer _
    rw [← abortsWith_isSome_iff hServer, Bool.not_eq_true]
  exact along_congr (fun hServer _ => processEvent_coherent hServer) hIff h (along_true _ _)

/-- A bundle alone in its request, if it does not abort. -/
theorem sendAlone_eq {sent : Sent} {arrival : Arrival} {index : Nat}
    (h : ¬DegenerateAccepted P sent.server.db sent.server.proofCache arrival.bundle) :
    let fresh : ServiceContext := { sent.server with bannedCache := [] }
    sendAlone P runtime sent (arrival, index) =
      ⟨sent.errors ++
          reported (processEvent P runtime arrival.now arrival.id fresh arrival.bundle).1 index,
        nextBundle P runtime fresh arrival⟩ := by
  intro fresh
  have hFresh : fresh.BansCoherent := Table.coherent_nil
  have hAlong : Along (nextBundle P runtime) (fun server arrival =>
      ¬DegenerateAccepted P server.db server.proofCache arrival.bundle) fresh [arrival] := ⟨h, trivial⟩
  have hReply : handleOrAbort P runtime sent.server [arrival] =
      .ok (handleBundle P runtime ⟨[], [], fresh⟩ (arrival, 0)) :=
    foldlM_handleBundleOrAbort.mpr ⟨(along_abortsWith hFresh).mpr hAlong, rfl⟩
  rw [sendAlone, hReply]
  dsimp only
  rw [handleBundle_errors, handleBundle_server]
  cases (processEvent P runtime arrival.now arrival.id fresh arrival.bundle).1 <;> rfl

/-- A request whose bundles do not abort is answered as if they were sent alone. -/
theorem foldl_sendAlone {n : Nat} {progress : Progress} {sent : Sent}
    (hServer : progress.server.BansCoherent) (hErrors : progress.errors = sent.errors)
    (hDb : progress.server.db = sent.server.db) (hCache : progress.server.proofCache = sent.server.proofCache)
    (hAlong : Along (nextBundle P runtime) (fun server arrival =>
      ¬DegenerateAccepted P server.db server.proofCache arrival.bundle) progress.server request) :
    ((request.zipIdx n).foldl (handleBundle P runtime) progress).errors =
        ((request.zipIdx n).foldl (sendAlone P runtime) sent).errors ∧
      ((request.zipIdx n).foldl (handleBundle P runtime) progress).server.db =
        ((request.zipIdx n).foldl (sendAlone P runtime) sent).server.db := by
  induction request generalizing n progress sent with
  | nil => exact ⟨hErrors, hDb⟩
  | cons arrival rest ih =>
      have hAccepted : ¬DegenerateAccepted P progress.server.db progress.server.proofCache arrival.bundle :=
        hAlong.1
      rw [hDb, hCache] at hAccepted
      obtain ⟨hResult, hNextDb, hNextCache⟩ := @processEvent_agrees P runtime progress.server
        arrival.bundle arrival.now arrival.id { sent.server with bannedCache := [] } hServer
        Table.coherent_nil hDb hCache
      rw [List.zipIdx_cons, List.foldl_cons, List.foldl_cons, sendAlone_eq hAccepted]
      apply ih
      · rw [handleBundle_server]
        exact processEvent_coherent hServer
      · rw [handleBundle_errors, hErrors, hResult]
      · rw [handleBundle_server]
        exact hNextDb
      · rw [handleBundle_server]
        exact hNextCache
      · rw [handleBundle_server]
        exact hAlong.2

end Request

/-- The bundles of a request are processed in isolation exactly if none that passes
the checks, in the state that it meets, has a degenerate content. -/
theorem isolated_iff (server : ServiceContext) (request : List Arrival) :
    Isolated P runtime server request ↔
      Along (fun server arrival => step P runtime server (.bundle arrival))
        (fun server arrival => ¬DegenerateAccepted P server.db server.proofCache arrival.bundle)
        (step P runtime server .request) request := by
  have hStart : (step P runtime server .request).BansCoherent := Table.coherent_nil
  constructor
  · rintro ⟨progress, hReply, -⟩
    exact (along_abortsWith hStart).mp (foldlM_handleBundleOrAbort.mp hReply).1
  · intro hAlong
    obtain ⟨hErrors, hDb⟩ := @foldl_sendAlone P runtime request 0
      ⟨[], [], step P runtime server .request⟩ ⟨[], server⟩ hStart rfl rfl rfl hAlong
    exact ⟨_, foldlM_handleBundleOrAbort.mpr ⟨(along_abortsWith hStart).mpr hAlong, rfl⟩, hErrors, hDb⟩

end Polycentric.Server

namespace Polycentric.TableInstance

open Proto Server Runs

/-- Event `[3]` is Alice's post, and event `[7]` labels it with no value. -/
def emptyLabelsPrimitives : Primitives := primitives
  [([1], event Collections.identity aliceIdentity (key 1) 1 [] [11]),
    ([3], event Collections.feed aliceIdentity (key 2) 1 [0, 1] [13]),
    ([7], event Collections.labels aliceIdentity (key 2) 1 [0, 1] [17])]
  [([11], ⟨some (.identity genesis)⟩), ([13], ⟨some (.post ⟨"hello", none, [], none, []⟩)⟩),
    ([17], ⟨some (.labels (some ⟨Collections.feed, aliceIdentity, some (key 2), 1⟩) [])⟩)]

/-- The server knows Alice's identity. -/
def knowsAlice : ServiceContext :=
  run (step emptyLabelsPrimitives runtime) (start []) [.request, .bundle (arrival 1 (key 1))]

end Polycentric.TableInstance

namespace Polycentric.Server

open TableInstance

/-- The labels have no response, and the post that follows them is not looked at. -/
theorem empty_labels_abort :
    ¬Isolated emptyLabelsPrimitives TableInstance.runtime knowsAlice
      [arrival 7 (key 2), arrival 3 (key 2)] := by
  rintro ⟨progress, hReply, -⟩
  have hNone : (handleOrAbort emptyLabelsPrimitives TableInstance.runtime knowsAlice
      [arrival 7 (key 2), arrival 3 (key 2)]).isOk = false := by decide +kernel
  rw [hReply] at hNone
  cases hNone

end Polycentric.Server
