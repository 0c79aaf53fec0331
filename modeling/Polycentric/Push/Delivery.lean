import Polycentric.Common.ContentId
import Polycentric.Push.Tokens
import Polycentric.Workers.Notifications

/-! The worker of the push service: `main.rs`, `manager.rs` and `render.rs` of
`push-notifications`. With the notification worker before it, it makes up the way of an
event to the devices of those it concerns. -/
namespace Polycentric.Push

open Proto Memo Runs Server Workers

/-! ### `render.rs` -/

/-- The body text of a push, and the deep link that it opens. -/
structure Rendered where
  body : String
  url : Option String
  deriving DecidableEq, Repr

/-- A mention at the front of the text: what it is shown as, and the text after it. -/
def curlyMention : List Char → Option (List Char × List Char)
  | '@' :: '{' :: text =>
      let hex := text.take 64
      if hex.length = 64 ∧ hex.all fun c => (hexValue c).isSome then
        match text.drop 64 with
        | '}' :: after => some ('@' :: hex, after)
        | ',' :: named =>
            let name := named.takeWhile fun c => c ≠ '}'
            match named.dropWhile fun c => c ≠ '}' with
            | _ :: after => some (if name.isEmpty then '@' :: hex else name, after)
            | [] => none
        | _ => none
      else none
  | _ => none

/-- The mentions are replaced from the left, and no character is looked at twice. -/
def replaceMentions : Nat → List Char → List Char
  | 0, text => text
  | _, [] => []
  | fuel + 1, c :: rest =>
      match curlyMention (c :: rest) with
      | some (shown, after) => shown ++ replaceMentions fuel after
      | none => c :: replaceMentions fuel rest

def mentionsToPlainText (text : String) : String :=
  String.ofList (replaceMentions text.length text.toList)

/-- First 8 bytes of a signing key as lowercase hex. -/
def keyFingerprint (signingKey : Bytes) : String := hexEncode (signingKey.take 8)

def postUrl (key : EventKey) : Option String :=
  key.signedBy.map fun signedBy =>
    s!"harbor:///{key.identity}/post/{keyFingerprint signedBy.key}/{key.sequence.toNat}"

def profileUrl (identity : String) : String := s!"harbor:///{identity}"

def claimUrl (claimKey : Option EventKey) : Option String :=
  claimKey.bind fun key => key.signedBy.map fun signedBy =>
    s!"harbor:///{key.identity}/verifications/{keyFingerprint signedBy.key}/{key.sequence.toNat}"

/-- The push for a notification. Reposts and quotes do not push. -/
def render (kind : NotificationKind) (key : EventKey) (content : Content) : Option Rendered :=
  match kind, content.contentBody with
  | .reply, some (.post post) =>
      some ⟨if post.text.isEmpty then "Replied to your post" else s!"Replied: {mentionsToPlainText post.text}",
        postUrl key⟩
  | .follow, _ => some ⟨"Followed you", some (profileUrl key.identity)⟩
  | .reaction, some (.reaction reaction) =>
      some ⟨match reaction.emoji with
        | some emoji => if emoji.isEmpty then "Reacted to your post" else s!"Reacted {emoji} to your post"
        | none => "Reacted to your post",
        reaction.eventKey.bind postUrl⟩
  | .verificationRequest, some (.verificationTarget claimEventKey _) =>
      some ⟨"Requested a verification from you", claimUrl claimEventKey⟩
  | .verificationComplete, some (.verificationVerify claimEventKey) =>
      some ⟨"Completed your verification request", claimUrl claimEventKey⟩
  | _, _ => none

/-! ### One message -/

/-- `NotificationKind::try_from`. -/
def kindOf (kind : Int) : Option NotificationKind :=
  [NotificationKind.follow, .reply, .repost, .reaction, .quote, .verificationRequest,
    .verificationComplete].find? fun known => known.value = kind

/-- A message as the push service reads it: the header, the key, and the payload if it
decodes. -/
structure PushMessage where
  sourceServer : Option String
  key : Option String
  notification : Option (Int × Option EventBundle)
  deriving DecidableEq, Repr

/-- A request to register or to unregister a token. -/
inductive Request where
  | register (signed : SignedMessage) (dbError : Option String)
  | unregister (signed : SignedMessage) (dbError : Option String)

def Request.action : Request → Action
  | .register signed dbError => .register signed dbError
  | .unregister signed dbError => .unregister signed dbError

/-- What the servers, the database and the push service answer while a message is handled,
and the requests that are served before, and while the push waits for its tickets. The
replica is so many versions behind when a key is looked up. -/
structure PushAnswers where
  before : List Request
  authorizedKeys : String → List PublicKey
  lag : PublicKey → Nat
  name : Option String
  avatar : Option ContentDigest
  cdnUrl : Option String
  tokensFail : Bool
  meanwhile : List Request
  tickets : List String → Option (List ExpoPushTicket)
  deleted : Nat

variable (P : Primitives) (codecs : Codecs) (mainServer : String)

/-- What a notification is pushed as, without the profile of its author. -/
structure Pushed where
  rendered : Rendered
  collapseId : String
  deriving DecidableEq, Repr

/-- The push of a notification, unless something of it does not decode or is missing. -/
def toPush (kind : Int) (bundle : Option EventBundle) : Option Pushed := do
  let kind ← kindOf kind
  let bundle ← bundle
  let signed ← bundle.signedEvent
  let event ← (P.decodeEvent signed.eventBytes).toOption
  let key ← event.key
  let serialized ← bundle.serializedContent
  let content ← (P.decodeContent serialized.contentBytes).toOption
  let rendered ← render kind key content
  return ⟨rendered, hexEncode (signed.signature.take 28)⟩

/-- `avatar_rich_content`. -/
def avatarRichContent (answers : PushAnswers) : Option String := do
  let digest ← answers.avatar
  let cdnUrl ← answers.cdnUrl
  return s!"{cdnUrl}/blob/{digest.toId}"

def notificationData (push : Pushed) (answers : PushAnswers) : NotificationData where
  collapseId := push.collapseId
  title := answers.name.getD "Anonymous"
  body := push.rendered.body
  data := push.rendered.url
  richContent := avatarRichContent answers

/-- Requests that are served one after the other. -/
def serve (s : Service) (requests : List Request) : Service :=
  run (Service.step P codecs) s (requests.map Request.action)

/-- The request to the push service. -/
def Service.post (s : Service) (authorizedKeys : List PublicKey) (sent : List (PublicKey × String))
    (notification : NotificationData) : Service :=
  { s with posted := s.posted ++ [⟨authorizedKeys, expoPushRequest sent notification⟩] }

/-- `send_to_identity`. It fails if the tokens cannot be read, if the push service cannot
be reached, or if a dead token cannot be removed. -/
def sendToIdentity (s : Service) (identity : String) (notification : NotificationData)
    (answers : PushAnswers) : Service × Outcome :=
  let authorizedKeys := answers.authorizedKeys identity
  if answers.tokensFail ∧ authorizedKeys ≠ [] then (s, .retry)
  else
    let sent := expoTokens (fun key => s.shown (answers.lag key)) authorizedKeys
    if sent.isEmpty then (s, .commit)
    else
      let waiting := serve P codecs (s.post authorizedKeys sent notification) answers.meanwhile
      match answers.tickets (sent.map Prod.snd) with
      | none => (waiting, .retry)
      | some tickets =>
          (waiting.write (cleanUnregisteredPushTokens waiting.tokens sent tickets answers.deleted),
            if answers.deleted < (deadTokens sent tickets).length then .retry else .commit)

/-- `process`, with what was served before it. -/
def process (s : Service) (message : PushMessage) (answers : PushAnswers) : Service × Outcome :=
  let s := serve P codecs s answers.before
  if message.sourceServer ≠ some mainServer then (s, .commit)
  else
    match message.notification, message.key.filter fun identity => identity ≠ "" with
    | some (kind, bundle), some toIdentity =>
        match toPush P kind bundle with
        | none => (s, .commit)
        | some push => sendToIdentity P codecs s toIdentity (notificationData push answers) answers
    | _, _ => (s, .commit)

/-- A message of the notification worker, as it arrives. -/
def received (message : NotificationMessage) : PushMessage where
  sourceServer := some message.sourceServer
  key := some message.toIdentity
  notification := some (message.kind, some message.triggerEvent)

/-! ### A token that stands -/

variable {P codecs mainServer} {s : Service} {answers : PushAnswers} {requests : List Request}
  {publicKey : PublicKey} {token identity : String}

/-- The request leaves the row of the token alone. -/
def Request.Spares (P : Primitives) (codecs : Codecs) (publicKey : PublicKey) (token : String)
    (request : Request) : Prop :=
  ∀ s, ¬Removes P codecs (tokenKey publicKey) (expo, token) (s, request.action)

/-- The identity has the key, nothing replaces or withdraws the token, and the push service
does not report it as dead. -/
structure Steady (P : Primitives) (codecs : Codecs) (identity : String) (publicKey : PublicKey)
    (token : String) (answers : PushAnswers) : Prop where
  authorized : publicKey ∈ answers.authorizedKeys identity
  before : ∀ request ∈ answers.before, request.Spares P codecs publicKey token
  meanwhile : ∀ request ∈ answers.meanwhile, request.Spares P codecs publicKey token
  alive : ∀ tokens tickets, answers.tickets tokens = some tickets → ∀ pair ∈ tokens.zip tickets,
    pair.1 = token → pair.2.isDead = false

/-- The key has the token, and the replica shows it. -/
structure Holds (publicKey : PublicKey) (token : String) (s : Service) : Prop where
  keyed : Keyed s.tokens
  rows : ∀ table ∈ s.tokens :: s.past, table.get (tokenKey publicKey) = some (expo, token)

theorem Holds.row (h : Holds publicKey token s) :
    s.tokens.get (tokenKey publicKey) = some (expo, token) := h.rows _ List.mem_cons_self

theorem Holds.write (h : Holds publicKey token s) {tokens : Tokens} (hKeyed : Keyed tokens)
    (hRow : tokens.get (tokenKey publicKey) = some (expo, token)) :
    Holds publicKey token (s.write tokens) := by
  refine ⟨hKeyed, fun table hTable => ?_⟩
  rcases List.mem_cons.mp hTable with rfl | hPast
  · exact hRow
  · exact h.rows table hPast

theorem Holds.serve (h : Holds publicKey token s)
    (hSpares : ∀ request ∈ requests, request.Spares P codecs publicKey token) :
    Holds publicKey token (serve P codecs s requests) ∧ s.posted ⊆ (serve P codecs s requests).posted := by
  unfold Push.serve
  induction requests generalizing s with
  | nil => exact ⟨h, List.Subset.refl _⟩
  | cons request rest ih =>
      obtain ⟨hKeyed, hTokens⟩ := @Service.step_tokens P codecs _ h.keyed request.action
      have hRow := (hTokens (tokenKey publicKey) (expo, token)).mpr
        (Or.inr ⟨h.row, hSpares request List.mem_cons_self s⟩)
      have hPosted : (s.step P codecs request.action).posted = s.posted := by
        cases request <;> rfl
      have hNext : Holds publicKey token (s.step P codecs request.action) := by
        refine ⟨hKeyed, fun table hTable => ?_⟩
        rcases List.mem_cons.mp hTable with rfl | hPast
        · exact hRow
        · exact h.rows table (Service.past_step hPast)
      obtain ⟨hHolds, hSubset⟩ := ih hNext fun other hOther =>
        hSpares other (List.mem_cons_of_mem _ hOther)
      exact ⟨hHolds, hPosted ▸ hSubset⟩

/-- Whatever version the replica shows, the token is read. -/
theorem Holds.mem_expoTokens (h : Holds publicKey token s) (lag : PublicKey → Nat)
    {authorizedKeys : List PublicKey} (hKey : publicKey ∈ authorizedKeys) :
    token ∈ (expoTokens (fun key => s.shown (lag key)) authorizedKeys).map Prod.snd := by
  have hSent : (⟨publicKey.keyType.toInt16.toInt32, publicKey.key⟩, token) ∈
      expoTokens (fun key => s.shown (lag key)) authorizedKeys := by
    refine List.mem_filterMap.mpr ⟨publicKey, hKey, ?_⟩
    rw [tokenForPublicKey, h.rows _ (s.shown_mem _)]
    rfl
  exact List.mem_map_of_mem hSent

/-- No ticket reports the token. -/
theorem Steady.not_dead (h : Steady P codecs identity publicKey token answers)
    {sent : List (PublicKey × String)} {tickets : List ExpoPushTicket}
    (hTickets : answers.tickets (sent.map Prod.snd) = some tickets) :
    ¬∃ dead ∈ (deadTokens sent tickets).take answers.deleted,
      tokenKey dead.1 = tokenKey publicKey ∧ (expo, dead.2) = (expo, token) := by
  rintro ⟨dead, hMem, -, hToken⟩
  have hDead := List.mem_of_mem_take hMem
  unfold deadTokens at hDead
  split at hDead
  · cases hDead
  · obtain ⟨pair, hPair, rfl⟩ := List.mem_map.mp hDead
    obtain ⟨hZip, hIsDead⟩ := List.mem_filter.mp hPair
    have hNamed : (pair.1.2, pair.2) ∈ (sent.map Prod.snd).zip tickets := by
      rw [List.zip_map_left]
      exact List.mem_map_of_mem (f := Prod.map Prod.snd id) hZip
    have hAlive := h.alive _ tickets hTickets _ hNamed (Prod.mk.inj hToken).2
    exact absurd (hIsDead.symm.trans hAlive) (by decide)

/-- The notification was posted to the token, and maybe to others. -/
def PostedTo (token : String) (notification : NotificationData) (s : Service) : Prop :=
  ∃ posted ∈ s.posted, ∃ sent, token ∈ sent.map Prod.snd ∧
    posted.request = expoPushRequest sent notification

theorem PostedTo.mono {notification : NotificationData} {s s' : Service}
    (h : PostedTo token notification s) (hPosted : s.posted ⊆ s'.posted) :
    PostedTo token notification s' := by
  obtain ⟨posted, hMem, hRest⟩ := h
  exact ⟨posted, hPosted hMem, hRest⟩

theorem Holds.clean (h : Holds publicKey token s)
    (hSteady : Steady P codecs identity publicKey token answers) {sent : List (PublicKey × String)}
    {tickets : List ExpoPushTicket} (hTickets : answers.tickets (sent.map Prod.snd) = some tickets) :
    Holds publicKey token
      (s.write (cleanUnregisteredPushTokens s.tokens sent tickets answers.deleted)) := by
  apply h.write (h.keyed.cleanUnregisteredPushTokens sent tickets answers.deleted)
  exact (h.keyed.get_cleanUnregisteredPushTokens sent tickets answers.deleted).mpr
    ⟨h.row, hSteady.not_dead hTickets⟩

/-- What sending a push keeps, and what it does if it succeeds. -/
theorem sendToIdentity_spec (h : Holds publicKey token s)
    (hSteady : Steady P codecs identity publicKey token answers) (notification : NotificationData)
    (toIdentity : String) :
    Holds publicKey token (sendToIdentity P codecs s toIdentity notification answers).1 ∧
      s.posted ⊆ (sendToIdentity P codecs s toIdentity notification answers).1.posted ∧
      (toIdentity = identity →
        (sendToIdentity P codecs s toIdentity notification answers).2 = .commit →
          PostedTo token notification (sendToIdentity P codecs s toIdentity notification answers).1) := by
  unfold sendToIdentity
  dsimp only
  split
  · exact ⟨h, List.Subset.refl _, nofun⟩
  · obtain ⟨sent, hSent⟩ : ∃ sent, sent =
        expoTokens (fun key => s.shown (answers.lag key)) (answers.authorizedKeys toIdentity) := ⟨_, rfl⟩
    have hToken : toIdentity = identity → token ∈ sent.map Prod.snd := by
      intro hIdentity
      rw [hSent]
      exact h.mem_expoTokens answers.lag (hIdentity ▸ hSteady.authorized)
    rw [← hSent]
    split
    · next hEmpty =>
        refine ⟨h, List.Subset.refl _, ?_⟩
        intro hIdentity _
        have hMem := hToken hIdentity
        rw [List.isEmpty_iff.mp hEmpty] at hMem
        cases hMem
    · have hPosting : Holds publicKey token
          (s.post (answers.authorizedKeys toIdentity) sent notification) := ⟨h.keyed, h.rows⟩
      obtain ⟨hWaiting, hPosted⟩ := hPosting.serve hSteady.meanwhile
      have hGrows := List.Subset.trans (List.subset_append_left s.posted _) hPosted
      have hPostedTo : toIdentity = identity → PostedTo token notification
          (serve P codecs (s.post (answers.authorizedKeys toIdentity) sent notification)
            answers.meanwhile) := by
        intro hIdentity
        exact ⟨_, hPosted (List.mem_append_right _ List.mem_cons_self), sent, hToken hIdentity, rfl⟩
      split
      · exact ⟨hWaiting, hGrows, nofun⟩
      · next tickets hTickets =>
          exact ⟨hWaiting.clean hSteady hTickets, hGrows, fun hIdentity _ => hPostedTo hIdentity⟩

/-- The push of the message, if it is one of the main server's for the identity. -/
def pushFor (P : Primitives) (mainServer identity : String) (message : PushMessage) : Option Pushed :=
  if message.sourceServer = some mainServer ∧ message.key = some identity then
    message.notification.bind fun notification => toPush P notification.1 notification.2
  else none

/-- What is to be pushed to the identity has been posted to the token, with the profile of
the author as it was when the message was handled. -/
def Delivered (P : Primitives) (mainServer identity token : String)
    (Allowed : PushMessage → PushAnswers → Prop) (message : PushMessage) (s : Service) : Prop :=
  ∀ push, pushFor P mainServer identity message = some push →
    ∃ answers, Allowed message answers ∧ PostedTo token (notificationData push answers) s

/-- What handling a message keeps, and what has been posted once it is done with. -/
theorem process_spec (h : Holds publicKey token s)
    (hSteady : Steady P codecs identity publicKey token answers) (hIdentity : identity ≠ "")
    (message : PushMessage) :
    Holds publicKey token (process P codecs mainServer s message answers).1 ∧
      s.posted ⊆ (process P codecs mainServer s message answers).1.posted ∧
      ((process P codecs mainServer s message answers).2 = .commit →
        ∀ push, pushFor P mainServer identity message = some push →
          PostedTo token (notificationData push answers)
            (process P codecs mainServer s message answers).1) := by
  obtain ⟨hServed, hPosted⟩ := h.serve hSteady.before
  unfold process
  dsimp only
  split
  · next hOther =>
      refine ⟨hServed, hPosted, fun _ push hPush => ?_⟩
      simp [pushFor, hOther] at hPush
  · split
    · next kind bundle toIdentity hNotification hKey =>
        obtain ⟨hKey, -⟩ := Option.filter_eq_some_iff.mp hKey
        have hFor : ∀ push, pushFor P mainServer identity message = some push →
            toIdentity = identity ∧ toPush P kind bundle = some push := by
          intro push hPush
          unfold pushFor at hPush
          split at hPush
          · next hBoth =>
              rw [hNotification] at hPush
              exact ⟨Option.some.inj (hKey.symm.trans hBoth.2), hPush⟩
          · cases hPush
        split
        · next hNone =>
            refine ⟨hServed, hPosted, fun _ push hPush => ?_⟩
            cases hNone.symm.trans (hFor push hPush).2
        · next push hPush =>
            obtain ⟨hHolds, hGrows, hDone⟩ :=
              sendToIdentity_spec hServed hSteady (notificationData push answers) toIdentity
            refine ⟨hHolds, List.Subset.trans hPosted hGrows, fun hCommit other hOther => ?_⟩
            obtain ⟨hTo, hSame⟩ := hFor other hOther
            obtain rfl := Option.some.inj (hPush.symm.trans hSame)
            exact hDone hTo hCommit
    · next hNot =>
        refine ⟨hServed, hPosted, fun _ push hPush => ?_⟩
        unfold pushFor at hPush
        split at hPush
        · next hBoth =>
            obtain ⟨notification, hNotification, -⟩ := Option.bind_eq_some_iff.mp hPush
            exact (hNot notification.1 notification.2 identity hNotification
              (by simp [hBoth.2, hIdentity])).elim
        · cases hPush

/-- The push worker does what its group is there for, for a token that stands. -/
theorem push_worker_accomplishes {Allowed : PushMessage → PushAnswers → Prop} (hIdentity : identity ≠ "")
    (hSteady : ∀ message answers, Allowed message answers →
      Steady P codecs identity publicKey token answers) :
    Accomplishes (process P codecs mainServer) Allowed (Holds publicKey token)
      (Delivered P mainServer identity token Allowed) where
  good := fun hAllowed h => (process_spec h (hSteady _ _ hAllowed) hIdentity _).1
  commits := fun hAllowed h hCommit push hPush =>
    ⟨_, hAllowed, (process_spec h (hSteady _ _ hAllowed) hIdentity _).2.2 hCommit push hPush⟩
  keeps := by
    intro s message other answers hAllowed h hDone push hPush
    obtain ⟨earlier, hEarlier, hPosted⟩ := hDone push hPush
    exact ⟨earlier, hEarlier, hPosted.mono (process_spec h (hSteady _ _ hAllowed) hIdentity _).2.1⟩

/-! ### From the event to the device -/

variable {event : EventMessage} {pending : PendingNotification} {bundle : EventBundle}

theorem kindOf_value (kind : NotificationKind) : kindOf kind.value = some kind := by
  cases kind <;> decide

/-- Every notification pushes, apart from those of reposts and quotes. -/
theorem exists_render {author : String} {content : Content} (key : EventKey)
    (h : pending ∈ buildNotifications author content) (hRepost : pending.kind ≠ .repost)
    (hQuote : pending.kind ≠ .quote) : ∃ rendered, render pending.kind key content = some rendered := by
  unfold buildNotifications at h
  split at h
  · next post hBody =>
      split at h
      · simp [render, (mem_notifyOwner h).1, hBody]
      · exact absurd (mem_notifyOwner h).1 hQuote
  · exact absurd (mem_notifyOwner h).1 hRepost
  · next reaction hBody =>
      simp [render, (mem_notifyOwner h).1, hBody]
  · simp [render, (mem_notify h).1]
  · next claim targetIdentities hBody =>
      obtain ⟨identity, -, hNotify⟩ := List.mem_flatMap.mp h
      simp [render, (mem_notify hNotify).1, hBody]
  · next claim hBody =>
      simp [render, (mem_notifyOwner h).1, hBody]
  · cases h

/-- The push service reads the event as the notification worker does. -/
theorem toPush_of_decodes {kind : NotificationKind} {rendered : Rendered}
    (hDecodes : toEventMessage P bundle = some event)
    (hRender : render kind event.triggerKey event.content = some rendered) :
    ∃ push, toPush P kind.value (some bundle) = some push ∧ push.rendered = rendered := by
  simp only [toEventMessage, Option.bind_eq_bind, Option.bind_eq_some_iff] at hDecodes
  obtain ⟨signed, hSigned, decoded, hEvent, key, hKey, serialized, hSerialized, content, hContent, hIs⟩ :=
    hDecodes
  obtain rfl := Option.some.inj hIs
  refine ⟨⟨rendered, hexEncode (signed.signature.take 28)⟩, ?_, rfl⟩
  simp [toPush, kindOf_value, hSigned, hEvent, hKey, hSerialized, hContent, hRender]

/-- An event reaches the devices of those it concerns: whatever fails in the two groups on
the way, for an event that the first leaves behind it has sent a message, or given up on
the event; and wherever the second leaves this message behind, it has been pushed to every
token that stands for a key of the recipient, with the name of the author and the text and
the link of its kind, or the second has given up on it. -/
theorem event_reaches_device (serverName : String) (resetEvents : OffsetReset)
    (events : Nat → List (Option EventBundle)) (ownerEvents : Nat → Nat)
    (notifying : List (Workers.Action (Option EventBundle) Answers))
    (resetMessages : OffsetReset) (messages : Nat → List PushMessage) (ownerMessages : Nat → Nat)
    (pushing : List (Workers.Action PushMessage PushAnswers)) (hToken : Holds publicKey token s)
    (hSteady : ∀ message answers, HandledIn (process P codecs serverName) resetMessages
      (System.new resetMessages messages ownerMessages s) pushing message answers →
        Steady P codecs pending.toIdentity publicKey token answers)
    (hDecodes : toEventMessage P bundle = some event)
    (hPending : pending ∈ buildNotifications event.triggerKey.identity event.content)
    (hWanted : ∀ answers, HandledIn (handleNotification P serverName) resetEvents
      (System.new resetEvents events ownerEvents ⟨[], []⟩) notifying (some bundle) answers →
        Wanted event.triggerKey.identity pending answers)
    (hPushes : pending.kind ≠ .repost ∧ pending.kind ≠ .quote) (hRecipient : pending.toIdentity ≠ "")
    {coord : Coord} :
    let notified := run (System.step (handleNotification P serverName) resetEvents)
      (System.new resetEvents events ownerEvents ⟨[], []⟩) notifying
    let pushed := run (System.step (process P codecs serverName) resetMessages)
      (System.new resetMessages messages ownerMessages s) pushing
    notified.LeftBehind coord (some bundle) →
      notified.GivenUp coord ∨ ∃ message ∈ notified.effect.produced,
        MessageFor serverName bundle pending message ∧
        ∃ push, render pending.kind event.triggerKey event.content = some push.rendered ∧
          ∀ place, pushed.LeftBehind place (received message) → pushed.GivenUp place ∨
            ∃ answers, HandledIn (process P codecs serverName) resetMessages
              (System.new resetMessages messages ownerMessages s) pushing (received message) answers ∧
              PostedTo token (notificationData push answers) pushed.effect := by
  intro notified pushed hLeft
  have hNotified : _ ∨ notified.GivenUp coord := left_behind_notified P serverName resetEvents events
    ownerEvents notifying hPending hDecodes hWanted hLeft
  rcases hNotified with ⟨-, message, hMessage, hFor⟩ | hGivenUp
  · right
    obtain ⟨rendered, hRender⟩ := exists_render event.triggerKey hPending hPushes.1 hPushes.2
    obtain ⟨push, hPush, hRendered⟩ := toPush_of_decodes hDecodes hRender
    refine ⟨message, hMessage, hFor, push, hRendered ▸ hRender, fun place hPlace => ?_⟩
    obtain ⟨-, hDone⟩ := left_behind_done (push_worker_accomplishes hRecipient hSteady) resetMessages
      ownerMessages hToken (allows_handledIn (process P codecs serverName) resetMessages _ pushing)
    rcases hDone place (received message) hPlace with hDelivered | hKept
    · right
      apply hDelivered push
      simp [pushFor, received, hFor.source, hFor.recipient, hFor.kind, hFor.trigger, hPush]
    · exact Or.inl hKept
  · exact Or.inl hGivenUp

end Polycentric.Push

namespace Polycentric.TableInstance

open Proto Workers Push

/-! Bob has registered a device, and the push service accepts what it is sent. -/

def noCodecs : Codecs := ⟨fun _ => none, fun _ => none⟩

def bobService : Service := ⟨[(tokenKey (key 2), expo, "device")], [], [], []⟩

def acceptingAnswers : PushAnswers where
  before := []
  authorizedKeys := fun _ => [key 2]
  lag := fun _ => 0
  name := some "Alice"
  avatar := none
  cdnUrl := none
  tokensFail := false
  meanwhile := []
  tickets := fun tokens => some (tokens.map fun _ => ⟨"ok", none⟩)
  deleted := 0

def followNotification : NotificationMessage := ⟨"main", "bob", 1, followBundle, none⟩

def bobActions : List (Workers.Action PushMessage PushAnswers) :=
  [.produce 0 (received followNotification), .deliver 0 acceptingAnswers true]

def bobStart : System Service PushMessage := System.new .latest (fun _ => []) (fun _ => 0) bobService

def bobPushed : System Service PushMessage :=
  Runs.run (System.step (process followPrimitives noCodecs "main") .latest) bobStart bobActions

theorem steady_accepting : Steady followPrimitives noCodecs "bob" (key 2) "device" acceptingAnswers := by
  refine ⟨List.mem_cons_self, fun _ hMem => absurd hMem List.not_mem_nil,
    fun _ hMem => absurd hMem List.not_mem_nil, ?_⟩
  intro tokens tickets hTickets pair hPair _
  obtain rfl := Option.some.inj hTickets
  obtain ⟨_, -, hTicket⟩ := List.mem_map.mp (List.of_mem_zip hPair).2
  rw [← hTicket]
  decide

theorem steady_of_pushed (message : PushMessage) (answers : PushAnswers)
    (h : HandledIn (process followPrimitives noCodecs "main") .latest bobStart bobActions message answers) :
    Steady followPrimitives noCodecs "bob" (key 2) "device" answers := by
  obtain ⟨⟨t, action⟩, hMem, hHandles⟩ := h
  have hAction := Runs.mem_of_mem_trace hMem
  simp only [bobActions, List.mem_cons, List.not_mem_nil, or_false] at hAction
  rcases hAction with rfl | rfl
  · exact hHandles.elim
  · exact hHandles.2 ▸ steady_accepting

end Polycentric.TableInstance

namespace Polycentric.Push

open Workers TableInstance

theorem event_reaches_device_follow :
    followed.GivenUp ⟨0, 0⟩ ∨ ∃ message ∈ followed.effect.produced,
      MessageFor "main" followBundle followPending message ∧
      ∃ push, render .follow followMessage.triggerKey followMessage.content = some push.rendered ∧
        ∀ place, bobPushed.LeftBehind place (received message) → bobPushed.GivenUp place ∨
          ∃ answers, HandledIn (process followPrimitives noCodecs "main") .latest bobStart bobActions
            (received message) answers ∧
            PostedTo "device" (notificationData push answers) bobPushed.effect := by
  have hDevice : Holds (key 2) "device" bobService := by
    refine ⟨List.nodup_singleton _, fun table hTable => ?_⟩
    rw [List.mem_singleton.mp hTable]
    decide +kernel
  have hDecodes : toEventMessage followPrimitives followBundle = some followMessage := rfl
  exact event_reaches_device "main" .latest (fun _ => []) (fun _ => 0) followActions .latest
    (fun _ => []) (fun _ => 0) bobActions hDevice steady_of_pushed hDecodes (by decide +kernel)
    wanted_of_followed (by decide +kernel) (by decide +kernel)
    ⟨by decide +kernel, by decide +kernel, Or.inl (by decide +kernel)⟩

end Polycentric.Push
