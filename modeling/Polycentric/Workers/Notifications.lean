import Polycentric.Common.Identity
import Polycentric.Server.NotificationWorker
import Polycentric.Server.VerifiedClaims
import Polycentric.Workers.Consumer

/-! The notification worker, `notifications/worker.rs`: from the messages of the `events`
topic it makes rows of `notification`, and messages of the `notifications` topic for the
push service. What the database holds, and which of its answers fail, may differ each
time a message is handled. -/
namespace Polycentric.Workers

open Proto Runs Server

/-- A message of the `notifications` topic, whose key is the recipient. -/
structure NotificationMessage where
  sourceServer : String
  toIdentity : String
  kind : Int
  triggerEvent : EventBundle
  targetEvent : Option EventBundle
  deriving DecidableEq, Repr

/-- What the worker has brought about. -/
structure Delivered where
  rows : List NotificationRow
  produced : List NotificationMessage
  deriving DecidableEq, Repr

/-- What the database and the broker answer while a message is handled. The tables are
those at that time. A query may fail, only the first few rows may be inserted and only
the first few messages be sent. `hydrated` is the target event with its proofs. -/
structure Answers where
  block : List BlockRow
  verifications : VerificationStore
  checkFails : Bool
  blocksFail : Bool
  firstId : Int
  inserted : Nat
  hydrated : Option (Option EventBundle)
  sent : Nat

/-- `identities_blocking`: those of the identities that block the identity. -/
def identitiesBlocking (block : List BlockRow) (potentialBlockers : List String) (blocked : String) :
    List String :=
  (block.filter fun row => row.blocked = blocked && potentialBlockers.contains row.blocker).map
    BlockRow.blocker

/-- `was_verification_requested`: an event of the claim's owner asks the identity. -/
def wasVerificationRequested (store : VerificationStore) (claimKey : EventKeyParts)
    (targetIdentity : String) : Bool :=
  store.event.any fun event =>
    event.key.collection = ResolveVerifiedClaims.verificationsCollection &&
      event.key.identity = claimKey.identity &&
      store.target.any fun target => event.contentDigest = some target.digest &&
        target.targetIdentity = targetIdentity && target.claimEventKey = claimKey

/-- `verification_was_requested`. -/
def verificationWasRequested (store : VerificationStore) (claimKey : Option EventKey)
    (verifier : String) : Bool :=
  claimKey.any fun key => wasVerificationRequested store (keyColumns key) verifier

variable (P : Primitives) (serverName : String)

/-- The event and the content of a bundle, if all of it is there and decodes. -/
def toEventMessage (bundle : EventBundle) : Option EventMessage := do
  let signed ← bundle.signedEvent
  let event ← (P.decodeEvent signed.eventBytes).toOption
  let triggerKey ← event.key
  let serialized ← bundle.serializedContent
  let content ← (P.decodeContent serialized.contentBytes).toOption
  return ⟨triggerKey, content⟩

/-- The message that the push service is sent for a row. -/
def emitted (bundle : EventBundle) (targetEvent : Option EventBundle) (row : NotificationRow) :
    NotificationMessage where
  sourceServer := serverName
  toIdentity := row.toIdentity
  kind := row.kind
  triggerEvent := bundle
  targetEvent := targetEvent

/-- The insertions and the messages for the recipients of an event. -/
def recordAndEmit (delivered : Delivered) (bundle : EventBundle) (target : Option EventKey)
    (rows : List NotificationRow) (answers : Answers) : Delivered × Outcome :=
  let recorded := { delivered with rows := delivered.rows ++ rows.take answers.inserted }
  if answers.inserted < rows.length then (recorded, .retry)
  else
    match if target.isSome then answers.hydrated else some none with
    | none => (recorded, .retry)
    | some targetEvent =>
        let messages := rows.map (emitted serverName bundle targetEvent)
        ({ recorded with produced := delivered.produced ++ messages.take answers.sent },
          if answers.sent < messages.length then .retry else .commit)

/-- `NotificationWorker::handle`. A message without a payload that decodes is `none`. -/
def handleNotification (delivered : Delivered) (message : Option EventBundle) (answers : Answers) :
    Delivered × Outcome :=
  match message with
  | none => (delivered, .commit)
  | some bundle =>
      match toEventMessage P bundle with
      | none => (delivered, .commit)
      | some event =>
          let author := event.triggerKey.identity
          let notifications := buildNotifications author event.content
          match notifications.head? with
          | none => (delivered, .commit)
          | some first =>
              let completes := first.kind = .verificationComplete
              let requested := verificationWasRequested answers.verifications first.target author
              if completes ∧ answers.checkFails then (delivered, .retry)
              else if completes ∧ !requested then (delivered, .commit)
              else if answers.blocksFail then (delivered, .retry)
              else
                let blockers := identitiesBlocking answers.block
                  (notifications.map PendingNotification.toIdentity) author
                match notificationRows event requested blockers answers.firstId with
                | [] => (delivered, .commit)
                | row :: rows =>
                    recordAndEmit serverName delivered bundle first.target (row :: rows) answers

/-! What a row or a message stands for. -/

/-- The row is what the worker records of the notification. -/
structure RowFor (event : EventMessage) (pending : PendingNotification) (row : NotificationRow) :
    Prop where
  kind : row.kind = pending.kind.value
  author : row.fromIdentity = event.triggerKey.identity
  recipient : row.toIdentity = pending.toIdentity
  trigger : row.triggerKey = keyColumns event.triggerKey
  target : row.targetEventKey = pending.target.elim noKeyColumns keyColumns

/-- The message is what the push service is sent of the notification. -/
structure MessageFor (serverName : String) (bundle : EventBundle) (pending : PendingNotification)
    (message : NotificationMessage) : Prop where
  source : message.sourceServer = serverName
  recipient : message.toIdentity = pending.toIdentity
  kind : message.kind = pending.kind.value
  trigger : message.triggerEvent = bundle

/-- The recipient does not block the author, and has asked for the verification that is
completed. -/
structure Wanted (author : String) (pending : PendingNotification) (answers : Answers) : Prop where
  unblocked : ∀ row ∈ answers.block, row.blocked = author → row.blocker ≠ pending.toIdentity
  requested : pending.kind = .verificationComplete →
    verificationWasRequested answers.verifications pending.target author = true

variable {event : EventMessage} {pending other : PendingNotification} {author : String} {content : Content}
  {kind : NotificationKind} {target : Option EventKey} {row : NotificationRow}

/-- A notification goes to somebody else than the author. -/
theorem mem_notify {toIdentity : String} (h : pending ∈ notify author kind toIdentity target) :
    pending = ⟨kind, toIdentity, target⟩ ∧ toIdentity ≠ author := by
  unfold notify at h
  split at h
  · next hNe => exact ⟨List.mem_singleton.mp h, hNe⟩
  · cases h

theorem mem_notifyOwner (h : pending ∈ notifyOwner author kind target) :
    pending.kind = kind ∧ pending.target = target ∧ pending.toIdentity ≠ author := by
  cases target with
  | none => cases h
  | some key =>
      obtain ⟨rfl, hNe⟩ := mem_notify h
      exact ⟨rfl, rfl, hNe⟩

/-- All notifications of an event have one kind and one target, and none is for the
author. -/
theorem exists_kind_target (author : String) (content : Content) :
    ∃ kind target, ∀ pending ∈ buildNotifications author content,
      pending.kind = kind ∧ pending.target = target ∧ pending.toIdentity ≠ author := by
  unfold buildNotifications
  split
  · split
    · exact ⟨_, _, fun _ h => mem_notifyOwner h⟩
    · exact ⟨_, _, fun _ h => mem_notifyOwner h⟩
  · exact ⟨_, _, fun _ h => mem_notifyOwner h⟩
  · exact ⟨_, _, fun _ h => mem_notifyOwner h⟩
  · refine ⟨.follow, none, ?_⟩
    intro pending h
    obtain ⟨rfl, hNe⟩ := mem_notify h
    exact ⟨rfl, rfl, hNe⟩
  · next claim _ _ =>
    refine ⟨.verificationRequest, claim, ?_⟩
    intro pending h
    obtain ⟨identity, -, hNotify⟩ := List.mem_flatMap.mp h
    obtain ⟨rfl, hNe⟩ := mem_notify hNotify
    exact ⟨rfl, rfl, hNe⟩
  · exact ⟨_, _, fun _ h => mem_notifyOwner h⟩
  · exact ⟨.follow, none, fun _ h => absurd h List.not_mem_nil⟩

/-- A content leads to notifications of one kind, about one target. -/
theorem same_kind_target (h : pending ∈ buildNotifications author content)
    (hOther : other ∈ buildNotifications author content) :
    other.kind = pending.kind ∧ other.target = pending.target := by
  obtain ⟨kind, target, hAll⟩ := exists_kind_target author content
  obtain ⟨hKind, hTarget, -⟩ := hAll pending h
  obtain ⟨hKind', hTarget', -⟩ := hAll other hOther
  exact ⟨hKind'.trans hKind.symm, hTarget'.trans hTarget.symm⟩

/-- Nobody is notified of what they do themselves. -/
theorem toIdentity_ne_author (h : pending ∈ buildNotifications author content) :
    pending.toIdentity ≠ author := by
  obtain ⟨_, _, hAll⟩ := exists_kind_target author content
  exact (hAll pending h).2.2

/-- A row is for one of the notifications, whose recipient is no blocker. -/
theorem pending_of_row {requested : Bool} {blockers : List String} {firstId : Int}
    (h : row ∈ notificationRows event requested blockers firstId) :
    ∃ pending ∈ buildNotifications event.triggerKey.identity event.content,
      pending.toIdentity ∉ blockers ∧ RowFor event pending row := by
  unfold notificationRows at h
  dsimp only at h
  split at h
  · cases h
  · next first hFirst =>
      split at h
      · cases h
      · obtain ⟨n, hn, rfl⟩ := List.mem_mapIdx.mp h
        have hMem := List.mem_filter.mp (List.getElem_mem hn)
        obtain ⟨pending, hPending, hIdentity⟩ := List.mem_map.mp hMem.1
        obtain ⟨hKind, hTarget⟩ := same_kind_target hPending (List.mem_of_head? hFirst)
        refine ⟨pending, hPending, ?_, ⟨by rw [← hKind], rfl, hIdentity.symm, rfl, by rw [← hTarget]⟩⟩
        rw [hIdentity]
        simpa using hMem.2

/-- A notification whose recipient is no blocker has a row. -/
theorem exists_row {requested : Bool} {blockers : List String} {firstId : Int}
    (hPending : pending ∈ buildNotifications event.triggerKey.identity event.content)
    (hRequested : pending.kind = .verificationComplete → requested = true)
    (hUnblocked : pending.toIdentity ∉ blockers) :
    ∃ row ∈ notificationRows event requested blockers firstId, RowFor event pending row := by
  cases hFirst : (buildNotifications event.triggerKey.identity event.content).head? with
  | none =>
      rw [List.head?_eq_none_iff.mp hFirst] at hPending
      cases hPending
  | some first =>
      obtain ⟨hKind, hTarget⟩ := same_kind_target hPending (List.mem_of_head? hFirst)
      have hGate : ¬(first.kind = .verificationComplete && !requested) = true := by
        intro hBoth
        rw [Bool.and_eq_true, decide_eq_true_iff, hKind] at hBoth
        rw [hRequested hBoth.1] at hBoth
        exact absurd hBoth.2 Bool.false_ne_true
      have hMem : pending.toIdentity ∈ ((buildNotifications event.triggerKey.identity event.content).map
          PendingNotification.toIdentity).filter fun identity => !blockers.contains identity := by
        refine List.mem_filter.mpr ⟨List.mem_map_of_mem hPending, ?_⟩
        simpa using hUnblocked
      obtain ⟨n, hn, hAt⟩ := List.mem_iff_getElem.mp hMem
      simp only [notificationRows, hFirst, if_neg hGate]
      refine ⟨_, List.mem_mapIdx.mpr ⟨n, hn, rfl⟩, ?_⟩
      exact ⟨by rw [hKind], rfl, hAt, rfl, by rw [hTarget]⟩

/-- A blocker has a row that says so. -/
theorem mem_identitiesBlocking {block : List BlockRow} {potentialBlockers : List String}
    {blocker blocked : String} (h : blocker ∈ identitiesBlocking block potentialBlockers blocked) :
    ∃ row ∈ block, row.blocked = blocked ∧ row.blocker = blocker := by
  obtain ⟨row, hRow, rfl⟩ := List.mem_map.mp h
  obtain ⟨hMem, hBoth⟩ := List.mem_filter.mp hRow
  rw [Bool.and_eq_true, decide_eq_true_iff] at hBoth
  exact ⟨row, hMem, hBoth.1, rfl⟩

theorem blocker_of_row {block : List BlockRow} {potentialBlockers : List String} {blocked : String}
    {row : BlockRow} (h : row ∈ block) (hBlocked : row.blocked = blocked)
    (hPotential : row.blocker ∈ potentialBlockers) :
    row.blocker ∈ identitiesBlocking block potentialBlockers blocked := by
  refine List.mem_map_of_mem (List.mem_filter.mpr ⟨h, ?_⟩)
  simp [hBlocked, hPotential]

/-! One handled message. -/

variable {delivered : Delivered} {bundle : EventBundle} {answers : Answers} {rows : List NotificationRow}

/-- What is recorded and sent is added, and all of it is if the message is done with. -/
theorem recordAndEmit_spec (delivered : Delivered) (bundle : EventBundle) (target : Option EventKey)
    (rows : List NotificationRow) (answers : Answers) :
    ∃ newRows newMessages targetEvent,
      (recordAndEmit serverName delivered bundle target rows answers).1 =
        ⟨delivered.rows ++ newRows, delivered.produced ++ newMessages⟩ ∧
      newRows ⊆ rows ∧ newMessages ⊆ rows.map (emitted serverName bundle targetEvent) ∧
      ((recordAndEmit serverName delivered bundle target rows answers).2 = .commit →
        newRows = rows ∧ newMessages = rows.map (emitted serverName bundle targetEvent)) := by
  unfold recordAndEmit
  dsimp only
  split
  · refine ⟨rows.take answers.inserted, [], none, ?_, List.take_subset _ _, List.nil_subset _, nofun⟩
    rw [List.append_nil]
  · next hAll =>
      have hRows : rows.take answers.inserted = rows := List.take_of_length_le (Nat.le_of_not_lt hAll)
      split
      · refine ⟨rows, [], none, ?_, List.Subset.refl _, List.nil_subset _, nofun⟩
        rw [hRows, List.append_nil]
      · next targetEvent _ =>
          refine ⟨rows, _, targetEvent, by rw [hRows], List.Subset.refl _, List.take_subset _ _, ?_⟩
          intro hCommit
          refine ⟨rfl, ?_⟩
          split at hCommit
          · cases hCommit
          · next hSent => exact List.take_of_length_le (Nat.le_of_not_lt hSent)

/-- The rows that the event has in the database of the answers. -/
def rowsOf (event : EventMessage) (answers : Answers) : List NotificationRow :=
  let author := event.triggerKey.identity
  let notifications := buildNotifications author event.content
  let requested := verificationWasRequested answers.verifications
    (notifications.head?.bind PendingNotification.target) author
  notificationRows event requested
    (identitiesBlocking answers.block (notifications.map PendingNotification.toIdentity) author)
    answers.firstId

/-- What handling a message adds: rows and messages of its event, and all of them if the
message is done with. -/
structure Handled (delivered : Delivered) (bundle : EventBundle) (answers : Answers)
    (result : Delivered × Outcome) : Prop where
  grows : ∃ newRows newMessages,
    result.1 = ⟨delivered.rows ++ newRows, delivered.produced ++ newMessages⟩ ∧
      (∀ row ∈ newRows, ∃ event, toEventMessage P bundle = some event ∧ row ∈ rowsOf event answers) ∧
      ∀ message ∈ newMessages, ∃ event row targetEvent, toEventMessage P bundle = some event ∧
        row ∈ rowsOf event answers ∧ message = emitted serverName bundle targetEvent row
  complete : result.2 = .commit → ∀ event, toEventMessage P bundle = some event →
    ∀ row ∈ rowsOf event answers, row ∈ result.1.rows ∧
      ∃ targetEvent, emitted serverName bundle targetEvent row ∈ result.1.produced

/-- Without rows to write nothing is added. -/
theorem Handled.nothing {outcome : Outcome}
    (hNone : outcome = .commit → ∀ event, toEventMessage P bundle = some event → rowsOf event answers = []) :
    Handled P serverName delivered bundle answers (delivered, outcome) := by
  refine ⟨⟨[], [], by simp, ?_, ?_⟩, ?_⟩
  · exact fun _ hMem => absurd hMem List.not_mem_nil
  · exact fun _ hMem => absurd hMem List.not_mem_nil
  · intro hCommit event hEvent row hRow
    rw [hNone hCommit event hEvent] at hRow
    cases hRow

/-- The rows are written before they are sent on. If either fails, the message is tried again. -/
theorem Handled.recorded (hEvent : toEventMessage P bundle = some event)
    (hRows : rowsOf event answers = rows) :
    Handled P serverName delivered bundle answers
      (recordAndEmit serverName delivered bundle target rows answers) := by
  obtain ⟨newRows, newMessages, targetEvent, hEq, hNewRows, hNewMessages, hAll⟩ :=
    recordAndEmit_spec serverName delivered bundle target rows answers
  subst hRows
  refine ⟨⟨newRows, newMessages, hEq, fun row hRow => ⟨event, hEvent, hNewRows hRow⟩, ?_⟩, ?_⟩
  · intro message hMessage
    obtain ⟨row, hRow, rfl⟩ := List.mem_map.mp (hNewMessages hMessage)
    exact ⟨event, row, targetEvent, hEvent, hRow, rfl⟩
  · intro hCommit other hOther row hRow
    obtain rfl := Option.some.inj (hEvent.symm.trans hOther)
    obtain ⟨hAllRows, hAllMessages⟩ := hAll hCommit
    rw [hEq, hAllRows, hAllMessages]
    exact ⟨List.mem_append_right _ hRow,
      targetEvent, List.mem_append_right _ (List.mem_map_of_mem hRow)⟩

/-- Whatever fails, a message that is done with has its rows written and sent on. -/
theorem handled_handleNotification (delivered : Delivered) (bundle : EventBundle) (answers : Answers) :
    Handled P serverName delivered bundle answers
      (handleNotification P serverName delivered (some bundle) answers) := by
  cases hEvent : toEventMessage P bundle with
  | none =>
      simp only [handleNotification, hEvent]
      exact Handled.nothing P serverName fun _ _ hOther => nomatch hEvent.symm.trans hOther
  | some event =>
      cases hFirst : (buildNotifications event.triggerKey.identity event.content).head? with
      | none =>
          simp only [handleNotification, hEvent, hFirst]
          refine Handled.nothing P serverName ?_
          intro _ other hOther
          obtain rfl := Option.some.inj (hEvent.symm.trans hOther)
          simp only [rowsOf, notificationRows, hFirst]
      | some first =>
          simp only [handleNotification, hEvent, hFirst]
          split
          · exact Handled.nothing P serverName nofun
          · split
            · next hUnrequested =>
                refine Handled.nothing P serverName ?_
                intro _ other hOther
                obtain rfl := Option.some.inj (hEvent.symm.trans hOther)
                have hGate : (first.kind = .verificationComplete &&
                    !verificationWasRequested answers.verifications first.target
                      event.triggerKey.identity) = true := by simpa using hUnrequested
                simp only [rowsOf, notificationRows, hFirst, Option.bind_some, if_pos hGate]
            · split
              · exact Handled.nothing P serverName nofun
              · have hRowsOf : rowsOf event answers = notificationRows event
                    (verificationWasRequested answers.verifications first.target event.triggerKey.identity)
                    (identitiesBlocking answers.block ((buildNotifications event.triggerKey.identity
                      event.content).map PendingNotification.toIdentity) event.triggerKey.identity)
                    answers.firstId := by simp only [rowsOf, hFirst, Option.bind_some]
                split
                · next hNil =>
                    refine Handled.nothing P serverName ?_
                    intro _ other hOther
                    obtain rfl := Option.some.inj (hEvent.symm.trans hOther)
                    exact hRowsOf.trans hNil
                · next hRows => exact Handled.recorded P serverName hEvent (hRowsOf.trans hRows)

/-! The worker over whole runs. -/

/-- A completed verification is reported only to those who have asked for it. -/
theorem requested_of_wanted (hPending : pending ∈ buildNotifications author content)
    (hWanted : Wanted author pending answers) (hKind : pending.kind = .verificationComplete) :
    verificationWasRequested answers.verifications
      ((buildNotifications author content).head?.bind PendingNotification.target) author = true := by
  cases hFirst : (buildNotifications author content).head? with
  | none =>
      rw [List.head?_eq_none_iff.mp hFirst] at hPending
      cases hPending
  | some first =>
      rw [Option.bind_some, (same_kind_target hPending (List.mem_of_head? hFirst)).2]
      exact hWanted.requested hKind

/-- A wanted notification has a row. -/
theorem exists_rowOf (hPending : pending ∈ buildNotifications event.triggerKey.identity event.content)
    (hWanted : Wanted event.triggerKey.identity pending answers) :
    ∃ row ∈ rowsOf event answers, RowFor event pending row := by
  refine exists_row hPending (requested_of_wanted hPending hWanted) ?_
  intro hBlocker
  obtain ⟨row, hRow, hBlocked, hIs⟩ := mem_identitiesBlocking hBlocker
  exact hWanted.unblocked row hRow hBlocked hIs

/-- Only wanted notifications have rows. -/
theorem wanted_of_rowOf (h : row ∈ rowsOf event answers) :
    ∃ pending ∈ buildNotifications event.triggerKey.identity event.content,
      RowFor event pending row ∧ Wanted event.triggerKey.identity pending answers := by
  obtain ⟨pending, hPending, hUnblocked, hRow⟩ := pending_of_row h
  refine ⟨pending, hPending, hRow, ?_, ?_⟩
  · intro block hBlock hBlocked hBlocker
    refine hUnblocked (hBlocker ▸ blocker_of_row hBlock hBlocked ?_)
    rw [hBlocker]
    exact List.mem_map_of_mem hPending
  · intro hKind
    cases hFirst : (buildNotifications event.triggerKey.identity event.content).head? with
    | none =>
        rw [List.head?_eq_none_iff.mp hFirst] at hPending
        cases hPending
    | some first =>
        obtain ⟨hSameKind, hSameTarget⟩ := same_kind_target hPending (List.mem_of_head? hFirst)
        by_contra hUnrequested
        have hGate : (first.kind = .verificationComplete &&
            !verificationWasRequested answers.verifications first.target
              event.triggerKey.identity) = true := by
          rw [hSameKind, hKind, hSameTarget]
          simpa using hUnrequested
        simp only [rowsOf, notificationRows, hFirst, Option.bind_some, if_pos hGate] at h
        cases h

variable (Allowed : Option EventBundle → Answers → Prop)

/-- A notification of the event, for someone other than its author, wanted by what the
database held when the message was handled. -/
structure Due (bundle : EventBundle) (event : EventMessage) (pending : PendingNotification) : Prop where
  decodes : toEventMessage P bundle = some event
  asked : pending ∈ buildNotifications event.triggerKey.identity event.content
  other : pending.toIdentity ≠ event.triggerKey.identity
  wanted : ∃ answers, Allowed (some bundle) answers ∧ Wanted event.triggerKey.identity pending answers

/-- Everything recorded and sent is due. -/
structure Genuine (delivered : Delivered) : Prop where
  rows : ∀ row ∈ delivered.rows, ∃ bundle event pending,
    Due P Allowed bundle event pending ∧ RowFor event pending row
  produced : ∀ message ∈ delivered.produced, ∃ bundle event pending,
    Due P Allowed bundle event pending ∧ MessageFor serverName bundle pending message

/-- What is wanted of the message, each time that it is handled, is recorded and sent. -/
def Notified (message : Option EventBundle) (delivered : Delivered) : Prop :=
  ∀ bundle event pending, message = some bundle → toEventMessage P bundle = some event →
    pending ∈ buildNotifications event.triggerKey.identity event.content →
    (∀ answers, Allowed message answers → Wanted event.triggerKey.identity pending answers) →
    (∃ row ∈ delivered.rows, RowFor event pending row) ∧
      ∃ message ∈ delivered.produced, MessageFor serverName bundle pending message

variable {Allowed}

theorem messageFor_emitted {targetEvent : Option EventBundle} (h : RowFor event pending row) :
    MessageFor serverName bundle pending (emitted serverName bundle targetEvent row) :=
  ⟨rfl, h.recipient, h.kind, rfl⟩

/-- A handled message adds what is due only. -/
theorem genuine_handleNotification {message : Option EventBundle} (hAllowed : Allowed message answers)
    (h : Genuine P serverName Allowed delivered) :
    Genuine P serverName Allowed (handleNotification P serverName delivered message answers).1 := by
  cases message with
  | none => exact h
  | some bundle =>
      obtain ⟨newRows, newMessages, hEq, hRows, hMessages⟩ :=
        (handled_handleNotification P serverName delivered bundle answers).grows
      have hDue : ∀ {event row}, toEventMessage P bundle = some event → row ∈ rowsOf event answers →
          ∃ pending, Due P Allowed bundle event pending ∧ RowFor event pending row := by
        intro event row hEvent hRow
        obtain ⟨pending, hPending, hFor, hWanted⟩ := wanted_of_rowOf hRow
        exact ⟨pending, ⟨hEvent, hPending, toIdentity_ne_author hPending, answers, hAllowed, hWanted⟩, hFor⟩
      rw [hEq]
      refine ⟨?_, ?_⟩
      · intro row hMem
        rcases List.mem_append.mp hMem with hOld | hNew
        · exact h.rows row hOld
        · obtain ⟨event, hEvent, hRow⟩ := hRows row hNew
          exact ⟨bundle, event, hDue hEvent hRow⟩
      · intro message hMem
        rcases List.mem_append.mp hMem with hOld | hNew
        · exact h.produced message hOld
        · obtain ⟨event, row, targetEvent, hEvent, hRow, rfl⟩ := hMessages message hNew
          obtain ⟨pending, hIsDue, hFor⟩ := hDue hEvent hRow
          exact ⟨bundle, event, pending, hIsDue, messageFor_emitted serverName hFor⟩

/-- A message that the worker is done with is recorded and sent as a whole. -/
theorem notified_of_commit {message : Option EventBundle} (hAllowed : Allowed message answers)
    (hCommit : (handleNotification P serverName delivered message answers).2 = .commit) :
    Notified P serverName Allowed message (handleNotification P serverName delivered message answers).1 := by
  intro bundle event pending hBundle hEvent hPending hWanted
  subst hBundle
  have hHandled := handled_handleNotification P serverName delivered bundle answers
  obtain ⟨row, hRow, hFor⟩ := exists_rowOf hPending (hWanted answers hAllowed)
  obtain ⟨hRecorded, targetEvent, hSent⟩ := hHandled.complete hCommit event hEvent row hRow
  exact ⟨⟨row, hRecorded, hFor⟩, _, hSent, messageFor_emitted serverName hFor⟩

/-- What was delivered stays delivered. -/
theorem Notified.handleNotification {message other : Option EventBundle}
    (h : Notified P serverName Allowed message delivered) :
    Notified P serverName Allowed message (handleNotification P serverName delivered other answers).1 := by
  cases other with
  | none => exact h
  | some bundle =>
      obtain ⟨newRows, newMessages, hEq, -, -⟩ :=
        (handled_handleNotification P serverName delivered bundle answers).grows
      rw [hEq]
      intro same event pending hBundle hEvent hPending hWanted
      obtain ⟨⟨row, hRow, hFor⟩, sent, hSent, hSentFor⟩ := h same event pending hBundle hEvent hPending hWanted
      exact ⟨⟨row, List.mem_append_left _ hRow, hFor⟩, sent, List.mem_append_left _ hSent, hSentFor⟩

variable (Allowed) in
/-- The notification worker does what its group is there for. -/
theorem notification_worker_accomplishes :
    Accomplishes (handleNotification P serverName) Allowed (Genuine P serverName Allowed)
      (Notified P serverName Allowed) where
  good := fun hAllowed h => genuine_handleNotification P serverName hAllowed h
  commits := fun hAllowed _ hCommit => notified_of_commit P serverName hAllowed hCommit
  keeps := fun _ _ h => h.handleNotification P serverName

variable (Allowed) in
theorem genuine_nil : Genuine P serverName Allowed ⟨[], []⟩ where
  rows _ hMem := absurd hMem List.not_mem_nil
  produced _ hMem := absurd hMem List.not_mem_nil

/-- No notification is lost: in every run of the group, whatever fails, each event that it
leaves behind has a row and a message for every notification that was wanted each time the
event was handled, or the group gave up on the event. -/
theorem left_behind_notified (reset : OffsetReset) (log : Nat → List (Option EventBundle))
    (owner : Nat → Nat) (actions : List (Action (Option EventBundle) Answers)) {coord : Coord}
    (hPending : pending ∈ buildNotifications event.triggerKey.identity event.content)
    (hDecodes : toEventMessage P bundle = some event)
    (hWanted : ∀ answers, HandledIn (handleNotification P serverName) reset
      (System.new reset log owner ⟨[], []⟩) actions (some bundle) answers →
        Wanted event.triggerKey.identity pending answers) :
    let s := run (System.step (handleNotification P serverName) reset)
      (System.new reset log owner ⟨[], []⟩) actions
    s.LeftBehind coord (some bundle) →
      ((∃ row ∈ s.effect.rows, RowFor event pending row) ∧
        ∃ message ∈ s.effect.produced, MessageFor serverName bundle pending message) ∨
      s.GivenUp coord := by
  intro s hLeft
  have hWorker := notification_worker_accomplishes P serverName
    (HandledIn (handleNotification P serverName) reset (System.new reset log owner ⟨[], []⟩) actions)
  obtain ⟨-, hDone⟩ := left_behind_done hWorker reset owner (genuine_nil P serverName _)
    (allows_handledIn (handleNotification P serverName) reset _ actions)
  refine (hDone coord _ hLeft).imp_left ?_
  intro hNotified
  exact hNotified bundle event pending rfl hDecodes hPending hWanted

/-- Nobody is notified of anything else: every row and every message of a run is for a
notification that an event of the topic asks for, for someone other than its author who,
when the event was handled, did not block the author and had asked for the verification
that it completes. -/
theorem notified_only_due (reset : OffsetReset) (log : Nat → List (Option EventBundle))
    (owner : Nat → Nat) (actions : List (Action (Option EventBundle) Answers)) :
    Genuine P serverName
      (HandledIn (handleNotification P serverName) reset (System.new reset log owner ⟨[], []⟩) actions)
      (run (System.step (handleNotification P serverName) reset)
        (System.new reset log owner ⟨[], []⟩) actions).effect := by
  have hWorker := notification_worker_accomplishes P serverName
    (HandledIn (handleNotification P serverName) reset (System.new reset log owner ⟨[], []⟩) actions)
  exact (left_behind_done hWorker reset owner (genuine_nil P serverName _)
    (allows_handledIn (handleNotification P serverName) reset _ actions)).1

end Polycentric.Workers

namespace Polycentric.TableInstance

open Proto Server Workers

/-! Alice follows Bob, and nobody blocks anybody. -/

def followPrimitives : Primitives :=
  primitives [([1], event Collections.socialGraph "alice" (key 1) 1 [1] [13])] [([13], ⟨some (.follow "bob")⟩)]

def followBundle : EventBundle := ⟨some ⟨sign (key 1).key [1], [1]⟩, some ⟨[13]⟩, [], none⟩

def followMessage : EventMessage := ⟨⟨Collections.socialGraph, "alice", some (key 1), 1⟩, ⟨some (.follow "bob")⟩⟩

def followPending : PendingNotification := ⟨.follow, "bob", none⟩

def quietAnswers : Answers where
  block := []
  verifications := ⟨[], [], [], [], fun _ => false, List.nodup_nil, List.nodup_nil⟩
  checkFails := false
  blocksFail := false
  firstId := 1
  inserted := 1
  hydrated := none
  sent := 1

/-- The event is delivered twice: the first time no message can be sent. -/
def followActions : List (Workers.Action (Option EventBundle) Answers) :=
  [.produce 0 (some followBundle), .deliver 0 { quietAnswers with sent := 0 } true, .deliver 0 quietAnswers true]

def followStart : System Delivered (Option EventBundle) :=
  System.new .latest (fun _ => []) (fun _ => 0) ⟨[], []⟩

def followed : System Delivered (Option EventBundle) :=
  Runs.run (System.step (handleNotification followPrimitives "main") .latest) followStart followActions

theorem wanted_of_followed (answers : Answers)
    (h : HandledIn (handleNotification followPrimitives "main") .latest followStart followActions
      (some followBundle) answers) :
    Wanted followMessage.triggerKey.identity followPending answers := by
  obtain ⟨⟨t, action⟩, hMem, hHandles⟩ := h
  have hAction := Runs.mem_of_mem_trace hMem
  have hQuiet : answers.block = [] := by
    simp only [followActions, List.mem_cons, List.not_mem_nil, or_false] at hAction
    rcases hAction with rfl | rfl | rfl
    · exact hHandles.elim
    · exact hHandles.2 ▸ rfl
    · exact hHandles.2 ▸ rfl
  refine ⟨?_, nofun⟩
  rw [hQuiet]
  exact fun _ hRow => absurd hRow List.not_mem_nil

end Polycentric.TableInstance

namespace Polycentric.Workers

open TableInstance

theorem left_behind_notified_follow :
    ((∃ row ∈ followed.effect.rows, RowFor followMessage followPending row) ∧
        ∃ message ∈ followed.effect.produced, MessageFor "main" followBundle followPending message) ∨
      followed.GivenUp ⟨0, 0⟩ :=
  left_behind_notified followPrimitives "main" .latest (fun _ => []) (fun _ => 0) followActions
    (by decide +kernel) rfl wanted_of_followed
    ⟨by decide +kernel, by decide +kernel, Or.inl (by decide +kernel)⟩

end Polycentric.Workers
