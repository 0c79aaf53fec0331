import Polycentric.Server.NotificationPages

/-! The rows that an event leaves in `notification`, `notifications/worker.rs`. A row
names the author of the event, the recipient, and the owner of the event that it is
about, who is the recipient unless the row asks for a verification. -/
namespace Polycentric.Server

open Proto

inductive NotificationKind where
  | follow
  | reply
  | repost
  | reaction
  | quote
  | verificationRequest
  | verificationComplete
  deriving DecidableEq, Repr

def NotificationKind.value : NotificationKind → Int
  | .follow => 1
  | .reply => 2
  | .repost => 3
  | .reaction => 4
  | .quote => 5
  | .verificationRequest => 6
  | .verificationComplete => 7

/-- A notification that waits to be recorded: the recipient, and the event that it
refers to. -/
structure PendingNotification where
  kind : NotificationKind
  toIdentity : String
  target : Option EventKey
  deriving DecidableEq, Repr

/-- Nobody is notified of what they do themselves. -/
def notify (author : String) (kind : NotificationKind) (toIdentity : String)
    (target : Option EventKey) : List PendingNotification :=
  if toIdentity ≠ author then [⟨kind, toIdentity, target⟩] else []

/-- The author of the event is notified of what happened to it. -/
def notifyOwner (author : String) (kind : NotificationKind) (target : Option EventKey) :
    List PendingNotification :=
  target.elim [] fun key => notify author kind key.identity (some key)

/-- The notifications that an event produces. A reply takes precedence over a quote. -/
def buildNotifications (author : String) (content : Content) : List PendingNotification :=
  match content.contentBody with
  | some (.post post) =>
      match post.reply.bind PostReply.parent with
      | some parent => notifyOwner author .reply (some parent)
      | none => notifyOwner author .quote post.quote
  | some (.repost post) => notifyOwner author .repost post
  | some (.reaction reaction) => notifyOwner author .reaction reaction.eventKey
  | some (.follow identity) => notify author .follow identity none
  | some (.verificationTarget claim targetIdentities) =>
      targetIdentities.flatMap fun identity => notify author .verificationRequest identity claim
  | some (.verificationVerify claim) => notifyOwner author .verificationComplete claim
  | _ => []

/-- `KeyColumns`: the columns of a key that may lack a signer. -/
def keyColumns (key : EventKey) : EventKeyParts where
  collection := key.collection.toInt16
  identity := key.identity
  publicKeyType := key.signedBy.elim 0 fun signer => signer.keyType.toInt16
  publicKey := key.signedBy.elim [] PublicKey.key
  sequence := key.sequence.toInt64

/-- The empty key, for notifications without a target. -/
def noKeyColumns : EventKeyParts := ⟨0, "", 0, [], 0⟩

/-- A message of the `events` topic whose event and content decode. -/
structure EventMessage where
  triggerKey : EventKey
  content : Content

/-- The rows of a message. A completed verification counts only if it was requested,
and a recipient that blocks the author gets none. All rows have the kind and the target
of the first notification. -/
def notificationRows (message : EventMessage) (requested : Bool) (blockers : List String)
    (firstId : Int) : List NotificationRow :=
  let notifications := buildNotifications message.triggerKey.identity message.content
  match notifications.head? with
  | none => []
  | some first =>
      if first.kind = .verificationComplete && !requested then []
      else
        let recipients := (notifications.map PendingNotification.toIdentity).filter fun identity =>
          !blockers.contains identity
        recipients.mapIdx fun n toIdentity =>
          { id := firstId + n
            kind := first.kind.value
            fromIdentity := message.triggerKey.identity
            toIdentity := toIdentity
            triggerKey := keyColumns message.triggerKey
            targetEventKey := first.target.elim noKeyColumns keyColumns }

/-- The identities that a row names: the author of the event, the recipient, and the
identities of the two keys. -/
def NotificationRow.Names (row : NotificationRow) (identity : String) : Prop :=
  row.fromIdentity = identity ∨ row.toIdentity = identity ∨ row.triggerKey.identity = identity ∨
    ∃ key, row.targetKey = some key ∧ key.identity = identity

/-- How the columns of a row are related. -/
structure NotificationRow.Related (row : NotificationRow) : Prop where
  trigger : row.triggerKey.identity = row.fromIdentity
  target : row.kind ≠ NotificationKind.verificationRequest.value →
    ∀ key, row.targetKey = some key → key.identity = row.toIdentity

variable {author : String} {content : Content} {kind : NotificationKind} {target : Option EventKey}
  {pending : PendingNotification} {row : NotificationRow}

/-- A notification of the owner of the target, and the only one. -/
def Single (notifications : List PendingNotification) : Prop :=
  notifications = [] ∨ ∃ pending, notifications = [pending] ∧
    ∀ key, pending.target = some key → key.identity = pending.toIdentity

theorem single_notify {toIdentity : String} (h : ∀ key, target = some key → key.identity = toIdentity) :
    Single (notify author kind toIdentity target) := by
  unfold notify
  split
  · exact Or.inr ⟨_, rfl, h⟩
  · exact Or.inl rfl

theorem single_notifyOwner : Single (notifyOwner author kind target) := by
  cases target with
  | none => exact Or.inl rfl
  | some key =>
      refine single_notify ?_
      intro key' hKey
      rw [Option.some.inj hKey]

/-- Only requests of a verification have several recipients, or a target of a third. -/
theorem buildNotifications_cases (author : String) (content : Content) :
    Single (buildNotifications author content) ∨
      ∀ pending ∈ buildNotifications author content, pending.kind = .verificationRequest := by
  unfold buildNotifications
  split
  · left
    split
    · exact single_notifyOwner
    · exact single_notifyOwner
  · exact Or.inl single_notifyOwner
  · exact Or.inl single_notifyOwner
  · exact Or.inl (single_notify nofun)
  · right
    intro pending hPending
    obtain ⟨identity, -, hNotify⟩ := List.mem_flatMap.mp hPending
    unfold notify at hNotify
    split at hNotify
    · rw [List.mem_singleton.mp hNotify]
    · cases hNotify
  · exact Or.inl single_notifyOwner
  · exact Or.inl (Or.inl rfl)

theorem identity_of_targetKey {first : PendingNotification} {key : EventKeyParts}
    (hOwner : ∀ key, first.target = some key → key.identity = first.toIdentity)
    (hTarget : row.targetEventKey = first.target.elim noKeyColumns keyColumns)
    (hKey : row.targetKey = some key) : key.identity = first.toIdentity := by
  unfold NotificationRow.targetKey at hKey
  split at hKey
  · cases hKey
  · next hFilled =>
      obtain rfl := Option.some.inj hKey
      cases hFirst : first.target with
      | none => exact absurd (by rw [hTarget, hFirst]; decide) hFilled
      | some target =>
          rw [hTarget, hFirst]
          exact hOwner target hFirst

theorem related_of_mem_notificationRows {message : EventMessage} {requested : Bool}
    {blockers : List String} {firstId : Int}
    (h : row ∈ notificationRows message requested blockers firstId) : row.Related := by
  unfold notificationRows at h
  dsimp only at h
  split at h
  · cases h
  · next first hFirst =>
      split at h
      · cases h
      · obtain ⟨n, hn, rfl⟩ := List.mem_mapIdx.mp h
        refine ⟨rfl, ?_⟩
        intro hKind key hKey
        have hHead : first ∈ buildNotifications message.triggerKey.identity message.content :=
          List.mem_of_head? hFirst
        rcases buildNotifications_cases message.triggerKey.identity message.content with
          (hNone | ⟨pending, hSingle, hOwner⟩) | hRequests
        · rw [hNone] at hHead
          cases hHead
        · obtain rfl : first = pending := by simpa [hSingle] using hHead
          have hRecipients : ∀ identity ∈ (buildNotifications message.triggerKey.identity
              message.content).map PendingNotification.toIdentity, identity = first.toIdentity := by
            simp [hSingle]
          have hRecipient := hRecipients _ (List.mem_filter.mp (List.getElem_mem hn)).1
          exact (identity_of_targetKey hOwner rfl hKey).trans hRecipient.symm
        · exact absurd (congrArg NotificationKind.value (hRequests first hHead)) hKind

end Polycentric.Server
