import Polycentric.Common.Primitives
import Polycentric.Library.Memo
import Polycentric.Library.Runs

/-! The push tokens of `push-notifications`: one row of `push_token` for each public key,
written by requests that the key has signed, read from a replica when a push is sent to the
keys of an identity, and removed when the push service reports the device as gone. Requests
are served while a push waits for its tickets. -/
namespace Polycentric.Push

open Proto Memo Runs LastWord

structure SignedMessage where
  signature : Bytes
  messageBytes : Bytes
  publicKey : Option PublicKey
  deriving DecidableEq, Repr

/-- `RegisterPushNotificationRequest` and `UnregisterPushNotificationRequest`. -/
structure TokenRequest where
  service : String
  token : String
  deriving DecidableEq, Repr

/-- The generated decoders of the two requests. -/
structure Codecs where
  decodeRegister : Bytes → Option TokenRequest
  decodeUnregister : Bytes → Option TokenRequest

inductive RpcError where
  | unauthenticated (message : String)
  | invalidArgument (message : String)
  | unknown (message : String)
  deriving DecidableEq, Repr

/-- `NotificationError`, with the text of the database's error. -/
inductive NotificationError where
  | unknownService (service : String)
  | database (error : String)
  | pushService (error : String)
  deriving DecidableEq, Repr

def NotificationError.toText : NotificationError → String
  | .unknownService service => s!"unknown push service: {service}"
  | .database error => s!"database error: {error}"
  | .pushService error => s!"push service error: {error}"

/-- `PushService::Expo`. -/
def expo : String := "expo"

/-- The primary key of a row. -/
structure TokenKey where
  publicKeyType : Int16
  publicKey : Bytes
  deriving DecidableEq, Repr

/-- The rows of `push_token`: the service and the token of each key. -/
abbrev Tokens := Table TokenKey (String × String)

def tokenKey (publicKey : PublicKey) : TokenKey := ⟨publicKey.keyType.toInt16, publicKey.key⟩

variable (P : Primitives) (codecs : Codecs)

def SignedMessage.open (signed : SignedMessage) : Option (PublicKey × Bytes) := do
  let publicKey ← signed.publicKey
  if publicKey.sigMatches P signed.signature signed.messageBytes then
    return (publicKey, signed.messageBytes)
  else none

/-! ### `repository.rs` -/

def tokenForPublicKey (tokens : Tokens) (publicKey : PublicKey) : Option (String × String) :=
  tokens.get (tokenKey publicKey)

/-- The row of the key, in place of the one it may have. -/
def insertToken (tokens : Tokens) (publicKey : PublicKey) (service token : String) : Tokens :=
  (tokens.remove (tokenKey publicKey)).insert (tokenKey publicKey) (service, token)

/-- Only this very row is deleted. -/
def deleteToken (tokens : Tokens) (publicKey : PublicKey) (service token : String) : Tokens :=
  tokens.filter fun row => ¬(row.1 = tokenKey publicKey ∧ row.2 = (service, token))

/-! ### `rpc/` and `manager.rs` -/

def verifyToken (service : String) : Except NotificationError Unit :=
  if service = expo then .ok () else .error (.unknownService service)

/-- `register_push_notifications`. The database may fail. -/
def registerPushNotifications (tokens : Tokens) (signed : SignedMessage) (dbError : Option String) :
    Tokens × Except RpcError Unit :=
  match signed.open P with
  | none => (tokens, .error (.unauthenticated "invalid signature"))
  | some (publicKey, messageBytes) =>
      match codecs.decodeRegister messageBytes with
      | none => (tokens, .error (.invalidArgument "Argument is not a RegisterPushNotificationRequest"))
      | some request =>
          match verifyToken request.service, dbError with
          | .error error, _ => (tokens, .error (.unknown error.toText))
          | .ok (), some error => (tokens, .error (.unknown (NotificationError.database error).toText))
          | .ok (), none => (insertToken tokens publicKey request.service request.token, .ok ())

/-- `unregister_push_notifications`. -/
def unregisterPushNotifications (tokens : Tokens) (signed : SignedMessage) (dbError : Option String) :
    Tokens × Except RpcError Unit :=
  match signed.open P with
  | none => (tokens, .error (.unauthenticated "invalid signature"))
  | some (publicKey, messageBytes) =>
      match codecs.decodeUnregister messageBytes with
      | none =>
          (tokens, .error (.invalidArgument "Argument is not an UnregisterPushNotificationRequest"))
      | some request =>
          match dbError with
          | some error => (tokens, .error (.unknown (NotificationError.database error).toText))
          | none => (deleteToken tokens publicKey request.service request.token, .ok ())

/-- The relevant data of a push. -/
structure NotificationData where
  collapseId : String
  title : String
  body : String
  data : Option String
  richContent : Option String
  deriving DecidableEq, Repr

/-- `tokens` is the field `to`, a reserved word here. -/
structure ExpoPushRequest where
  tokens : List String
  title : String
  body : String
  collapseId : Option String
  data : Option String
  richContent : Option String
  deriving DecidableEq, Repr

structure ExpoPushTicket where
  status : String
  error : Option String
  deriving DecidableEq, Repr

/-- The registered tokens of the keys, each with the key of its row. Every key is looked up
by itself, in the table that is read then. -/
def expoTokens (read : PublicKey → Tokens) (authorizedKeys : List PublicKey) : List (PublicKey × String) :=
  authorizedKeys.filterMap fun key =>
    (tokenForPublicKey (read key) key).map fun row => (⟨key.keyType.toInt16.toInt32, key.key⟩, row.2)

def expoPushRequest (tokens : List (PublicKey × String)) (notification : NotificationData) :
    ExpoPushRequest where
  tokens := tokens.map Prod.snd
  title := notification.title
  body := notification.body
  collapseId := some notification.collapseId
  data := notification.data
  richContent := notification.richContent

def ExpoPushTicket.isDead (ticket : ExpoPushTicket) : Bool :=
  ticket.status = "error" && ticket.error = some "DeviceNotRegistered"

/-- The tokens that the tickets report as dead. Tickets that do not match the tokens one
by one report nothing. -/
def deadTokens (sent : List (PublicKey × String)) (tickets : List ExpoPushTicket) :
    List (PublicKey × String) :=
  if tickets.length ≠ sent.length then []
  else ((sent.zip tickets).filter fun pair => pair.2.isDead).map Prod.fst

/-- `clean_unregistered_push_tokens`, of which the first few deletions succeed. -/
def cleanUnregisteredPushTokens (tokens : Tokens) (sent : List (PublicKey × String))
    (tickets : List ExpoPushTicket) (deleted : Nat) : Tokens :=
  ((deadTokens sent tickets).take deleted).foldl
    (fun tokens dead => deleteToken tokens dead.1 expo dead.2) tokens

/-! ### Requests, and pushes that wait for their tickets -/

/-- A request that was posted to the push service, with the keys it was posted for. -/
structure Posted where
  authorizedKeys : List PublicKey
  request : ExpoPushRequest
  deriving DecidableEq, Repr

/-- The table as it is, and its earlier versions that the replica may still show. -/
structure Service where
  tokens : Tokens
  past : List Tokens
  sending : List (Nat × List (PublicKey × String))
  posted : List Posted
  deriving DecidableEq, Repr

def Service.new : Service := ⟨[], [], [], []⟩

def Service.write (s : Service) (tokens : Tokens) : Service :=
  { s with tokens := tokens, past := s.tokens :: s.past }

/-- What the replica shows while it is so many versions behind. -/
def Service.shown (s : Service) (lag : Nat) : Tokens := (s.tokens :: s.past)[lag]?.getD s.tokens

inductive Action where
  | register (signed : SignedMessage) (dbError : Option String)
  | unregister (signed : SignedMessage) (dbError : Option String)
  | send (id : Nat) (authorizedKeys : List PublicKey) (lag : PublicKey → Nat)
      (notification : NotificationData)
  | answer (id : Nat) (tickets : Option (List ExpoPushTicket)) (deleted : Nat)

/-- `send_to_identity` up to its request. Nothing is posted without a token. -/
def Service.send (s : Service) (id : Nat) (authorizedKeys : List PublicKey) (lag : PublicKey → Nat)
    (notification : NotificationData) : Service :=
  let tokens := expoTokens (fun key => s.shown (lag key)) authorizedKeys
  if tokens.isEmpty then s
  else { s with
    sending := (id, tokens) :: s.sending
    posted := s.posted ++ [⟨authorizedKeys, expoPushRequest tokens notification⟩] }

/-- `send_to_identity` from its response on. -/
def Service.answer (s : Service) (id : Nat) (tickets : Option (List ExpoPushTicket)) (deleted : Nat) :
    Service :=
  match s.sending.lookup id with
  | none => s
  | some sent =>
      { s.write (tickets.elim s.tokens fun tickets =>
          cleanUnregisteredPushTokens s.tokens sent tickets deleted) with
        sending := s.sending.filter fun entry => entry.1 ≠ id }

def Service.step (s : Service) : Action → Service
  | .register signed dbError =>
      s.write (registerPushNotifications P codecs s.tokens signed dbError).1
  | .unregister signed dbError =>
      s.write (unregisterPushNotifications P codecs s.tokens signed dbError).1
  | .send id authorizedKeys lag notification => s.send id authorizedKeys lag notification
  | .answer id tickets deleted => s.answer id tickets deleted

/-! ### What a step says about a row -/

/-- The row that a signed message registers. -/
def registration (signed : SignedMessage) : Option (TokenKey × String × String) := do
  let (publicKey, messageBytes) ← signed.open P
  let request ← codecs.decodeRegister messageBytes
  if request.service = expo then return (tokenKey publicKey, request.service, request.token) else none

/-- The row that a signed message withdraws. -/
def withdrawal (signed : SignedMessage) : Option (TokenKey × String × String) := do
  let (publicKey, messageBytes) ← signed.open P
  let request ← codecs.decodeUnregister messageBytes
  return (tokenKey publicKey, request.service, request.token)

/-- The step writes the row. -/
def Registers (key : TokenKey) (value : String × String) : Service × Action → Prop
  | (_, .register signed none) => registration P codecs signed = some (key, value)
  | _ => False

/-- The step replaces the row of the key, or removes this very row. -/
def Removes (key : TokenKey) (value : String × String) : Service × Action → Prop
  | (_, .register signed none) => ∃ other, registration P codecs signed = some (key, other)
  | (_, .unregister signed none) => withdrawal P codecs signed = some (key, value)
  | (s, .answer id (some tickets) deleted) => ∃ sent, s.sending.lookup id = some sent ∧
      ∃ dead ∈ (deadTokens sent tickets).take deleted, tokenKey dead.1 = key ∧ (expo, dead.2) = value
  | _ => False

@[simp] theorem Service.write_tokens (s : Service) (tokens : Tokens) : (s.write tokens).tokens = tokens := rfl

/-- What is read was there at some time, or is there now. -/
theorem Service.shown_mem (s : Service) (lag : Nat) : s.shown lag ∈ s.tokens :: s.past := by
  unfold shown
  cases hGet : (s.tokens :: s.past)[lag]? with
  | none => exact List.mem_cons_self
  | some tokens => exact List.mem_of_getElem? hGet

variable {P codecs} {tokens : Tokens} {key : TokenKey} {value : String × String} {signed : SignedMessage}
  {dbError : Option String} {publicKey : PublicKey} {service token : String}

/-- Each key has one row. -/
def Keyed (tokens : Tokens) : Prop := (tokens.map Prod.fst).Nodup

theorem Keyed.filter (h : Keyed tokens) (keep : TokenKey × String × String → Bool) :
    Keyed (List.filter keep tokens) :=
  h.sublist ((List.filter_sublist).map _)

/-- A key has the value of its only entry. -/
theorem Keyed.get_iff (h : Keyed tokens) : tokens.get key = some value ↔ (key, value) ∈ tokens := by
  constructor
  · intro hGet
    obtain ⟨before, after, hSplit, -⟩ := List.lookup_eq_some_iff.mp hGet
    rw [hSplit]
    exact List.mem_append_right _ List.mem_cons_self
  · intro hMem
    obtain ⟨before, after, rfl⟩ := List.append_of_mem hMem
    refine List.lookup_eq_some_iff.mpr ⟨before, after, rfl, ?_⟩
    intro row hRow
    rw [Keyed, List.map_append] at h
    have hApart := (List.nodup_append.mp h).2.2 row.1 (List.mem_map_of_mem hRow)
      key (List.mem_map_of_mem List.mem_cons_self)
    simpa using Ne.symm hApart

theorem Keyed.insertToken (h : Keyed tokens) : Keyed (insertToken tokens publicKey service token) := by
  refine List.nodup_cons.mpr ⟨?_, h.filter _⟩
  intro hMem
  obtain ⟨row, hRow, hKey⟩ := List.mem_map.mp hMem
  simpa [hKey] using (List.mem_filter.mp hRow).2

/-- A registration takes the place of the one before it. -/
theorem get_insertToken :
    (insertToken tokens publicKey service token).get key = some value ↔
      (key, value) = (tokenKey publicKey, service, token) ∨
        tokens.get key = some value ∧ key ≠ tokenKey publicKey := by
  unfold insertToken
  by_cases hKey : key = tokenKey publicKey
  · subst hKey
    simp [Table.get_insert_self, eq_comm]
  · simp [Table.get_insert_other hKey, Table.get_remove, hKey]

/-- A withdrawal takes the entry with its own token only. -/
theorem Keyed.get_deleteToken (h : Keyed tokens) :
    (deleteToken tokens publicKey service token).get key = some value ↔
      tokens.get key = some value ∧ ¬(key = tokenKey publicKey ∧ value = (service, token)) := by
  have hKept : Keyed (deleteToken tokens publicKey service token) := h.filter _
  rw [hKept.get_iff, h.get_iff, deleteToken, List.mem_filter, decide_eq_true_iff]

/-- A registration writes one row, or it is refused and nothing changes. -/
theorem register_cases (P : Primitives) (codecs : Codecs) (tokens : Tokens) (signed : SignedMessage)
    (dbError : Option String) :
    (∃ publicKey service token, dbError = none ∧
        registration P codecs signed = some (tokenKey publicKey, service, token) ∧
        (registerPushNotifications P codecs tokens signed dbError).1 =
          insertToken tokens publicKey service token) ∨
      (dbError = none → registration P codecs signed = none) ∧
        (registerPushNotifications P codecs tokens signed dbError).1 = tokens := by
  unfold registerPushNotifications registration
  cases hOpen : signed.open P with
  | none => exact Or.inr ⟨fun _ => rfl, rfl⟩
  | some opened =>
      obtain ⟨publicKey, messageBytes⟩ := opened
      cases hDecode : codecs.decodeRegister messageBytes with
      | none => exact Or.inr ⟨fun _ => by simp [hDecode], by simp [hDecode]⟩
      | some request =>
          by_cases hService : request.service = expo
          · cases dbError with
            | none =>
                refine Or.inl ⟨publicKey, request.service, request.token, rfl, ?_, ?_⟩
                · simp [hDecode, hService]
                · simp [hDecode, verifyToken, hService]
            | some error => exact Or.inr ⟨nofun, by simp [hDecode, verifyToken, hService]⟩
          · exact Or.inr ⟨fun _ => by simp [hDecode, hService], by simp [hDecode, verifyToken, hService]⟩

/-- A withdrawal that is genuine takes its token, and any other changes nothing. -/
theorem unregister_cases (P : Primitives) (codecs : Codecs) (tokens : Tokens) (signed : SignedMessage)
    (dbError : Option String) :
    (∃ publicKey service token, dbError = none ∧
        withdrawal P codecs signed = some (tokenKey publicKey, service, token) ∧
        (unregisterPushNotifications P codecs tokens signed dbError).1 =
          deleteToken tokens publicKey service token) ∨
      (dbError = none → withdrawal P codecs signed = none) ∧
        (unregisterPushNotifications P codecs tokens signed dbError).1 = tokens := by
  unfold unregisterPushNotifications withdrawal
  cases hOpen : signed.open P with
  | none => exact Or.inr ⟨fun _ => rfl, rfl⟩
  | some opened =>
      obtain ⟨publicKey, messageBytes⟩ := opened
      cases hDecode : codecs.decodeUnregister messageBytes with
      | none => exact Or.inr ⟨fun _ => by simp [hDecode], by simp [hDecode]⟩
      | some request =>
          cases dbError with
          | none =>
              refine Or.inl ⟨publicKey, request.service, request.token, rfl, ?_, ?_⟩
              · simp [hDecode]
              · simp [hDecode]
          | some error => exact Or.inr ⟨nofun, by simp [hDecode]⟩

/-- Only tokens of the one known service are registered. -/
theorem service_of_registration (h : registration P codecs signed = some (key, value)) :
    value.1 = expo := by
  simp only [registration, Option.bind_eq_bind, Option.bind_eq_some_iff] at h
  obtain ⟨opened, -, request, -, hRow⟩ := h
  split at hRow
  · next hService =>
      obtain ⟨-, rfl⟩ := Prod.mk.inj (Option.some.inj hRow)
      exact hService
  · cases hRow

theorem Keyed.cleanUnregisteredPushTokens (h : Keyed tokens) (sent : List (PublicKey × String))
    (tickets : List ExpoPushTicket) (deleted : Nat) :
    Keyed (cleanUnregisteredPushTokens tokens sent tickets deleted) := by
  unfold Push.cleanUnregisteredPushTokens
  induction (deadTokens sent tickets).take deleted generalizing tokens with
  | nil => exact h
  | cons first rest ih => exact ih (h.filter _)

/-- The clean-up removes exactly the rows that were reported. -/
theorem Keyed.get_cleanUnregisteredPushTokens (h : Keyed tokens) (sent : List (PublicKey × String))
    (tickets : List ExpoPushTicket) (deleted : Nat) :
    (Push.cleanUnregisteredPushTokens tokens sent tickets deleted).get key = some value ↔
      tokens.get key = some value ∧ ¬∃ dead ∈ (deadTokens sent tickets).take deleted,
        tokenKey dead.1 = key ∧ (expo, dead.2) = value := by
  unfold Push.cleanUnregisteredPushTokens
  induction (deadTokens sent tickets).take deleted generalizing tokens with
  | nil => simp
  | cons first rest ih =>
      have hKeyed : Keyed (deleteToken tokens first.1 expo first.2) := h.filter _
      refine (ih hKeyed).trans ?_
      rw [h.get_deleteToken, and_assoc]
      refine and_congr_right fun _ => ?_
      rw [← not_or]
      refine not_congr ?_
      rw [eq_comm (a := key), eq_comm (a := value)]
      simp only [List.mem_cons, exists_eq_or_imp]

/-- What a step does to a row: it stays unless the step removes it, and it appears if the
step registers it. -/
theorem Service.step_tokens {s : Service} (h : Keyed s.tokens) (action : Action) :
    Keyed (s.step P codecs action).tokens ∧
      ∀ key value, (s.step P codecs action).tokens.get key = some value ↔
        Registers P codecs key value (s, action) ∨
          s.tokens.get key = some value ∧ ¬Removes P codecs key value (s, action) := by
  cases action with
  | register signed dbError =>
      rcases register_cases P codecs s.tokens signed dbError with
        ⟨publicKey, service, token, rfl, hRegistration, hEq⟩ | ⟨hRefused, hEq⟩
      · simp only [step, write_tokens, hEq, Registers, Removes, hRegistration]
        refine ⟨h.insertToken, fun key value => get_insertToken.trans ?_⟩
        refine or_congr ?_ (and_congr_right fun _ => not_congr ?_)
        · rw [eq_comm, Option.some.injEq]
        · simp [eq_comm]
      · simp only [step, write_tokens, hEq]
        refine ⟨h, fun key value => ?_⟩
        cases dbError with
        | none => simp [Registers, Removes, hRefused rfl]
        | some error => simp [Registers, Removes]
  | unregister signed dbError =>
      rcases unregister_cases P codecs s.tokens signed dbError with
        ⟨publicKey, service, token, rfl, hWithdrawal, hEq⟩ | ⟨hRefused, hEq⟩
      · simp only [step, write_tokens, hEq, Registers, Removes, hWithdrawal, false_or]
        refine ⟨h.filter _, fun key value => h.get_deleteToken.trans ?_⟩
        simp [eq_comm]
      · simp only [step, write_tokens, hEq]
        refine ⟨h, fun key value => ?_⟩
        cases dbError with
        | none => simp [Registers, Removes, hRefused rfl]
        | some error => simp [Registers, Removes]
  | send id authorizedKeys lag notification =>
      have hSame : (s.send id authorizedKeys lag notification).tokens = s.tokens := by
        dsimp only [send]
        split
        · rfl
        · rfl
      simp [step, hSame, h, Registers, Removes]
  | answer id tickets deleted =>
      simp only [step, answer]
      cases hSent : s.sending.lookup id with
      | none =>
          refine ⟨h, fun key value => ?_⟩
          cases tickets with
          | none => simp [Registers, Removes]
          | some tickets => simp [Registers, Removes, hSent]
      | some sent =>
          cases tickets with
          | none => exact ⟨h, fun key value => by simp [Registers, Removes]⟩
          | some tickets =>
              refine ⟨h.cleanUnregisteredPushTokens sent tickets deleted, fun key value => ?_⟩
              refine (h.get_cleanUnregisteredPushTokens sent tickets deleted).trans ?_
              simp [Registers, Removes, hSent]

/-! ### Whole runs -/

/-- The versions that the replica may show are the table as it is, and those before. -/
theorem Service.past_step {s : Service} {action : Action} :
    (s.step P codecs action).past ⊆ s.tokens :: s.past := by
  have hOld : s.past ⊆ s.tokens :: s.past := List.subset_cons_self _ _
  cases action with
  | register signed dbError => exact List.Subset.refl _
  | unregister signed dbError => exact List.Subset.refl _
  | send id authorizedKeys lag notification =>
      dsimp only [step, send]
      split
      · exact hOld
      · exact hOld
  | answer id tickets deleted =>
      dsimp only [step, answer]
      split
      · exact hOld
      · exact List.Subset.refl _

/-- What the rows, and the requests that were posted, go back to. -/
structure Service.Explained (P : Primitives) (codecs : Codecs) (history : List (Service × Action))
    (s : Service) : Prop where
  keyed : Keyed s.tokens
  stands : ∀ key value, s.tokens.get key = some value ↔
    Stands (Registers P codecs key value) (Removes P codecs key value) history
  past : ∀ table ∈ s.past, ∀ key value, table.get key = some value →
    ∃ entry ∈ history, Registers P codecs key value entry
  posted : ∀ posted ∈ s.posted, ∀ token ∈ posted.request.tokens, ∃ publicKey ∈ posted.authorizedKeys,
    ∃ entry ∈ history, Registers P codecs (tokenKey publicKey) (expo, token) entry

theorem service_of_registers {entry : Service × Action} (h : Registers P codecs key value entry) :
    value.1 = expo := by
  obtain ⟨s, action⟩ := entry
  cases action with
  | register signed dbError =>
      cases dbError with
      | none => exact service_of_registration h
      | some error => exact h.elim
  | unregister signed dbError => exact h.elim
  | send id authorizedKeys lag notification => exact h.elim
  | answer id tickets deleted => exact h.elim

/-- A request goes to tokens that the replica shows when it is posted. -/
theorem Service.mem_posted_step {s : Service} {action : Action} {posted : Posted}
    (h : posted ∈ (s.step P codecs action).posted) :
    posted ∈ s.posted ∨ ∀ token ∈ posted.request.tokens, ∃ publicKey ∈ posted.authorizedKeys,
      ∃ table ∈ s.tokens :: s.past, ∃ service,
        table.get (tokenKey publicKey) = some (service, token) := by
  cases action with
  | register signed dbError => exact Or.inl h
  | unregister signed dbError => exact Or.inl h
  | send id authorizedKeys lag notification =>
      dsimp only [step, send] at h
      split at h
      · exact Or.inl h
      · rcases List.mem_append.mp h with hOld | hNew
        · exact Or.inl hOld
        · right
          rw [List.mem_singleton.mp hNew]
          intro token hToken
          obtain ⟨sent, hSent, rfl⟩ := List.mem_map.mp hToken
          obtain ⟨publicKey, hKey, hRow⟩ := List.mem_filterMap.mp hSent
          obtain ⟨row, hGet, rfl⟩ := Option.map_eq_some_iff.mp hRow
          exact ⟨publicKey, hKey, _, s.shown_mem _, row.1, hGet⟩
  | answer id tickets deleted =>
      dsimp only [step, answer] at h
      split at h
      · exact Or.inl h
      · exact Or.inl h

/-- A token comes into the table by a registration only, and the replica shows what was in the
table. -/
theorem Service.Explained.step {history : List (Service × Action)} {s : Service}
    (h : s.Explained P codecs history) (action : Action) :
    (s.step P codecs action).Explained P codecs (history ++ [(s, action)]) := by
  obtain ⟨hKeyed, hTokens⟩ := Service.step_tokens h.keyed action
  have hShown : ∀ table ∈ s.tokens :: s.past, ∀ key value, table.get key = some value →
      ∃ entry ∈ history ++ [(s, action)], Registers P codecs key value entry := by
    intro table hTable key value hGet
    have hSaid : ∃ entry ∈ history, Registers P codecs key value entry := by
      rcases List.mem_cons.mp hTable with rfl | hPast
      · exact ((h.stands key value).mp hGet).said
      · exact h.past table hPast key value hGet
    obtain ⟨entry, hEntry, hRegisters⟩ := hSaid
    exact ⟨entry, List.mem_append_left _ hEntry, hRegisters⟩
  refine ⟨hKeyed, ?_, fun table hTable => hShown table (Service.past_step hTable), ?_⟩
  · intro key value
    rw [hTokens, h.stands, stands_append_singleton]
  · intro posted hPosted token hToken
    rcases Service.mem_posted_step hPosted with hOld | hNew
    · obtain ⟨publicKey, hKey, entry, hEntry, hRegisters⟩ := h.posted posted hOld token hToken
      exact ⟨publicKey, hKey, entry, List.mem_append_left _ hEntry, hRegisters⟩
    · obtain ⟨publicKey, hKey, table, hTable, service, hGet⟩ := hNew token hToken
      obtain ⟨entry, hEntry, hRegisters⟩ := hShown table hTable _ _ hGet
      obtain rfl : service = expo := service_of_registers hRegisters
      exact ⟨publicKey, hKey, entry, hEntry, hRegisters⟩

/-- In every run each token goes back to a registration. -/
theorem explained_run (P : Primitives) (codecs : Codecs) (actions : List Action) :
    (run (Service.step P codecs) Service.new actions).Explained P codecs
      (trace (Service.step P codecs) Service.new actions) := by
  have hNew : Service.new.Explained P codecs [] := by
    refine ⟨List.nodup_nil, ?_, ?_, ?_⟩
    · exact fun key value => iff_of_false nofun not_stands_nil
    · exact fun _ hMem => absurd hMem List.not_mem_nil
    · exact fun _ hMem => absurd hMem List.not_mem_nil
  exact trace_invariant (fun h (_ : True) => h.step _) hNew (along_true _ actions)

/-- A key has the token that its last accepted registration gave it, unless the key has
withdrawn this token since, or the tickets of a push have reported it as dead and it could
be deleted: another token that is registered while a push waits for its tickets is never
lost to them. -/
theorem token_stands_iff (P : Primitives) (codecs : Codecs) (actions : List Action) (key : TokenKey)
    (value : String × String) :
    (run (Service.step P codecs) Service.new actions).tokens.get key = some value ↔
      Stands (Registers P codecs key value) (Removes P codecs key value)
        (trace (Service.step P codecs) Service.new actions) :=
  (explained_run P codecs actions).stands key value

/-- A push goes to nobody else: each token that a request was ever posted to was registered
before, in a message signed by one of the keys that the push was for. -/
theorem posted_only_registered (P : Primitives) (codecs : Codecs) (actions : List Action) :
    ∀ posted ∈ (run (Service.step P codecs) Service.new actions).posted,
      ∀ token ∈ posted.request.tokens, ∃ publicKey ∈ posted.authorizedKeys,
        ∃ entry ∈ trace (Service.step P codecs) Service.new actions,
          Registers P codecs (tokenKey publicKey) (expo, token) entry :=
  (explained_run P codecs actions).posted

end Polycentric.Push

namespace Polycentric.TableInstance

open Push

/-! Bob registers a device and is sent a push. -/

def deviceCodecs : Codecs :=
  ⟨fun bytes => if bytes = [7] then some ⟨expo, "device"⟩ else none, fun _ => none⟩

def deviceActions : List Push.Action :=
  [.register ⟨sign (key 2).key [7], [7], some (key 2)⟩ none,
    .send 0 [key 2] (fun _ => 0) ⟨"collapse", "hello", "text", none, none⟩]

def devicePosted : Posted := ⟨[key 2], ⟨["device"], "hello", "text", some "collapse", none, none⟩⟩

end Polycentric.TableInstance

namespace Polycentric.Push

open Runs TableInstance

theorem posted_only_registered_device :
    ∃ publicKey ∈ devicePosted.authorizedKeys,
      ∃ entry ∈ trace (Service.step (primitives [] []) deviceCodecs) Service.new deviceActions,
        Registers (primitives [] []) deviceCodecs (tokenKey publicKey) (expo, "device") entry :=
  posted_only_registered (primitives [] []) deviceCodecs deviceActions devicePosted (by decide +kernel)
    "device" (by decide +kernel)

end Polycentric.Push
