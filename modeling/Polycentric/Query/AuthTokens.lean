import Polycentric.Library.Memo
import Polycentric.Library.Runs
import Polycentric.Server.Auth

/-! Auth tokens for outgoing requests: the provider that `polycentric-client.ts` registers,
and the cache of `query/auth.rs`, which keeps each server's token until shortly before it
expires. Requests wait for the provider one by one, and keys and identities may change
meanwhile. -/
namespace Polycentric.Query.AuthTokens

open Proto Memo Runs Server

/-- Stop reusing a cached token this many seconds before it expires. -/
def expiryMarginSeconds : Nat := 60

structure CachedBearer where
  bearer : List Char
  expiresAt : Nat
  deriving DecidableEq, Repr

/-- A token that the provider has minted and not handed over yet. -/
structure Minting where
  serverUrl : String
  now : Nat
  token : List Char
  deriving DecidableEq, Repr

/-- A request that went out, with its `authorization` header. -/
structure Sent where
  serverUrl : String
  authorization : Option (List Char)
  sentAt : Nat
  deriving DecidableEq, Repr

structure Client where
  currentKeyPair : Option KeyPair
  activeIdentityKey : Option String
  tokens : Table String CachedBearer
  /-- The servers of the requests that wait for the provider. -/
  asking : Table Nat String
  minting : Table Nat Minting
  sent : List Sent

def Client.new : Client := ⟨none, none, [], [], [], []⟩

/-- The provider: a token of the active identity, if there are one and a key. -/
def Client.authToken (client : Client) (serverUrl : String) (now : Nat) : Option (List Char) := do
  let keyPair ← client.currentKeyPair
  let iss ← client.activeIdentityKey
  if iss = "" then none else createServerJwt keyPair iss serverUrl now defaultExpirySeconds

inductive Action where
  | setCurrentKeyPair (keyPair : KeyPair)
  | loadActiveIdentityKey (identityKey : Option String)
  | setActiveIdentityKey (identityKey : Option String)
  | request (id : Nat) (serverUrl : String) (now : Nat)
  | provide (id : Nat) (now : Nat)
  | answer (id : Nat) (answeredAt now : Nat)

/-- `bearer_for` up to the call of the provider. -/
def Client.request (client : Client) (id : Nat) (serverUrl : String) (now : Nat) : Client :=
  match client.tokens.get serverUrl with
  | some cached =>
      if now < cached.expiresAt - expiryMarginSeconds then
        { client with sent := client.sent ++ [⟨serverUrl, some cached.bearer, now⟩] }
      else { client with asking := client.asking.insert id serverUrl }
  | none => { client with asking := client.asking.insert id serverUrl }

/-- The provider has its turn. -/
def Client.provide (client : Client) (id : Nat) (now : Nat) : Client :=
  match client.asking.get id with
  | none => client
  | some serverUrl =>
      let client := { client with asking := client.asking.remove id }
      match client.authToken serverUrl now with
      | none => { client with sent := client.sent ++ [⟨serverUrl, none, now⟩] }
      | some token => { client with minting := client.minting.insert id ⟨serverUrl, now, token⟩ }

/-- `bearer_for` from the provider's answer on. When the token expires, the provider has
reckoned after minting it. -/
def Client.answer (client : Client) (id : Nat) (answeredAt now : Nat) : Client :=
  match client.minting.get id with
  | none => client
  | some minting =>
      let bearer := bearerPrefix ++ minting.token
      { client with
        tokens := client.tokens.insert minting.serverUrl ⟨bearer, answeredAt + defaultExpirySeconds⟩
        minting := client.minting.remove id
        sent := client.sent ++ [⟨minting.serverUrl, some bearer, now⟩] }

/-- A new key pair brings its identity with it when that is loaded. Only an identity that is
set explicitly clears the tokens. -/
def Client.step (client : Client) : Action → Client
  | .setCurrentKeyPair keyPair => { client with currentKeyPair := some keyPair }
  | .loadActiveIdentityKey identityKey => { client with activeIdentityKey := identityKey }
  | .setActiveIdentityKey identityKey => { client with activeIdentityKey := identityKey, tokens := [] }
  | .request id serverUrl now => client.request id serverUrl now
  | .provide id now => client.provide id now
  | .answer id answeredAt now => client.answer id answeredAt now

/-! ### Where tokens come from -/

variable (P : Primitives)

/-- Keys that are set are genuine, times are exact in JavaScript, and the provider hands a
token over within `delay` seconds. -/
def Proper (delay : Nat) (client : Client) : Action → Prop
  | .setCurrentKeyPair keyPair => keyPair.Genuine P
  | .provide _ now => now + defaultExpirySeconds < safeIntegers
  | .answer id answeredAt now => ∀ minting, client.minting.get id = some minting →
      answeredAt ≤ minting.now + delay ∧ now ≤ minting.now + delay
  | _ => True

/-- The client had this key pair and this identity at some time. -/
def InSession (history : List (Client × Action)) (keyPair : KeyPair) (iss : String) : Prop :=
  ∃ entry ∈ history, entry.1.currentKeyPair = some keyPair ∧ entry.1.activeIdentityKey = some iss

/-- A session of the client has minted the token for the server at this time. -/
def MintedAt (history : List (Client × Action)) (serverUrl : String) (token : List Char) (now : Nat) : Prop :=
  ∃ keyPair iss, InSession history keyPair iss ∧ keyPair.Genuine P ∧ now + defaultExpirySeconds < safeIntegers ∧
    createServerJwt keyPair iss serverUrl now defaultExpirySeconds = some token

/-- Every token was minted for the server it is kept for and sent to, and is kept and sent
no longer than it lasts. -/
structure Explained (delay : Nat) (history : List (Client × Action)) (client : Client) : Prop where
  keys : ∀ keyPair, client.currentKeyPair = some keyPair → keyPair.Genuine P
  tokens : client.tokens.Coherent fun serverUrl cached => ∃ token now,
    MintedAt P history serverUrl token now ∧ cached.bearer = bearerPrefix ++ token ∧
      cached.expiresAt ≤ now + delay + defaultExpirySeconds
  minting : client.minting.Coherent fun _ minting =>
    MintedAt P history minting.serverUrl minting.token minting.now
  sent : ∀ sent ∈ client.sent, ∀ bearer, sent.authorization = some bearer → ∃ token now,
    MintedAt P history sent.serverUrl token now ∧ bearer = bearerPrefix ++ token ∧
      sent.sentAt + expiryMarginSeconds < now + delay + defaultExpirySeconds

section Invariant

variable {P} {delay : Nat} {history : List (Client × Action)} {client : Client} {action : Action}

theorem MintedAt.later {serverUrl : String} {token : List Char} {now : Nat}
    (h : MintedAt P history serverUrl token now) (entry : Client × Action) :
    MintedAt P (history ++ [entry]) serverUrl token now := by
  obtain ⟨keyPair, iss, ⟨old, hOld, hSession⟩, hMinted⟩ := h
  exact ⟨keyPair, iss, ⟨old, List.mem_append_left _ hOld, hSession⟩, hMinted⟩

/-- The same, after a step that changes nothing of it. -/
theorem Explained.later (h : Explained P delay history client) (entry : Client × Action) :
    Explained P delay (history ++ [entry]) client := by
  constructor
  case keys => exact h.keys
  case tokens =>
    intro serverUrl cached hGet
    obtain ⟨token, now, hMinted, hCached⟩ := h.tokens serverUrl cached hGet
    exact ⟨token, now, hMinted.later entry, hCached⟩
  case minting => exact h.minting.mono fun _ _ hMinted => hMinted.later entry
  case sent =>
    intro sent hSent bearer hBearer
    obtain ⟨token, now, hMinted, hKept⟩ := h.sent sent hSent bearer hBearer
    exact ⟨token, now, hMinted.later entry, hKept⟩

theorem Explained.sends (h : Explained P delay history client) {sent : Sent}
    (hSent : ∀ bearer, sent.authorization = some bearer → ∃ token now,
      MintedAt P history sent.serverUrl token now ∧ bearer = bearerPrefix ++ token ∧
        sent.sentAt + expiryMarginSeconds < now + delay + defaultExpirySeconds) :
    Explained P delay history { client with sent := client.sent ++ [sent] } := by
  refine { h with sent := ?_ }
  intro other hOther
  rcases List.mem_append.mp hOther with hOld | hNew
  · exact h.sent other hOld
  · rw [List.mem_singleton.mp hNew]
    exact hSent

theorem authToken_eq_some {serverUrl : String} {now : Nat} {token : List Char}
    (h : client.authToken serverUrl now = some token) :
    ∃ keyPair iss, client.currentKeyPair = some keyPair ∧ client.activeIdentityKey = some iss ∧
      createServerJwt keyPair iss serverUrl now defaultExpirySeconds = some token := by
  simp only [Client.authToken, Option.bind_eq_bind, Option.bind_eq_some_iff,
    Option.ite_none_left_eq_some] at h
  obtain ⟨keyPair, hKeyPair, iss, hIss, -, hToken⟩ := h
  exact ⟨keyPair, iss, hKeyPair, hIss, hToken⟩

theorem Explained.step (h : Explained P delay history client)
    (hProper : Proper P delay client action) :
    Explained P delay (history ++ [(client, action)]) (client.step action) := by
  have hLater := h.later (client, action)
  cases action with
  | setCurrentKeyPair keyPair =>
      refine { hLater with keys := ?_ }
      intro other hOther
      exact Option.some.inj hOther ▸ hProper
  | loadActiveIdentityKey identityKey => exact { hLater with }
  | setActiveIdentityKey identityKey => exact { hLater with tokens := Table.coherent_nil }
  | request id serverUrl now =>
      simp only [Client.step, Client.request]
      split
      · rename_i cached hCached
        split
        · rename_i hFresh
          apply hLater.sends
          intro bearer hBearer
          obtain rfl := Option.some.inj hBearer
          obtain ⟨token, mintedAt, hMinted, hIs, hKept⟩ := hLater.tokens _ _ hCached
          exact ⟨token, mintedAt, hMinted, hIs, by dsimp only; omega⟩
        · exact { hLater with }
      · exact { hLater with }
  | provide id now =>
      simp only [Client.step, Client.provide]
      split
      · exact hLater
      · rename_i serverUrl hAsking
        have hTaken : Explained P delay (history ++ [(client, .provide id now)])
            { client with asking := client.asking.remove id } := { hLater with }
        split
        · apply hTaken.sends
          intro bearer hBearer
          cases hBearer
        · rename_i token hToken
          obtain ⟨keyPair, iss, hKeyPair, hIss, hCreated⟩ := authToken_eq_some hToken
          have hSession : InSession (history ++ [(client, .provide id now)]) keyPair iss :=
            ⟨(client, .provide id now), List.mem_append_right _ List.mem_cons_self, hKeyPair, hIss⟩
          refine { hTaken with minting := hTaken.minting.insert ?_ }
          exact ⟨keyPair, iss, hSession, h.keys keyPair hKeyPair, hProper, hCreated⟩
  | answer id answeredAt now =>
      simp only [Client.step, Client.answer]
      split
      · exact hLater
      · rename_i minting hMinting
        have hMinted := hLater.minting _ _ hMinting
        obtain ⟨hAnswered, hPrompt⟩ := hProper minting hMinting
        have hSent : Explained P delay (history ++ [(client, .answer id answeredAt now)])
            { client with sent := client.sent ++ [⟨minting.serverUrl, some (bearerPrefix ++ minting.token), now⟩] } := by
          apply hLater.sends
          intro bearer hBearer
          obtain rfl := Option.some.inj hBearer
          refine ⟨minting.token, minting.now, hMinted, rfl, ?_⟩
          simp only [expiryMarginSeconds, defaultExpirySeconds]
          omega
        refine { hSent with tokens := hLater.tokens.insert ?_, minting := ?_ }
        · exact ⟨minting.token, minting.now, hMinted, rfl, Nat.add_le_add_right hAnswered _⟩
        · exact hLater.minting.remove fun _ _ _ hKept => hKept

theorem explained_run {actions : List Action} (hProper : Along Client.step (Proper P delay) Client.new actions) :
    Explained P delay (trace Client.step Client.new actions)
      (run Client.step Client.new actions) := by
  have hNew : Explained P delay [] Client.new := by
    constructor
    case keys => exact nofun
    case tokens => exact Table.coherent_nil
    case minting => exact Table.coherent_nil
    case sent => exact fun _ hMem => absurd hMem List.not_mem_nil
  exact trace_invariant Explained.step hNew hProper

end Invariant

end Polycentric.Query.AuthTokens

namespace Polycentric.TableInstance

open Proto Query.AuthTokens Runs

/-! Alice asks one server twice. -/

end Polycentric.TableInstance

namespace Polycentric.Query.AuthTokens

open TableInstance Runs Server

end Polycentric.Query.AuthTokens
