import Polycentric.Common.Identity
import Polycentric.Library.Memo
import Polycentric.Library.Result
import Polycentric.Library.Runs

/-! Pairing sessions on the client, `pairing.rs` and `store/pairing_store.rs`. A server
may answer with any state of a session that the issuer ever signed, and the client
remembers the highest sequence it has seen. -/
namespace Polycentric.Client.Pairing

open Proto Memo Result Runs

structure PairingSessionDigest where
  issuerIdentity : String
  issuerSigner : Option PublicKey
  nonce : Bytes
  initialTimestamp : Int64
  ttlMillis : Int64
  deriving DecidableEq, Repr

structure IssuerPairingState where
  sessionDigest : Bytes
  identityState : Option EventBundle
  sequence : Int64
  deriving DecidableEq, Repr

structure SignedIssuerState where
  stateBytes : Bytes
  signature : Bytes
  deriving DecidableEq, Repr

structure PairingSessionState where
  issuerState : Option SignedIssuerState
  claimers : List PublicKey
  deriving DecidableEq, Repr

/-- The generated codecs of these messages. -/
structure Codec where
  decodeSignedIssuerState : Bytes → Except String SignedIssuerState
  decodeIssuerPairingState : Bytes → Except String IssuerPairingState
  decodePairingSessionDigest : Bytes → Except String PairingSessionDigest
  encodePairingSessionState : PairingSessionState → Bytes

/-- The errors of the interface that pairing returns. -/
inductive ApiError where
  | invalidInput (message : String)
  | decode (message : String)
  | network (message : String)
  deriving DecidableEq, Repr

/-! ### The store -/

/-- Maps the hash of a session digest to the highest sequence that was seen for it. -/
abbrev PairingStore := Table Bytes Int64

namespace PairingStore

/-- The least sequence that does not roll back state. -/
def floor (store : PairingStore) (digestSha256 : Bytes) : Int64 := (store.get digestSha256).getD 1

/-- Check a candidate sequence, and record it. -/
def trySequence (store : PairingStore) (digestSha256 : Bytes) (sequence : Int64) : Bool × PairingStore :=
  if sequence < store.floor digestSha256 then (false, store)
  else (true, store.insert digestSha256 sequence)

/-- Ensure that the floor is at least `sequence`. -/
def acceptSequence (store : PairingStore) (digestSha256 : Bytes) (sequence : Int64) : PairingStore :=
  if store.floor digestSha256 < sequence then store.insert digestSha256 sequence else store

end PairingStore

section Calls

variable (codec : Codec) (P : Primitives)

/-- Decode the payload and verify the signature against the key in the digest. -/
def SignedIssuerState.openSigned (signed : SignedIssuerState) :
    Except CoreError (PublicKey × PairingSessionDigest × IssuerPairingState) := do
  let state ← (codec.decodeIssuerPairingState signed.stateBytes).mapError fun e =>
    .deserializationError s!"Unable to deserialize IssuerPairingState: {e}"
  let digest ← (codec.decodePairingSessionDigest state.sessionDigest).mapError fun e =>
    .deserializationError s!"Unable to deserialize PairingSessionDigest: {e}"
  let signer ← okOr digest.issuerSigner
    (.deserializationError "Pairing session digest has no issuer_signer")
  if signer.sigMatches P signed.signature signed.stateBytes then .ok (signer, digest, state)
  else .error (.signatureError "issuer pairing state signature is invalid")

structure SessionState where
  raw : PairingSessionState
  digest : PairingSessionDigest
  issuerState : IssuerPairingState
  deriving DecidableEq, Repr

structure OpenOptions where
  nowMillis : Option Int64
  minSequence : Option Int64

/-- `i64::checked_add` -/
def checkedAdd (a b : Int64) : Option Int64 :=
  if Int64.minValue.toInt ≤ a.toInt + b.toInt ∧ a.toInt + b.toInt ≤ Int64.maxValue.toInt then some (a + b)
  else none

/-- What `open_state` does before it looks at the sequence: the state must be signed and
belong to the session. -/
def verifyState (state : PairingSessionState) (digestSha256 : Bytes) :
    Except ApiError (PairingSessionDigest × IssuerPairingState) := do
  let issuerMsg ← okOr state.issuerState (.invalidInput "pairing session has no issuer state")
  let (_signer, digest, issuerState) ← (issuerMsg.openSigned codec P).mapError fun
    | .signatureError _ => .invalidInput "pairing session issuer state signature is invalid"
    | other => .decode s!"Failed to decode issuer pairing state: {coreErrorText other}"
  if digestSha256 = (P.sha256 issuerState.sessionDigest).val then .ok (digest, issuerState)
  else .error (.invalidInput "pairing session digest does not match the requested session")

def verifyLiveness (nowMillis : Int64) (digest : PairingSessionDigest) : Except ApiError Unit := do
  let expiresAtMillis ← okOr (checkedAdd digest.initialTimestamp digest.ttlMillis)
    (.invalidInput "pairing session expiration overflows")
  if expiresAtMillis < nowMillis then .error (.invalidInput "pairing session has expired") else .ok ()

/-- The store with the sequence that the caller passes recorded. -/
def recordMin (opts : Option OpenOptions) (digestSha256 : Bytes) (store : PairingStore) : PairingStore :=
  (opts.bind OpenOptions.minSequence).elim store (store.acceptSequence digestSha256)

/-- Validate the session state and extract its data. `clock` is the current time. -/
def openState (clock : Int64) (state : PairingSessionState) (digestSha256 : Bytes)
    (opts : Option OpenOptions) (store : PairingStore) : Except ApiError SessionState × PairingStore :=
  let nowMillis := (opts.bind OpenOptions.nowMillis).getD clock
  match verifyState codec P state digestSha256 with
  | .error e => (.error e, store)
  | .ok (digest, issuerState) =>
      let (accepted, tried) :=
        (recordMin opts digestSha256 store).trySequence digestSha256 issuerState.sequence
      let result := do
        if !accepted then .error (.invalidInput "pairing session state sequence is stale")
        verifyLiveness nowMillis digest
        return ⟨state, digest, issuerState⟩
      (result, tried)

/-- How a request to the server ends. -/
inductive Reply where
  | noChannel (error : String)
  | failed (error : String)
  | answered (sessionState : Option PairingSessionState)

/-- The session state of a reply. `call` is the name of the request in errors. -/
def Reply.sessionState (call : String) : Reply → Except ApiError PairingSessionState
  | .noChannel e => .error (.network e)
  | .failed e => .error (.network s!"{call}: {e}")
  | .answered sessionState => okOr sessionState (.network s!"{call}: missing session state")

/-- What `put` reads of its own state before it sends it: the hash of the session digest,
and the sequence. -/
def readOwnState (signedIssuerState : Bytes) : Except ApiError (Bytes × Int64) := do
  let signed ← (codec.decodeSignedIssuerState signedIssuerState).mapError fun e =>
    .decode s!"Failed to decode SignedIssuerState: {e}"
  let issuerState ← (codec.decodeIssuerPairingState signed.stateBytes).mapError fun e =>
    .decode s!"Failed to decode IssuerPairingState: {e}"
  return ((P.sha256 issuerState.sessionDigest).val, issuerState.sequence)

/-- Create or update a session's state on the server. -/
def put (clock : Int64) (signedIssuerState : Bytes) (reply : Reply) (store : PairingStore) :
    Except ApiError Bytes × PairingStore :=
  let request := do
    let (digestSha256, sequence) ← readOwnState codec P signedIssuerState
    return (digestSha256, sequence, ← reply.sessionState "put_pairing_session")
  match request with
  | .error e => (.error e, store)
  | .ok (digestSha256, sequence, responseState) =>
      let (state, store) := openState codec P clock responseState digestSha256 (some ⟨none, some sequence⟩) store
      (state.map fun state => codec.encodePairingSessionState state.raw, store)

def join (clock : Int64) (digestSha256 : Bytes) (claimerKey : PublicKey) (reply : Reply)
    (store : PairingStore) : Except ApiError Unit × PairingStore :=
  match reply.sessionState "join_pairing_session" with
  | .error e => (.error e, store)
  | .ok sessionState =>
      let (state, store) := openState codec P clock sessionState digestSha256 none store
      let result := do
        let state ← state
        if claimerKey ∈ state.raw.claimers then .ok ()
        else .error (.invalidInput "claimer key is not registered on the pairing session")
      (result, store)

inductive Call where
  | openState (clock : Int64) (state : PairingSessionState) (digestSha256 : Bytes) (opts : Option OpenOptions)
  | put (clock : Int64) (signedIssuerState : Bytes) (reply : Reply)
  | join (clock : Int64) (digestSha256 : Bytes) (claimerKey : PublicKey) (reply : Reply)

/-- The store after a call. -/
def step (store : PairingStore) : Call → PairingStore
  | .openState clock state digestSha256 opts => (openState codec P clock state digestSha256 opts store).2
  | .put clock signedIssuerState reply => (put codec P clock signedIssuerState reply store).2
  | .join clock digestSha256 claimerKey reply => (join codec P clock digestSha256 claimerKey reply store).2

/-- The validation that a call asks for: the time, the state, the session and the options. -/
def Call.opening : Call → Option (Int64 × PairingSessionState × Bytes × Option OpenOptions)
  | .openState clock state digestSha256 opts => some (clock, state, digestSha256, opts)
  | .put clock signedIssuerState reply =>
      match readOwnState codec P signedIssuerState, reply.sessionState "put_pairing_session" with
      | .ok (digestSha256, sequence), .ok state => some (clock, state, digestSha256, some ⟨none, some sequence⟩)
      | _, _ => none
  | .join clock digestSha256 _ reply =>
      (reply.sessionState "join_pairing_session").toOption.map fun state => (clock, state, digestSha256, none)

end Calls

/-! ### The floor -/

namespace PairingStore

variable (store : PairingStore) (digestSha256 other : Bytes) (sequence : Int64)

theorem floor_insert_self : floor (store.insert digestSha256 sequence) digestSha256 = sequence := by
  rw [floor, Table.get_insert_self]
  rfl

theorem floor_insert_other (h : other ≠ digestSha256) :
    floor (store.insert digestSha256 sequence) other = store.floor other := by
  rw [floor, Table.get_insert_other h]
  rfl

/-- No floor sinks when a sequence above it is put in its place. -/
theorem floor_le_insert (h : store.floor digestSha256 ≤ sequence) :
    store.floor other ≤ floor (store.insert digestSha256 sequence) other := by
  by_cases hOther : other = digestSha256
  · rw [hOther, floor_insert_self]
    exact h
  · rw [floor_insert_other _ _ _ _ hOther]
    exact Int64.le_refl _

theorem floor_le_acceptSequence :
    store.floor other ≤ (store.acceptSequence digestSha256 sequence).floor other := by
  unfold acceptSequence
  split
  · next hLt => exact floor_le_insert _ _ _ _ (Int64.le_of_lt hLt)
  · exact Int64.le_refl _

theorem le_floor_acceptSequence :
    sequence ≤ (store.acceptSequence digestSha256 sequence).floor digestSha256 := by
  unfold acceptSequence
  split
  · rw [floor_insert_self]
    exact Int64.le_refl _
  · next hNot => exact Int64.not_lt.mp hNot

theorem floor_le_trySequence :
    store.floor other ≤ (store.trySequence digestSha256 sequence).2.floor other := by
  unfold trySequence
  split
  · exact Int64.le_refl _
  · next hNot => exact floor_le_insert _ _ _ _ (Int64.not_lt.mp hNot)

/-- A sequence that passes is not below the floor, and becomes the floor. -/
theorem trySequence_passes (h : (store.trySequence digestSha256 sequence).1 = true) :
    store.floor digestSha256 ≤ sequence ∧
      (store.trySequence digestSha256 sequence).2.floor digestSha256 = sequence := by
  unfold trySequence at h ⊢
  split
  · next hLt => simp [hLt] at h
  · next hNot => exact ⟨Int64.not_lt.mp hNot, floor_insert_self _ _ _⟩

end PairingStore

/-! ### One call -/

section Step

open PairingStore

variable {codec : Codec} {P : Primitives} {clock : Int64} {state : PairingSessionState}
  {digestSha256 other : Bytes} {opts : Option OpenOptions} {store : PairingStore}

theorem floor_le_recordMin : store.floor other ≤ (recordMin opts digestSha256 store).floor other := by
  unfold recordMin
  cases opts.bind OpenOptions.minSequence with
  | none => exact Int64.le_refl _
  | some sequence => exact floor_le_acceptSequence _ _ _ _

theorem le_floor_recordMin {sequence : Int64} (h : opts.bind OpenOptions.minSequence = some sequence) :
    sequence ≤ (recordMin opts digestSha256 store).floor digestSha256 := by
  rw [recordMin, h]
  exact le_floor_acceptSequence _ _ _

/-- A state that does not verify leaves the store alone. Otherwise the caller's sequence is
recorded, and then that of the state is tried, whether or not the session has expired. -/
theorem openState_cases :
    ((openState codec P clock state digestSha256 opts store).2 = store ∧
      (verifyState codec P state digestSha256).isOk = false ∧
      (openState codec P clock state digestSha256 opts store).1.isOk = false) ∨
    ∃ digest issuerState, verifyState codec P state digestSha256 = .ok (digest, issuerState) ∧
      (openState codec P clock state digestSha256 opts store).2 =
        ((recordMin opts digestSha256 store).trySequence digestSha256 issuerState.sequence).2 ∧
      ∀ session, (openState codec P clock state digestSha256 opts store).1 = .ok session →
        session.issuerState = issuerState ∧
          ((recordMin opts digestSha256 store).trySequence digestSha256 issuerState.sequence).1 = true := by
  unfold openState
  cases hVerify : verifyState codec P state digestSha256 with
  | error e => exact Or.inl ⟨rfl, rfl, rfl⟩
  | ok opened =>
      obtain ⟨digest, issuerState⟩ := opened
      refine Or.inr ⟨digest, issuerState, rfl, rfl, fun session hOk => ?_⟩
      dsimp only at hOk
      cases hTry : ((recordMin opts digestSha256 store).trySequence digestSha256 issuerState.sequence).1 with
      | false =>
          rw [hTry] at hOk
          cases hOk
      | true =>
          rw [hTry] at hOk
          cases hLive : verifyLiveness ((opts.bind OpenOptions.nowMillis).getD clock) digest with
          | error e =>
              rw [hLive] at hOk
              cases hOk
          | ok _ =>
              rw [hLive] at hOk
              cases hOk
              exact ⟨rfl, rfl⟩

theorem floor_le_openState :
    store.floor other ≤ (openState codec P clock state digestSha256 opts store).2.floor other := by
  rcases @openState_cases codec P clock state digestSha256 opts store with ⟨hStore, -⟩ | ⟨_, _, -, hStore, -⟩
  · rw [hStore]
    exact Int64.le_refl _
  · rw [hStore]
    exact Int64.le_trans floor_le_recordMin (floor_le_trySequence _ _ _ _)

/-- An accepted sequence is at least the floor and the caller's sequence, and the floor
after it. -/
theorem openState_accepts {session : SessionState}
    (h : (openState codec P clock state digestSha256 opts store).1 = .ok session) :
    store.floor digestSha256 ≤ session.issuerState.sequence ∧
      (∀ sequence, opts.bind OpenOptions.minSequence = some sequence → sequence ≤ session.issuerState.sequence) ∧
      (openState codec P clock state digestSha256 opts store).2.floor digestSha256 =
        session.issuerState.sequence := by
  rcases @openState_cases codec P clock state digestSha256 opts store with ⟨-, -, hError⟩ | ⟨_, _, -, hStore, hAccepts⟩
  · rw [h] at hError
    cases hError
  · obtain ⟨rfl, hTry⟩ := hAccepts session h
    obtain ⟨hLe, hFloor⟩ := trySequence_passes _ _ _ hTry
    refine ⟨Int64.le_trans floor_le_recordMin hLe, fun sequence hMin => ?_, hStore ▸ hFloor⟩
    exact Int64.le_trans (le_floor_recordMin hMin) hLe

/-- The caller's sequence is recorded if the state verifies. -/
theorem openState_records (hVerify : (verifyState codec P state digestSha256).isOk = true) {sequence : Int64}
    (hMin : opts.bind OpenOptions.minSequence = some sequence) :
    sequence ≤ (openState codec P clock state digestSha256 opts store).2.floor digestSha256 := by
  rcases @openState_cases codec P clock state digestSha256 opts store with ⟨-, hError, -⟩ | ⟨_, _, -, hStore, -⟩
  · rw [hVerify] at hError
    cases hError
  · rw [hStore]
    exact Int64.le_trans (le_floor_recordMin hMin) (floor_le_trySequence _ _ _ _)

/-- A call does to the store what its validation does. -/
theorem step_eq (call : Call) :
    step codec P store call = (call.opening codec P).elim store fun opening =>
      (openState codec P opening.1 opening.2.1 opening.2.2.1 opening.2.2.2 store).2 := by
  cases call with
  | openState clock state digestSha256 opts => rfl
  | put clock signedIssuerState reply =>
      simp only [step, put, Call.opening]
      cases readOwnState codec P signedIssuerState with
      | error e => rfl
      | ok own =>
          cases reply.sessionState "put_pairing_session" with
          | error e => rfl
          | ok state => rfl
  | join clock digestSha256 claimerKey reply =>
      simp only [step, join, Call.opening]
      cases reply.sessionState "join_pairing_session" with
      | error e => rfl
      | ok state => rfl

end Step

/-! ### All calls -/

/-- What a call shows of a session: the sequence that the caller passes, and the sequence of
a state that is accepted. -/
inductive Note where
  | passed (sequence : Int64)
  | accepted (sequence : Int64)
  deriving DecidableEq, Repr

def Note.sequence : Note → Int64
  | .passed sequence => sequence
  | .accepted sequence => sequence

def Note.isAccepted : Note → Bool
  | .passed _ => false
  | .accepted _ => true

/-- Every accepted sequence is at least one and at least all that came before it. -/
def NeverRollsBack (notes : List Note) : Prop :=
  (notes.Pairwise fun earlier later => ∀ sequence, later = .accepted sequence → earlier.sequence ≤ sequence) ∧
    ∀ sequence, Note.accepted sequence ∈ notes → 1 ≤ sequence

section Log

variable (codec : Codec) (P : Primitives) (digestSha256 : Bytes)

/-- What a call in a store shows of the session. -/
def notes (entry : PairingStore × Call) : List Note :=
  match entry.2.opening codec P with
  | some (clock, state, digest, opts) =>
      if digest = digestSha256 then
        ((opts.bind OpenOptions.minSequence).map Note.passed).toList ++
          match (openState codec P clock state digest opts entry.1).1 with
          | .ok session => [.accepted session.issuerState.sequence]
          | .error _ => []
      else []
  | none => []

/-- What all calls show of the session, in order. -/
def log (calls : List Call) : List Note :=
  (trace (step codec P) [] calls).flatMap (notes codec P digestSha256)

/-- A call that passes a sequence gets a signed state of the session, or the sequence is not
above the floor. -/
def Records (store : PairingStore) (call : Call) : Prop :=
  ∀ clock state opts, call.opening codec P = some (clock, state, digestSha256, opts) →
    ∀ sequence, opts.bind OpenOptions.minSequence = some sequence →
      (verifyState codec P state digestSha256).isOk = true ∨ sequence ≤ store.floor digestSha256

variable {codec P digestSha256} {store : PairingStore} {call : Call} {calls : List Call}

theorem floor_le_step : store.floor digestSha256 ≤ (step codec P store call).floor digestSha256 := by
  rw [step_eq]
  cases call.opening codec P with
  | none => exact Int64.le_refl _
  | some opening => exact floor_le_openState

/-- What a call does to the session and shows of it. -/
theorem notes_cases :
    notes codec P digestSha256 (store, call) = [] ∨
      ∃ clock state opts, call.opening codec P = some (clock, state, digestSha256, opts) ∧
        step codec P store call = (openState codec P clock state digestSha256 opts store).2 ∧
        notes codec P digestSha256 (store, call) =
          ((opts.bind OpenOptions.minSequence).map Note.passed).toList ++
            match (openState codec P clock state digestSha256 opts store).1 with
            | .ok session => [.accepted session.issuerState.sequence]
            | .error _ => [] := by
  rw [step_eq, notes]
  cases hOpening : call.opening codec P with
  | none => exact Or.inl rfl
  | some opening =>
      obtain ⟨clock, state, digest, opts⟩ := opening
      by_cases hDigest : digest = digestSha256
      · subst hDigest
        exact Or.inr ⟨clock, state, opts, rfl, rfl, if_pos rfl⟩
      · exact Or.inl (if_neg hDigest)

/-- An accepted sequence is not below the floor, and the floor follows it. -/
theorem accepted_floor {sequence : Int64} (h : .accepted sequence ∈ notes codec P digestSha256 (store, call)) :
    store.floor digestSha256 ≤ sequence ∧ (step codec P store call).floor digestSha256 = sequence := by
  rcases @notes_cases codec P digestSha256 store call with hNone | ⟨clock, state, opts, -, hStep, hNotes⟩
  · rw [hNone] at h
    cases h
  · rw [hNotes, List.mem_append] at h
    rcases h with h | h
    · rw [Option.mem_toList, Option.map_eq_some_iff] at h
      obtain ⟨_, -, hNote⟩ := h
      cases hNote
    · cases hOk : (openState codec P clock state digestSha256 opts store).1 with
      | error e => simp [hOk] at h
      | ok session =>
          obtain rfl : sequence = session.issuerState.sequence := by simpa [hOk] using h
          obtain ⟨hFloor, -, hAfter⟩ := openState_accepts hOk
          exact ⟨hFloor, hStep ▸ hAfter⟩

/-- A sequence that is recorded does not exceed the floor after the call. -/
theorem passed_floor (hRecords : Records codec P digestSha256 store call) {sequence : Int64}
    (h : .passed sequence ∈ notes codec P digestSha256 (store, call)) :
    sequence ≤ (step codec P store call).floor digestSha256 := by
  rcases @notes_cases codec P digestSha256 store call with hNone | ⟨clock, state, opts, hOpening, hStep, hNotes⟩
  · rw [hNone] at h
    cases h
  · rw [hNotes, List.mem_append] at h
    rcases h with h | h
    · rw [Option.mem_toList, Option.map_eq_some_iff] at h
      obtain ⟨_, hMin, hNote⟩ := h
      obtain rfl := Note.passed.inj hNote
      rcases hRecords clock state opts hOpening _ hMin with hVerify | hBelow
      · rw [hStep]
        exact openState_records hVerify hMin
      · exact Int64.le_trans hBelow floor_le_step
    · cases hOk : (openState codec P clock state digestSha256 opts store).1 with
      | error e => simp [hOk] at h
      | ok session => simp [hOk] at h

theorem notes_pairwise :
    (notes codec P digestSha256 (store, call)).Pairwise fun earlier later =>
      ∀ sequence, later = .accepted sequence → earlier.sequence ≤ sequence := by
  rcases @notes_cases codec P digestSha256 store call with hNone | ⟨clock, state, opts, -, -, hNotes⟩
  · rw [hNone]
    exact List.Pairwise.nil
  · rw [hNotes]
    cases hOk : (openState codec P clock state digestSha256 opts store).1 with
    | error e =>
        rw [List.append_nil]
        cases opts.bind OpenOptions.minSequence with
        | none => exact List.Pairwise.nil
        | some sequence => exact List.pairwise_singleton _ _
    | ok session =>
        cases hMin : opts.bind OpenOptions.minSequence with
        | none => exact List.pairwise_singleton _ _
        | some sequence =>
            refine List.pairwise_pair.mpr fun accepted hAccepted => ?_
            obtain rfl := Note.accepted.inj hAccepted
            exact (openState_accepts hOk).2.1 sequence hMin

/-- Notes that never exceed the floor after their call are never rolled back. The floor is
above all of them, and an accepted sequence is not below the floor. -/
theorem neverRollsBack_of_floor (counts : Note → Bool)
    (hAlong : Along (step codec P) (fun store call => ∀ note ∈ notes codec P digestSha256 (store, call),
      counts note = true → note.sequence ≤ (step codec P store call).floor digestSha256) [] calls) :
    NeverRollsBack ((log codec P digestSha256 calls).filter counts) := by
  have hInvariant := @trace_invariant _ _ (step codec P)
    (fun store call => ∀ note ∈ notes codec P digestSha256 (store, call),
      counts note = true → note.sequence ≤ (step codec P store call).floor digestSha256) [] calls
    (fun history store => NeverRollsBack ((history.flatMap (notes codec P digestSha256)).filter counts) ∧
      (∀ note ∈ (history.flatMap (notes codec P digestSha256)).filter counts,
        note.sequence ≤ store.floor digestSha256) ∧ 1 ≤ store.floor digestSha256)
    ?_ ⟨⟨List.Pairwise.nil, nofun⟩, nofun, Int64.le_refl 1⟩ hAlong
  · exact hInvariant.1
  · rintro history store call ⟨⟨hPairwise, hOne⟩, hFloor, hPositive⟩ hCounted
    have hNew : ∀ note ∈ (notes codec P digestSha256 (store, call)).filter counts,
        ∀ sequence, note = .accepted sequence → store.floor digestSha256 ≤ sequence := by
      intro note hNote sequence hAccepted
      exact (accepted_floor (hAccepted ▸ (List.mem_filter.mp hNote).1)).1
    rw [List.flatMap_append, List.filter_append, List.flatMap_singleton]
    refine ⟨⟨List.pairwise_append.mpr ⟨hPairwise, notes_pairwise.filter _, ?_⟩, ?_⟩, ?_,
      Int64.le_trans hPositive floor_le_step⟩
    · intro earlier hEarlier later hLater sequence hAccepted
      exact Int64.le_trans (hFloor earlier hEarlier) (hNew later hLater sequence hAccepted)
    · intro sequence hMem
      rcases List.mem_append.mp hMem with hOld | hLast
      · exact hOne sequence hOld
      · exact Int64.le_trans hPositive (hNew _ hLast sequence rfl)
    · intro note hMem
      rcases List.mem_append.mp hMem with hOld | hLast
      · exact Int64.le_trans (hFloor note hOld) floor_le_step
      · obtain ⟨hNote, hCounts⟩ := List.mem_filter.mp hLast
        exact hCounted note hNote hCounts

variable (codec P digestSha256 calls) in
/-- Accepted states never roll back one another. They do not roll back a sequence that was
passed either, if each call that passes one gets a signed state of the session or passes
nothing new. -/
theorem pairing_never_rolls_back :
    NeverRollsBack ((log codec P digestSha256 calls).filter Note.isAccepted) ∧
      (Along (step codec P) (Records codec P digestSha256) [] calls →
        NeverRollsBack (log codec P digestSha256 calls)) := by
  have hAccepted : ∀ (store : PairingStore) (call : Call) (sequence : Int64),
      .accepted sequence ∈ notes codec P digestSha256 (store, call) →
        sequence ≤ (step codec P store call).floor digestSha256 :=
    fun _ _ _ h => (accepted_floor h).2 ▸ Int64.le_refl _
  constructor
  · refine neverRollsBack_of_floor _ ((along_true [] calls).imp fun store call _ note hNote hCounts => ?_)
    cases note with
    | passed sequence => cases hCounts
    | accepted sequence => exact hAccepted store call sequence hNote
  · intro hAlong
    rw [← List.filter_true (log codec P digestSha256 calls)]
    refine neverRollsBack_of_floor (fun _ => true) (hAlong.imp fun store call hRecords note hNote _ => ?_)
    cases note with
    | passed sequence => exact passed_floor hRecords hNote
    | accepted sequence => exact hAccepted store call sequence hNote

end Log

end Polycentric.Client.Pairing

namespace Polycentric.TableInstance

open Proto Client.Pairing

/-- Sessions of one digest, whose states `[3]` and `[5]` have these sequences. -/
def pairingCodec : Codec where
  decodeSignedIssuerState bytes := .ok ⟨bytes, sign (key 1).key bytes⟩
  decodeIssuerPairingState bytes := .ok ⟨[7], none, if bytes = [5] then 5 else 3⟩
  decodePairingSessionDigest _ := .ok ⟨"alice", some (key 1), [], 0, 1000⟩
  encodePairingSessionState state := (state.issuerState.map SignedIssuerState.stateBytes).getD []

def pairingState (stateBytes : Bytes) : PairingSessionState := ⟨some ⟨stateBytes, sign (key 1).key stateBytes⟩, []⟩

def pairingDigest : Bytes := (digest [7]).val

end Polycentric.TableInstance

namespace Polycentric.Client.Pairing

open TableInstance

/-- A client puts state five, gets it back, and then is sent state three again. -/
theorem pairing_never_rolls_back_put :
    NeverRollsBack (log pairingCodec (primitives [] []) pairingDigest
      [.put 0 [5] (.answered (some (pairingState [5]))), .openState 0 (pairingState [3]) pairingDigest none]) := by
  refine (pairing_never_rolls_back pairingCodec (primitives [] []) pairingDigest _).2
    ⟨fun clock state opts hOpening sequence _ => Or.inl ?_, fun clock state opts hOpening sequence hMin => ?_, trivial⟩
  · obtain rfl : pairingState [5] = state := (Prod.mk.inj (Prod.mk.inj (Option.some.inj hOpening)).2).1
    decide +kernel
  · obtain rfl : none = opts :=
      (Prod.mk.inj (Prod.mk.inj (Prod.mk.inj (Option.some.inj hOpening)).2).2).2
    cases hMin

/-- A client that puts state five and gets an answer without a state accepts state three. -/
theorem pairing_rolls_back :
    ¬NeverRollsBack (log pairingCodec (primitives [] []) pairingDigest
      [.put 0 [5] (.answered (some ⟨none, []⟩)), .openState 0 (pairingState [3]) pairingDigest none]) := by
  have hLog : log pairingCodec (primitives [] []) pairingDigest
      [.put 0 [5] (.answered (some ⟨none, []⟩)), .openState 0 (pairingState [3]) pairingDigest none] =
      [.passed 5, .accepted 3] := by decide +kernel
  intro h
  rw [hLog] at h
  exact absurd (List.pairwise_pair.mp h.1 3 rfl) (by decide)

end Polycentric.Client.Pairing
