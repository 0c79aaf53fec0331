import Polycentric.Library.Runs
import Polycentric.Server.Database

/-! `put_pairing_session` as transactions of one issuer under READ COMMITTED. A lookup
locks the stored session until its transaction ends, but there is nothing to lock
before the first session is stored, and the upsert overwrites whatever it finds. -/
namespace Polycentric.Server

open Proto Runs Slots

/-- A row of `pairing_session`, or the validated input of a request. Timestamps are in
milliseconds. -/
structure PairingSession where
  digestSha256 : Bytes
  issuerStateBytes : Bytes
  issuerStateSignature : Bytes
  initialTimestamp : Int
  sequence : Int
  deriving DecidableEq, Repr

/-- A row of `pairing_session_claimer`. -/
structure PairingSessionClaimer where
  digestSha256 : Bytes
  claimerKeyType : Int
  claimerKey : Bytes
  deriving DecidableEq, Repr

namespace PutPairingSession

/-- How far an issuer's timestamp may drift from the server's clock. -/
def maxInitialTimestampSkew : Int := 60000

def isNewSession (existing : Option PairingSession) (input : PairingSession) : Bool :=
  existing.all fun stored => stored.digestSha256 != input.digestSha256

def verifyInitialTimestamp (now : Int) (input : PairingSession) : Except Status Unit :=
  if |now - input.initialTimestamp| > maxInitialTimestampSkew then
    .error ⟨.invalidArgument, "session timestamp outside acceptable skew window"⟩
  else .ok ()

/-- Whether the input is not newer than the stored session. -/
def isStale (input existing : PairingSession) : Bool :=
  if existing.digestSha256 = input.digestSha256 then decide (input.sequence ≤ existing.sequence)
  else decide (input.initialTimestamp ≤ existing.initialTimestamp)

/-- How far a request has got. -/
inductive Phase where
  | started
  /-- The stored session was looked up. -/
  | looked (existing : Option PairingSession)
  /-- The input is stale, and nothing is written. -/
  | unchanged (stored : PairingSession)
  /-- The input is to be stored, and the claimers of the session before are deleted. -/
  | cleared (existing : Option PairingSession) (claimers : List PairingSessionClaimer)
  | wrote (existing : Option PairingSession) (claimers : List PairingSessionClaimer)
  /-- The digest of the stored session, or an error. -/
  | finished (result : Except Status Bytes)

structure Transaction where
  input : PairingSession
  phase : Phase

/-- What is committed, who holds the lock of the row, and the requests. -/
structure System where
  session : Option PairingSession
  claimers : List PairingSessionClaimer
  lockedBy : Option Nat
  transactions : List Transaction

inductive Action where
  | begin (input : PairingSession)
  | lookup (id : Nat)
  | check (id : Nat) (now : Int)
  | upsert (id : Nat)
  | commit (id : Nat)
  /-- The connection is lost. -/
  | rollback (id : Nat)
  /-- `add_claimer` of another request. -/
  | addClaimer (claimer : PairingSessionClaimer)

/-- A commit over a stored session: the session that the request had looked up, the one
that it replaces, and the new one. -/
structure Overwrite where
  existing : Option PairingSession
  old : PairingSession
  new : PairingSession

namespace System

def new : System := ⟨none, [], none, []⟩

variable (s : System)

def setPhase (id : Nat) (input : PairingSession) (phase : Phase) : System :=
  { s with transactions := s.transactions.set id ⟨input, phase⟩ }

/-- The end of a transaction gives up its lock. -/
def finish (id : Nat) (input : PairingSession) (result : Except Status Bytes) : System :=
  { s.setPhase id input (.finished result) with
    lockedBy := if s.lockedBy = some id then none else s.lockedBy }

/-- `get_latest_pairing_session` is a `SELECT ... FOR UPDATE`: it waits for the lock of
a stored row. -/
def lookup (id : Nat) (input : PairingSession) : System :=
  match s.session with
  | none => s.setPhase id input (.looked none)
  | some stored =>
      if s.lockedBy = none then
        { s.setPhase id input (.looked (some stored)) with lockedBy := some id }
      else s

/-- `clear_claimers`, for a new session. -/
def clearClaimers (id : Nat) (input : PairingSession) (existing : Option PairingSession) : System :=
  s.setPhase id input (.cleared existing (if isNewSession existing input then s.claimers else []))

def check (id : Nat) (input : PairingSession) (existing : Option PairingSession) (now : Int) :
    System :=
  match if isNewSession existing input then verifyInitialTimestamp now input else .ok () with
  | .error status => s.finish id input (.error status)
  | .ok () =>
      match existing with
      | some stored =>
          if isStale input stored then s.setPhase id input (.unchanged stored)
          else s.clearClaimers id input existing
      | none => s.clearClaimers id input existing

/-- `put_issuer_state` waits for the lock of the row as well, and for a row that is
being inserted. -/
def upsert (id : Nat) (input : PairingSession) (existing : Option PairingSession)
    (claimers : List PairingSessionClaimer) : System :=
  if s.lockedBy = none ∨ s.lockedBy = some id then
    { s.setPhase id input (.wrote existing claimers) with lockedBy := some id }
  else s

def commit (id : Nat) (input : PairingSession) : Phase → System
  | .unchanged stored => s.finish id input (.ok stored.digestSha256)
  | .wrote _ cleared =>
      { s.finish id input (.ok input.digestSha256) with
        session := some input
        claimers := s.claimers.filter fun claimer => claimer ∉ cleared }
  | .started | .looked _ | .cleared _ _ | .finished _ => s

def rollback (id : Nat) (input : PairingSession) : Phase → System
  | .finished _ => s
  | .started | .looked _ | .unchanged _ | .cleared _ _ | .wrote _ _ =>
      s.finish id input (.error internalError)

def step (action : Action) : System :=
  match action with
  | .begin input => { s with transactions := s.transactions ++ [⟨input, .started⟩] }
  | .lookup id =>
      match s.transactions[id]? with
      | some ⟨input, .started⟩ => s.lookup id input
      | _ => s
  | .check id now =>
      match s.transactions[id]? with
      | some ⟨input, .looked existing⟩ => s.check id input existing now
      | _ => s
  | .upsert id =>
      match s.transactions[id]? with
      | some ⟨input, .cleared existing claimers⟩ => s.upsert id input existing claimers
      | _ => s
  | .commit id =>
      match s.transactions[id]? with
      | some ⟨input, phase⟩ => s.commit id input phase
      | none => s
  | .rollback id =>
      match s.transactions[id]? with
      | some ⟨input, phase⟩ => s.rollback id input phase
      | none => s
  | .addClaimer claimer =>
      if claimer ∈ s.claimers then s else { s with claimers := s.claimers ++ [claimer] }

/-- What a step commits in place of the stored session, if there is one. -/
def overwrite (action : Action) : Option Overwrite :=
  match action with
  | .commit id =>
      match s.transactions[id]? with
      | some ⟨input, .wrote existing _⟩ => s.session.map fun old => ⟨existing, old, input⟩
      | _ => none
  | _ => none

/-- The sequence grows within a session, and the timestamp from one to the next. -/
def Forward (old new : PairingSession) : Prop :=
  if old.digestSha256 = new.digestSha256 then old.sequence < new.sequence
  else old.initialTimestamp < new.initialTimestamp

theorem forward_iff (old new : PairingSession) : Forward old new ↔ isStale new old = false := by
  unfold Forward isStale
  split <;> simp

instance (old new : PairingSession) : Decidable (Forward old new) :=
  decidable_of_iff' _ (forward_iff old new)

/-- An overwrite moves forward. -/
def MovesForward (action : Action) : Prop :=
  ∀ overwrite ∈ s.overwrite action, Forward overwrite.old overwrite.new

instance (action : Action) : Decidable (s.MovesForward action) :=
  inferInstanceAs (Decidable (∀ overwrite ∈ s.overwrite action, Forward overwrite.old overwrite.new))

/-- A request that found no session does not overwrite one that it is not newer than. -/
def FirstMovesForward (action : Action) : Prop :=
  ∀ overwrite ∈ s.overwrite action, overwrite.existing = none →
    isStale overwrite.new overwrite.old = false

/-- What a request that has not ended relies on. A session that it looked up is still
the stored one, since the request holds its lock. -/
def Relies (id : Nat) (transaction : Transaction) : Prop :=
  match transaction.phase with
  | .looked (some stored) | .unchanged stored =>
      s.lockedBy = some id ∧ s.session = some stored
  | .cleared (some stored) _ | .wrote (some stored) _ =>
      s.lockedBy = some id ∧ s.session = some stored ∧ isStale transaction.input stored = false
  | .wrote none _ => s.lockedBy = some id
  | .started | .looked none | .cleared none _ | .finished _ => True

def Locked : Prop := Each s.Relies s.transactions

variable {s} {t : System} {id other : Nat} {transaction : Transaction}

theorem Relies.of_same (h : s.Relies id transaction) (hLock : t.lockedBy = s.lockedBy)
    (hSession : t.session = s.session) : t.Relies id transaction := by
  unfold Relies at h ⊢
  rw [hLock, hSession]
  exact h

/-- Whoever relies on anything has the lock. -/
theorem Relies.of_other (h : s.Relies other transaction) (hOther : other ≠ id)
    (hFree : s.lockedBy = none ∨ s.lockedBy = some id) : t.Relies other transaction := by
  have hNot : s.lockedBy ≠ some other := by
    intro hLock
    rcases hFree with hNone | hMine
    · cases hNone.symm.trans hLock
    · exact hOther (Option.some.inj (hLock.symm.trans hMine))
  unfold Relies at h ⊢
  split at h
  · exact absurd h.1 hNot
  · exact absurd h.1 hNot
  · exact absurd h.1 hNot
  · exact absurd h.1 hNot
  · exact absurd h hNot
  all_goals trivial

/-- A request moves on. It has the lock or could have it, or leaves lock and session
as they are. -/
theorem Locked.set (h : s.Locked) {input : PairingSession} {phase : Phase}
    (hSet : t.transactions = s.transactions.set id ⟨input, phase⟩) (hNew : t.Relies id ⟨input, phase⟩)
    (hMay : (s.lockedBy = none ∨ s.lockedBy = some id) ∨
      (t.lockedBy = s.lockedBy ∧ t.session = s.session)) : t.Locked := by
  show Each t.Relies t.transactions
  rw [hSet]
  refine Each.set h hNew fun other transaction hOther hRelies => ?_
  rcases hMay with hFree | ⟨hLock, hSession⟩
  · exact hRelies.of_other hOther hFree
  · exact hRelies.of_same hLock hSession

/-- A request enters a phase with what it relies on there. -/
theorem Locked.setPhase (h : s.Locked) {input : PairingSession} {phase : Phase}
    (hNew : s.Relies id ⟨input, phase⟩) : (s.setPhase id input phase).Locked :=
  h.set rfl hNew (Or.inr ⟨rfl, rfl⟩)

theorem Locked.finish (h : s.Locked) {input : PairingSession} {result : Except Status Bytes} :
    (s.finish id input result).Locked := by
  refine h.set rfl trivial ?_
  by_cases hMine : s.lockedBy = some id
  · exact Or.inl (Or.inr hMine)
  · exact Or.inr ⟨if_neg hMine, rfl⟩

/-- A session that is found is locked by the lookup. -/
theorem Locked.lookup (h : s.Locked) {input : PairingSession} : (s.lookup id input).Locked := by
  unfold System.lookup
  cases hSession : s.session with
  | none => exact h.setPhase trivial
  | some stored =>
      show Locked (if s.lockedBy = none then _ else s)
      split
      · next hFree => exact h.set rfl ⟨rfl, hSession⟩ (Or.inl (Or.inl hFree))
      · exact h

theorem Locked.check (h : s.Locked) {input : PairingSession} {existing : Option PairingSession}
    {now : Int} (hRelies : s.Relies id ⟨input, .looked existing⟩) :
    (s.check id input existing now).Locked := by
  unfold System.check
  split
  · exact h.finish
  · cases existing with
    | none => exact h.setPhase trivial
    | some stored =>
        show Locked (if isStale input stored = true then _ else _)
        split
        · exact h.setPhase hRelies
        · next hStale =>
            exact h.setPhase ⟨hRelies.1, hRelies.2, Bool.eq_false_iff.mpr hStale⟩

/-- Whoever writes holds the lock. -/
theorem Locked.upsert (h : s.Locked) {input : PairingSession} {existing : Option PairingSession}
    {claimers : List PairingSessionClaimer}
    (hRelies : s.Relies id ⟨input, .cleared existing claimers⟩) :
    (s.upsert id input existing claimers).Locked := by
  unfold System.upsert
  split
  · next hFree =>
      refine h.set rfl ?_ (Or.inl hFree)
      cases existing with
      | none => rfl
      | some stored => exact ⟨rfl, hRelies.2⟩
  · exact h

/-- A request that has written has the lock. -/
theorem Relies.wrote_lockedBy {input : PairingSession} {existing : Option PairingSession}
    {claimers : List PairingSessionClaimer}
    (h : s.Relies id ⟨input, .wrote existing claimers⟩) : s.lockedBy = some id := by
  cases existing with
  | none => exact h
  | some stored => exact h.1

/-- A commit changes the session under the lock of its request, so nobody else relies on it. -/
theorem Locked.commit (h : s.Locked) {input : PairingSession} {phase : Phase}
    (hRelies : s.Relies id ⟨input, phase⟩) : (s.commit id input phase).Locked := by
  cases phase with
  | started => exact h
  | looked existing => exact h
  | unchanged stored => exact h.finish
  | cleared existing claimers => exact h
  | wrote existing claimers => exact h.set rfl trivial (Or.inl (Or.inr hRelies.wrote_lockedBy))
  | finished result => exact h

/-- A rollback gives the lock back. -/
theorem Locked.rollback (h : s.Locked) {input : PairingSession} {phase : Phase} :
    (s.rollback id input phase).Locked := by
  cases phase with
  | finished result => exact h
  | started => exact h.finish
  | looked existing => exact h.finish
  | unchanged stored => exact h.finish
  | cleared existing claimers => exact h.finish
  | wrote existing claimers => exact h.finish

/-- Every step keeps what the requests rely on. -/
theorem Locked.step (h : s.Locked) (action : Action) : (s.step action).Locked := by
  cases action with
  | begin input =>
      have hSame : Each (System.step s (.begin input)).Relies s.transactions :=
        Each.mono h fun other transaction hRelies => hRelies.of_same rfl rfl
      exact hSame.append fun other => trivial
  | lookup id =>
      show Locked (match s.transactions[id]? with | some ⟨input, .started⟩ => _ | _ => _)
      split
      · exact h.lookup
      · exact h
  | check id now =>
      show Locked (match s.transactions[id]? with | some ⟨input, .looked existing⟩ => _ | _ => _)
      split
      · next hGet => exact h.check (h id _ hGet)
      · exact h
  | upsert id =>
      show Locked (match s.transactions[id]? with | some ⟨input, .cleared existing claimers⟩ => _ | _ => _)
      split
      · next hGet => exact h.upsert (h id _ hGet)
      · exact h
  | commit id =>
      show Locked (match s.transactions[id]? with | some ⟨input, phase⟩ => _ | none => _)
      split
      · next hGet => exact h.commit (h id _ hGet)
      · exact h
  | rollback id =>
      show Locked (match s.transactions[id]? with | some ⟨input, phase⟩ => _ | none => _)
      split
      · exact h.rollback
      · exact h
  | addClaimer claimer =>
      show Locked (if claimer ∈ s.claimers then s else _)
      split
      · exact h
      · exact Each.mono h fun other transaction hRelies => hRelies.of_same rfl rfl

/-- What a request overwrites after it looked a session up is that session. -/
theorem Locked.overwrite_some (h : s.Locked) {action : Action} {overwrite : Overwrite}
    {stored : PairingSession} (hOverwrite : s.overwrite action = some overwrite)
    (hExisting : overwrite.existing = some stored) : Forward overwrite.old overwrite.new := by
  cases action with
  | commit id =>
      change (match s.transactions[id]? with
        | some ⟨input, .wrote existing _⟩ => s.session.map fun old => (⟨existing, old, input⟩ : Overwrite)
        | _ => none) = some overwrite at hOverwrite
      split at hOverwrite
      · next input existing claimers hGet =>
          obtain ⟨old, hSession, hEq⟩ := Option.map_eq_some_iff.mp hOverwrite
          subst hEq
          cases hExisting
          obtain ⟨-, hStored, hFresh⟩ := h id _ hGet
          cases hStored.symm.trans hSession
          exact (forward_iff _ _).mpr hFresh
      · cases hOverwrite
  | begin input => cases hOverwrite
  | lookup id => cases hOverwrite
  | check id now => cases hOverwrite
  | upsert id => cases hOverwrite
  | rollback id => cases hOverwrite
  | addClaimer claimer => cases hOverwrite

/-- A commit over a session that was looked up always moves forward. -/
theorem Locked.movesForward_iff (h : s.Locked) (action : Action) :
    s.MovesForward action ↔ s.FirstMovesForward action := by
  constructor
  · intro hForward overwrite hOverwrite _
    exact (forward_iff _ _).mp (hForward overwrite hOverwrite)
  · intro hFirst overwrite hOverwrite
    cases hExisting : overwrite.existing with
    | none => exact (forward_iff _ _).mpr (hFirst overwrite hOverwrite hExisting)
    | some stored => exact h.overwrite_some hOverwrite hExisting

theorem locked_new : new.Locked := Each.nil

/-- Every committed overwrite of a run moves the session forward exactly if those do
that were made by requests that had found no session. -/
theorem overwrites_forward_iff (actions : List Action) :
    Along step MovesForward new actions ↔ Along step FirstMovesForward new actions :=
  along_congr (fun hLocked _ => hLocked.step _) (fun hLocked _ => hLocked.movesForward_iff _)
    locked_new (along_true new actions)

/-- Two first sessions, of which the newer one is committed first. -/
def olderLast : List Action :=
  let older : PairingSession := ⟨[1], [], [], 1000, 0⟩
  let newer : PairingSession := ⟨[2], [], [], 2000, 0⟩
  [.begin older, .begin newer, .lookup 0, .lookup 1, .check 0 2000, .check 1 2000, .upsert 1,
    .commit 1, .upsert 0, .commit 0]

/-- Of two first puts, the older one commits last. -/
theorem overwrites_backward : ¬Along step MovesForward new olderLast := by
  decide +kernel

end System

end PutPairingSession

end Polycentric.Server
