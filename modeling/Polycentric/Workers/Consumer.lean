import Polycentric.Library.Memo
import Polycentric.Library.Runs

/-! The loop that hands the messages of a topic to a worker, `workers/mod.rs`, and the
same loop in the `main.rs` of the moderation and of the push service. A message that
fails is delivered again, up to a number of times, and is then passed over. The broker
and the client library are not part of the program: they are the steps of the
environment, which may lose and reorder commits, move partitions and stop the process
at any time. -/
namespace Polycentric.Workers

open Memo Runs

/-- The partition and the offset of a message. -/
structure Coord where
  partition : Nat
  offset : Nat
  deriving DecidableEq, Repr

/-- Whether the offset of the handled message should be committed. -/
inductive Outcome where
  | commit
  | retry
  deriving DecidableEq, Repr

inductive RetryAction where
  | backoff
  | skip
  deriving DecidableEq, Repr

/-- `MAX_RETRIES`. -/
def maxRetries : Nat := 5

/-- Failure counts of the messages that are being retried. -/
abbrev Attempts := Table Coord Nat

def Attempts.failures (attempts : Attempts) (coord : Coord) : Nat := (attempts.get coord).getD 0

/-- One more failed attempt. A message that is passed over is forgotten, so that a later
delivery starts a fresh count. -/
def recordFailure (attempts : Attempts) (coord : Coord) : Attempts × RetryAction :=
  let count := attempts.failures coord + 1
  if count > maxRetries then (attempts.remove coord, .skip)
  else (attempts.insert coord count, .backoff)

/-- What the loop asks of the client library once a message is handled. -/
inductive ClientCall where
  | commitMessage
  | seek
  deriving DecidableEq, Repr

def afterHandling (attempts : Attempts) (coord : Coord) : Outcome → Attempts × ClientCall
  | .commit => (attempts.remove coord, .commitMessage)
  | .retry =>
      match recordFailure attempts coord with
      | (attempts, .skip) => (attempts, .commitMessage)
      | (attempts, .backoff) => (attempts, .seek)

/-- `auto.offset.reset`: where a group without a committed offset begins. -/
inductive OffsetReset where
  | latest
  | earliest
  deriving DecidableEq, Repr

/-- Where a group without a committed offset begins in a log. -/
def OffsetReset.first {Message : Type} (reset : OffsetReset) (log : List Message) : Nat :=
  match reset with
  | .latest => log.length
  | .earliest => 0

/-- The broker, the processes of one consumer group, and what their worker has brought
about. Each partition is assigned to one process, and each process counts failures on
its own. A message is `overtaken` if its partition was moved while the process was at
work on it. The last four fields are a record of the run that nothing reads: where the
group began, what was handled, where the client library failed to go back, and what was
not read because a partition was assigned anew before anything of it was committed. -/
structure System (Effect Message : Type) where
  log : Nat → List Message
  committed : Nat → Option Nat
  owner : Nat → Nat
  position : Nat → Nat
  attempts : Nat → Attempts
  overtaken : List (Nat × Coord)
  requested : List Coord
  effect : Effect
  start : Nat → Nat
  handled : List (Coord × Outcome)
  lost : List Coord
  skipped : Nat → List Nat

/-- A step of the environment, or of the loop. The call that the loop makes after
handling a message may fail. A process may stop while it is at work on a message, and a
partition may be moved meanwhile. -/
inductive Action (Message Choice : Type) where
  | produce (partition : Nat) (message : Message)
  | deliver (partition : Nat) (choice : Choice) (works : Bool)
  | interrupt (partition : Nat) (choice : Choice)
  | acknowledge (coord : Coord)
  | reassign (partition process : Nat) (atWork : Bool)
  | finish (process : Nat) (coord : Coord) (choice : Choice) (works : Bool)
  | restart (process : Nat)

variable {Effect Message Choice : Type}

namespace System

/-- A group that has committed nothing, at the end or the beginning of its logs. -/
def new (reset : OffsetReset) (log : Nat → List Message) (owner : Nat → Nat) (effect : Effect) :
    System Effect Message where
  log := log
  committed := fun _ => none
  owner := owner
  position := fun p => reset.first (log p)
  attempts := fun _ => []
  overtaken := []
  requested := []
  effect := effect
  start := fun p => reset.first (log p)
  handled := []
  lost := []
  skipped := fun _ => []

/-- The next message of the partition. -/
def next (s : System Effect Message) (partition : Nat) : Option Message :=
  (s.log partition)[s.position partition]?

/-- Where the consumer of the partition begins when it is assigned. -/
def begins (reset : OffsetReset) (s : System Effect Message) (partition : Nat) : Nat :=
  (s.committed partition).getD (reset.first (s.log partition))

/-- What the consumer of the partition passes over when it is assigned. -/
def skips (reset : OffsetReset) (s : System Effect Message) (partition : Nat) : List Nat :=
  match s.committed partition with
  | none => List.range' (s.position partition) (s.begins reset partition - s.position partition)
  | some _ => []

/-- What every iteration of the loop does with the message that was handled. -/
def concluded (s : System Effect Message) (process : Nat) (coord : Coord) (effect : Effect)
    (outcome : Outcome) (works : Bool) : System Effect Message :=
  let after := afterHandling (s.attempts process) coord outcome
  { s with
    effect := effect
    attempts := Function.update s.attempts process after.1
    handled := s.handled ++ [(coord, outcome)]
    requested := if after.2 = .commitMessage ∧ works then
        s.requested ++ [⟨coord.partition, coord.offset + 1⟩] else s.requested }

/-- What the loop asks for once the message is handled. -/
def call (s : System Effect Message) (process : Nat) (coord : Coord) (outcome : Outcome) : ClientCall :=
  (afterHandling (s.attempts process) coord outcome).2

/-- The message that the consumer of the partition comes to next. -/
def current (s : System Effect Message) (partition : Nat) : Coord := ⟨partition, s.position partition⟩

/-- One iteration of the loop of `run_consumer` on a received message: the consumer is
past it, unless it goes back. -/
def iterate (handle : Effect → Message → Choice → Effect × Outcome) (s : System Effect Message)
    (partition : Nat) (message : Message) (choice : Choice) (works : Bool) : System Effect Message :=
  let handled := handle s.effect message choice
  let call := s.call (s.owner partition) (s.current partition) handled.2
  { s.concluded (s.owner partition) (s.current partition) handled.1 handled.2 works with
    position := if call = .seek ∧ works then s.position
      else Function.update s.position partition (s.position partition + 1)
    lost := if call = .seek ∧ !works then s.lost ++ [s.current partition] else s.lost }

/-- The loop comes to the end of an iteration whose partition was moved meanwhile. It
goes back to the message only if the partition is its own again. -/
def finished (handle : Effect → Message → Choice → Effect × Outcome) (s : System Effect Message)
    (process : Nat) (coord : Coord) (message : Message) (choice : Choice) (works : Bool) :
    System Effect Message :=
  let handled := handle s.effect message choice
  { s.concluded process coord handled.1 handled.2 works with
    overtaken := s.overtaken.erase (process, coord)
    position := if s.call process coord handled.2 = .seek ∧ works ∧ s.owner coord.partition = process then
        Function.update s.position coord.partition coord.offset else s.position }

/-- Newly assigned partitions are read on from what is committed. -/
def resume (reset : OffsetReset) (s : System Effect Message) (assigned : Nat → Bool) :
    System Effect Message :=
  { s with
    position := fun p => if assigned p then s.begins reset p else s.position p
    skipped := fun p => if assigned p then s.skipped p ++ s.skips reset p else s.skipped p }

/-- A process that starts has no failure counts, and no message at hand. -/
def restarted (reset : OffsetReset) (s : System Effect Message) (process : Nat) : System Effect Message :=
  { s.resume reset fun p => s.owner p = process with
    attempts := Function.update s.attempts process []
    overtaken := s.overtaken.filter fun entry => entry.1 ≠ process }

/-- The partition moves to another process, or is assigned again to its own. -/
def reassigned (reset : OffsetReset) (s : System Effect Message) (partition process : Nat)
    (atWork : Bool) : System Effect Message :=
  { s.resume reset fun p => p = partition with
    owner := Function.update s.owner partition process
    overtaken := if atWork then s.overtaken ++ [(s.owner partition, s.current partition)]
      else s.overtaken }

def step (handle : Effect → Message → Choice → Effect × Outcome) (reset : OffsetReset)
    (s : System Effect Message) : Action Message Choice → System Effect Message
  | .produce partition message =>
      { s with log := Function.update s.log partition (s.log partition ++ [message]) }
  | .deliver partition choice works =>
      match s.next partition with
      | none => s
      | some message => s.iterate handle partition message choice works
  | .interrupt partition choice =>
      match s.next partition with
      | none => s
      | some message =>
          { s.restarted reset (s.owner partition) with
            effect := (handle s.effect message choice).1 }
  | .acknowledge coord =>
      if coord ∈ s.requested then
        { s with committed := Function.update s.committed coord.partition (some coord.offset) }
      else s
  | .reassign partition process atWork => s.reassigned reset partition process atWork
  | .finish process coord choice works =>
      if (process, coord) ∈ s.overtaken then
        match (s.log coord.partition)[coord.offset]? with
        | none => s
        | some message => s.finished handle process coord message choice works
      else s
  | .restart process => s.restarted reset process

end System

/-! What the loop keeps: a message is left behind only when it is settled. -/

/-- The group gave up on the message: it failed more often than it is retried, or the
client library did not go back to it, or its partition was assigned anew, and read on from
the end of the log, before anything of it was committed. -/
def System.GivenUp (s : System Effect Message) (coord : Coord) : Prop :=
  maxRetries < s.handled.count (coord, .retry) ∨ coord ∈ s.lost ∨ coord.offset ∈ s.skipped coord.partition

/-- The message was handled, or the group gave up on it. -/
def System.Settled (s : System Effect Message) (coord : Coord) : Prop :=
  (coord, Outcome.commit) ∈ s.handled ∨ s.GivenUp coord

/-- The offsets of the partition below the bound, from where the group began. -/
def System.SettledBelow (s : System Effect Message) (partition bound : Nat) : Prop :=
  ∀ offset, s.start partition ≤ offset → offset < bound → s.Settled ⟨partition, offset⟩

structure System.Consistent (s : System Effect Message) : Prop where
  counted : ∀ process coord, (s.attempts process).failures coord ≤ s.handled.count (coord, .retry)
  bounded : ∀ process coord, (s.attempts process).failures coord ≤ maxRetries
  passed : ∀ p, s.SettledBelow p (s.position p)
  overtaken : ∀ entry ∈ s.overtaken, s.SettledBelow entry.2.partition entry.2.offset
  asked : ∀ coord ∈ s.requested, s.SettledBelow coord.partition coord.offset
  committed : ∀ p c, s.committed p = some c → s.SettledBelow p c

section attempts

variable {attempts : Attempts} {coord other : Coord}

@[simp] theorem failures_nil : Attempts.failures [] coord = 0 := rfl

/-- The count of a coordinate is the last one that was written. -/
@[simp] theorem failures_insert_self (n : Nat) : Attempts.failures (attempts.insert coord n) coord = n := by
  simp [Attempts.failures, Table.get_insert_self]

theorem failures_insert_other (h : other ≠ coord) (n : Nat) :
    Attempts.failures (attempts.insert coord n) other = attempts.failures other := by
  simp [Attempts.failures, Table.get_insert_other h]

/-- A coordinate that is taken out counts from zero again. -/
@[simp] theorem failures_remove_self : Attempts.failures (attempts.remove coord) coord = 0 := by
  simp [Attempts.failures, Table.get_remove]

theorem failures_remove_other (h : other ≠ coord) :
    Attempts.failures (attempts.remove coord) other = attempts.failures other := by
  simp [Attempts.failures, Table.get_remove, h]

/-- What the loop does with a handled message: it commits and forgets it, or it counts
the failure and goes back to it. -/
theorem afterHandling_cases (attempts : Attempts) (coord : Coord) (outcome : Outcome) :
    (afterHandling attempts coord outcome = (attempts.remove coord, .commitMessage) ∧
        (outcome = .commit ∨ outcome = .retry ∧ maxRetries ≤ attempts.failures coord)) ∨
      (afterHandling attempts coord outcome =
          (attempts.insert coord (attempts.failures coord + 1), .seek) ∧
        outcome = .retry ∧ attempts.failures coord < maxRetries) := by
  cases outcome with
  | commit => exact Or.inl ⟨rfl, Or.inl rfl⟩
  | retry =>
      by_cases h : attempts.failures coord + 1 > maxRetries
      · refine Or.inl ⟨?_, Or.inr ⟨rfl, Nat.le_of_lt_succ h⟩⟩
        simp only [afterHandling, recordFailure, if_pos h]
      · refine Or.inr ⟨?_, rfl, Nat.lt_of_not_le fun hLe => h (Nat.lt_succ_of_le hLe)⟩
        simp only [afterHandling, recordFailure, if_neg h]

/-- The outcome of one message leaves the counts of the others as they are. -/
theorem failures_afterHandling_other (h : other ≠ coord) (outcome : Outcome) :
    (afterHandling attempts coord outcome).1.failures other = attempts.failures other := by
  rcases afterHandling_cases attempts coord outcome with ⟨hAfter, -⟩ | ⟨hAfter, -⟩
  · rw [hAfter]
    exact failures_remove_other h
  · rw [hAfter]
    exact failures_insert_other h _

end attempts

variable {handle : Effect → Message → Choice → Effect × Outcome} {reset : OffsetReset}
  {s s' : System Effect Message} {p process : Nat} {coord : Coord} {effect : Effect} {outcome : Outcome}
  {message : Message} {choice : Choice} {works : Bool}

namespace System

theorem handled_concluded (s : System Effect Message) (process : Nat) (coord : Coord) (effect : Effect)
    (outcome : Outcome) (works : Bool) :
    (s.concluded process coord effect outcome works).handled = s.handled ++ [(coord, outcome)] := rfl

/-- Only the process that handled the message, and only for this message, counts anew. -/
theorem failures_concluded_other {q : Nat} {other : Coord} (h : q ≠ process ∨ other ≠ coord) :
    ((s.concluded process coord effect outcome works).attempts q).failures other =
      (s.attempts q).failures other := by
  by_cases hq : q = process
  · subst hq
    simp only [concluded, Function.update_self]
    exact failures_afterHandling_other (h.resolve_left fun hNe => hNe rfl) outcome
  · simp [concluded, hq]

/-- A handled message is left behind when it succeeded or failed once more than it is
retried, and otherwise its failure is counted. -/
theorem call_cases (s : System Effect Message) (process : Nat) (coord : Coord) (effect : Effect)
    (outcome : Outcome) (works : Bool) :
    (s.call process coord outcome = .commitMessage ∧
        ((s.concluded process coord effect outcome works).attempts process).failures coord = 0 ∧
        (outcome = .commit ∨ outcome = .retry ∧ maxRetries ≤ (s.attempts process).failures coord)) ∨
      (s.call process coord outcome = .seek ∧
        ((s.concluded process coord effect outcome works).attempts process).failures coord =
          (s.attempts process).failures coord + 1 ∧
        outcome = .retry ∧ (s.attempts process).failures coord < maxRetries) := by
  rcases afterHandling_cases (s.attempts process) coord outcome with ⟨hAfter, hOutcome⟩ | ⟨hAfter, hFew⟩
  · refine Or.inl ⟨by rw [call, hAfter], ?_, hOutcome⟩
    simp [concluded, hAfter]
  · refine Or.inr ⟨by rw [call, hAfter], ?_, hFew⟩
    simp [concluded, hAfter]

/-- What is settled stays settled as more is handled, lost and skipped. -/
theorem Settled.append {more : List (Coord × Outcome)} (h : s.Settled coord)
    (hHandled : s'.handled = s.handled ++ more) (hLost : ∀ c ∈ s.lost, c ∈ s'.lost)
    (hSkipped : ∀ q, ∀ offset ∈ s.skipped q, offset ∈ s'.skipped q) : s'.Settled coord := by
  rcases h with hCommit | hMany | hMem | hPassed
  · exact Or.inl (hHandled ▸ List.mem_append_left _ hCommit)
  · refine Or.inr (Or.inl ?_)
    rw [hHandled, List.count_append]
    omega
  · exact Or.inr (Or.inr (Or.inl (hLost coord hMem)))
  · exact Or.inr (Or.inr (Or.inr (hSkipped _ _ hPassed)))

/-- One more offset is settled. -/
theorem SettledBelow.succ {bound : Nat} (h : s.SettledBelow p bound) (hBound : s.Settled ⟨p, bound⟩) :
    s.SettledBelow p (bound + 1) := by
  intro offset hStart hLt
  rcases Nat.lt_succ_iff_lt_or_eq.mp hLt with hLess | rfl
  · exact h offset hStart hLess
  · exact hBound

theorem SettledBelow.imp {bound : Nat} (h : s.SettledBelow p bound) (hStart : s'.start = s.start)
    (hSettled : ∀ coord, s.Settled coord → s'.Settled coord) : s'.SettledBelow p bound :=
  fun offset hBegins hLt => hSettled _ (h offset (hStart ▸ hBegins) hLt)

/-- Another message that is concluded does not unsettle this one. -/
theorem settled_concluded (h : s.Settled coord) (other : Coord) :
    (s.concluded process other effect outcome works).Settled coord :=
  h.append rfl (fun _ hMem => hMem) fun _ _ hMem => hMem

/-- A message whose commit is asked for is settled. -/
theorem Consistent.settled_of_call (h : s.Consistent)
    (hCall : s.call process coord outcome = .commitMessage) :
    (s.concluded process coord effect outcome works).Settled coord := by
  rcases call_cases s process coord effect outcome works with ⟨-, -, hOutcome⟩ | ⟨hSeek, -⟩
  · rcases hOutcome with rfl | ⟨rfl, hMany⟩
    · exact Or.inl (List.mem_append_right _ List.mem_cons_self)
    · refine Or.inr (Or.inl ?_)
      have hCount := h.counted process coord
      rw [handled_concluded, List.count_append, List.count_singleton_self]
      omega
  · cases hSeek.symm.trans hCall

/-- A message below which everything is settled is handled. If the loop asks to commit it, it is
settled as well. -/
theorem Consistent.concluded (h : s.Consistent)
    (hBelow : s.SettledBelow coord.partition coord.offset) :
    (s.concluded process coord effect outcome works).Consistent := by
  have hKept : ∀ other, s.Settled other →
      (s.concluded process coord effect outcome works).Settled other :=
    fun other hSettled => settled_concluded hSettled coord
  constructor
  case counted =>
    intro q other
    have hCount := h.counted q other
    rw [handled_concluded, List.count_append]
    by_cases hSame : q = process ∧ other = coord
    · obtain ⟨rfl, rfl⟩ := hSame
      rcases call_cases s q other effect outcome works with ⟨-, hZero, -⟩ | ⟨-, hMore, rfl, -⟩
      · omega
      · rw [List.count_singleton_self]
        omega
    · rw [failures_concluded_other (not_and_or.mp hSame)]
      omega
  case bounded =>
    intro q other
    by_cases hSame : q = process ∧ other = coord
    · obtain ⟨rfl, rfl⟩ := hSame
      rcases call_cases s q other effect outcome works with ⟨-, hZero, -⟩ | ⟨-, hMore, -, hFew⟩
      · omega
      · omega
    · rw [failures_concluded_other (not_and_or.mp hSame)]
      exact h.bounded q other
  case passed => exact fun q => (h.passed q).imp rfl hKept
  case overtaken => exact fun entry hMem => (h.overtaken entry hMem).imp rfl hKept
  case asked =>
    intro asked hMem
    dsimp only [System.concluded] at hMem
    split at hMem
    · next hCommit =>
        rcases List.mem_append.mp hMem with hOld | hNew
        · exact (h.asked asked hOld).imp rfl hKept
        · rw [List.mem_singleton.mp hNew]
          have hBefore : (s.concluded process coord effect outcome works).SettledBelow coord.partition
              coord.offset := hBelow.imp rfl hKept
          exact hBefore.succ (h.settled_of_call hCommit.1)
    · exact (h.asked asked hMem).imp rfl hKept
  case committed => exact fun q c hCommitted => (h.committed q c hCommitted).imp rfl hKept

/-- The consumer is moved to where everything before is settled. -/
theorem Consistent.moved (h : s.Consistent) {position : Nat → Nat}
    {overtaken : List (Nat × Coord)} {lost : List Coord} (hLost : ∀ c ∈ s.lost, c ∈ lost)
    (hOvertaken : ∀ entry ∈ overtaken, entry ∈ s.overtaken)
    (hPosition : ∀ q, position q = s.position q ∨
      System.SettledBelow { s with lost := lost } q (position q)) :
    System.Consistent
      { s with position := position, overtaken := overtaken, lost := lost } := by
  have hKept : ∀ coord, s.Settled coord → System.Settled { s with lost := lost } coord :=
    fun _ hSettled => hSettled.append (List.append_nil _).symm hLost fun _ _ hMem => hMem
  have hBelow : ∀ {q bound}, s.SettledBelow q bound →
      System.SettledBelow { s with lost := lost } q bound := fun hOld => hOld.imp rfl hKept
  constructor
  case counted => exact h.counted
  case bounded => exact h.bounded
  case passed =>
    intro q
    rcases hPosition q with hSame | hMoved
    · have hPassed := hBelow (h.passed q)
      rw [← hSame] at hPassed
      exact hPassed
    · exact hMoved
  case overtaken => exact fun entry hMem => hBelow (h.overtaken entry (hOvertaken entry hMem))
  case asked => exact fun coord hMem => hBelow (h.asked coord hMem)
  case committed => exact fun q c hCommitted => hBelow (h.committed q c hCommitted)

theorem Settled.lose (h : s.Settled coord) {lost : List Coord} (hLost : ∀ c ∈ s.lost, c ∈ lost) :
    System.Settled { s with lost := lost } coord :=
  h.append (List.append_nil _).symm hLost fun _ _ hMem => hMem

/-- The consumer leaves a settled message behind. -/
theorem Consistent.advanced (h : s.Consistent) {lost : List Coord}
    (hLost : ∀ c ∈ s.lost, c ∈ lost) (hSettled : System.Settled { s with lost := lost } (s.current p)) :
    System.Consistent
      { s with position := Function.update s.position p (s.position p + 1), lost := lost } := by
  refine h.moved hLost (fun _ hMem => hMem) fun q => ?_
  by_cases hq : q = p
  · subst hq
    have hPassed : System.SettledBelow { s with lost := lost } q (s.position q) :=
      (h.passed q).imp rfl fun _ hOld => hOld.lose hLost
    rw [Function.update_self]
    exact Or.inr (hPassed.succ hSettled)
  · exact Or.inl (Function.update_of_ne hq _ _)

/-- An iteration leaves the message behind, goes back to it, or fails to go back. -/
theorem iterate_cases (handle : Effect → Message → Choice → Effect × Outcome)
    (s : System Effect Message) (p : Nat) (message : Message) (choice : Choice) (works : Bool) :
    let after := s.concluded (s.owner p) (s.current p) (handle s.effect message choice).1
      (handle s.effect message choice).2 works
    let call := s.call (s.owner p) (s.current p) (handle s.effect message choice).2
    let past := Function.update s.position p (s.position p + 1)
    (call = .commitMessage ∧
        s.iterate handle p message choice works = { after with position := past }) ∨
      (call = .seek ∧ s.iterate handle p message choice works = after) ∨
      (call = .seek ∧ s.iterate handle p message choice works =
        { after with position := past, lost := s.lost ++ [s.current p] }) := by
  intro after call past
  cases hCall : s.call (s.owner p) (s.current p) (handle s.effect message choice).2 with
  | commitMessage => exact Or.inl ⟨hCall, by simp [iterate, hCall, past, after]; rfl⟩
  | seek =>
      cases works with
      | true => exact Or.inr (Or.inl ⟨hCall, by simp [iterate, hCall, after]; rfl⟩)
      | false => exact Or.inr (Or.inr ⟨hCall, by simp [iterate, hCall, past, after]⟩)

/-- What the consumer has read past is settled: the commit was asked for, or the client
library failed to go back. -/
theorem Consistent.iterate (h : s.Consistent) :
    (s.iterate handle p message choice works).Consistent := by
  have hAfter : (s.concluded (s.owner p) (s.current p) (handle s.effect message choice).1
      (handle s.effect message choice).2 works).Consistent := h.concluded (h.passed p)
  rcases iterate_cases handle s p message choice works with ⟨hCall, hEq⟩ | ⟨-, hEq⟩ | ⟨-, hEq⟩
  · rw [hEq]
    exact hAfter.advanced (fun _ hMem => hMem) (h.settled_of_call hCall)
  · rw [hEq]
    exact hAfter
  · rw [hEq]
    exact hAfter.advanced (fun _ hMem => List.mem_append_left _ hMem)
      (Or.inr (Or.inr (Or.inl (List.mem_append_right _ List.mem_cons_self))))

/-- Everything below an overtaken message is settled, so its process may go back to it. -/
theorem Consistent.finished (h : s.Consistent) (hMem : (process, coord) ∈ s.overtaken) :
    (s.finished handle process coord message choice works).Consistent := by
  have hBelow := h.overtaken (process, coord) hMem
  have hAfter : (s.concluded process coord (handle s.effect message choice).1
      (handle s.effect message choice).2 works).Consistent := h.concluded hBelow
  refine hAfter.moved (fun _ hLost => hLost) (fun _ hOther => List.mem_of_mem_erase hOther) fun q => ?_
  split
  · by_cases hq : q = coord.partition
    · subst hq
      rw [Function.update_self]
      exact Or.inr (hBelow.imp rfl fun _ hSettled => settled_concluded hSettled coord)
    · exact Or.inl (Function.update_of_ne hq _ _)
  · exact Or.inl rfl

/-- What one assignment has skipped remains skipped. -/
theorem mem_skipped_resume {q offset : Nat} (assigned : Nat → Bool) (h : offset ∈ s.skipped q) :
    offset ∈ (s.resume reset assigned).skipped q := by
  dsimp only [System.resume]
  split
  · exact List.mem_append_left _ h
  · exact h

theorem SettledBelow.resume {bound : Nat} (h : s.SettledBelow p bound) (assigned : Nat → Bool) :
    (s.resume reset assigned).SettledBelow p bound :=
  h.imp rfl fun _ hSettled =>
    hSettled.append (List.append_nil _).symm (fun _ hMem => hMem) fun _ _ => mem_skipped_resume assigned

/-- Where an assigned partition is read on, everything before is settled: what is
committed, or what was passed over if nothing is. -/
theorem Consistent.resume (h : s.Consistent) (reset : OffsetReset) (assigned : Nat → Bool) :
    (s.resume reset assigned).Consistent := by
  constructor
  case counted => exact h.counted
  case bounded => exact h.bounded
  case passed =>
    intro q
    by_cases hAssigned : assigned q = true
    · have hPosition : (s.resume reset assigned).position q = s.begins reset q := if_pos hAssigned
      rw [hPosition]
      cases hCommitted : s.committed q with
      | some c =>
          have hBegins : s.begins reset q = c := by simp [begins, hCommitted]
          rw [hBegins]
          exact (h.committed q c hCommitted).resume assigned
      | none =>
          intro offset hStart hLt
          by_cases hPassed : offset < s.position q
          · exact (h.passed q).resume assigned offset hStart hPassed
          · refine Or.inr (Or.inr (Or.inr ?_))
            show offset ∈ (s.resume reset assigned).skipped q
            have hSkipped : (s.resume reset assigned).skipped q = s.skipped q ++ s.skips reset q :=
              if_pos hAssigned
            have hSkips : s.skips reset q =
                List.range' (s.position q) (s.begins reset q - s.position q) := by
              simp [skips, hCommitted]
            rw [hSkipped, hSkips, List.mem_append, List.mem_range'_1]
            omega
    · have hPosition : (s.resume reset assigned).position q = s.position q := if_neg hAssigned
      rw [hPosition]
      exact (h.passed q).resume assigned
  case overtaken => exact fun entry hMem => (h.overtaken entry hMem).resume assigned
  case asked => exact fun coord hMem => (h.asked coord hMem).resume assigned
  case committed => exact fun q c hCommitted => (h.committed q c hCommitted).resume assigned

/-- A process that starts reads on from what is committed, below which everything is settled, or
skips what it passes over. -/
theorem Consistent.restarted (h : s.Consistent) (reset : OffsetReset) (process : Nat) :
    (s.restarted reset process).Consistent := by
  have hResumed := h.resume reset fun p => s.owner p = process
  refine ⟨?_, ?_, hResumed.passed, ?_, hResumed.asked, hResumed.committed⟩
  · intro other coord
    by_cases hOther : other = process
    · subst hOther
      simp [System.restarted]
    · simpa [System.restarted, System.resume, hOther] using hResumed.counted other coord
  · intro other coord
    by_cases hOther : other = process
    · subst hOther
      simp [System.restarted]
    · simpa [System.restarted, System.resume, hOther] using hResumed.bounded other coord
  · exact fun entry hMem => hResumed.overtaken entry (List.mem_of_mem_filter hMem)

/-- A partition given to another process begins there as after a restart. -/
theorem Consistent.reassigned (h : s.Consistent) (reset : OffsetReset) (p process : Nat) (atWork : Bool) :
    (s.reassigned reset p process atWork).Consistent := by
  have hResumed := h.resume reset fun q => q = p
  refine ⟨hResumed.counted, hResumed.bounded, hResumed.passed, ?_, hResumed.asked, hResumed.committed⟩
  intro entry hMem
  cases atWork with
  | false => exact hResumed.overtaken entry hMem
  | true =>
      rcases List.mem_append.mp hMem with hOld | hNew
      · exact hResumed.overtaken entry hOld
      · rw [List.mem_singleton.mp hNew]
        exact (h.passed p).resume fun q => q = p

/-- Every action leaves only settled messages behind, of which the counts know no more failures
than there were. -/
theorem Consistent.step (h : s.Consistent) (action : Action Message Choice) :
    (s.step handle reset action).Consistent := by
  cases action with
  | produce p message =>
      exact ⟨h.counted, h.bounded, h.passed, h.overtaken, h.asked, h.committed⟩
  | deliver p choice works =>
      dsimp only [System.step]
      split
      · exact h
      · exact h.iterate
  | interrupt p choice =>
      dsimp only [System.step]
      split
      · exact h
      · have hStopped := h.restarted reset (s.owner p)
        exact ⟨hStopped.counted, hStopped.bounded, hStopped.passed, hStopped.overtaken, hStopped.asked,
          hStopped.committed⟩
  | acknowledge coord =>
      dsimp only [System.step]
      split
      · next hMem =>
          refine ⟨h.counted, h.bounded, h.passed, h.overtaken, h.asked, ?_⟩
          intro q c hCommitted
          by_cases hq : q = coord.partition
          · subst hq
            obtain rfl : coord.offset = c := by simpa using hCommitted
            exact h.asked coord hMem
          · exact h.committed q c (by simpa [hq] using hCommitted)
      · exact h
  | reassign p process atWork => exact h.reassigned reset p process atWork
  | finish process coord choice works =>
      dsimp only [System.step]
      split
      · next hMem =>
          split
          · exact h
          · exact h.finished hMem
      · exact h
  | restart process => exact h.restarted reset process

/-! How often a message is handled while its partition stays with the process. -/

/-- How often the messages of the partition were handled. -/
def handledOn (s : System Effect Message) (p : Nat) : Nat :=
  s.handled.countP fun entry => entry.1.partition = p

/-- How often the message was handled. -/
def handledAt (s : System Effect Message) (coord : Coord) : Nat :=
  s.handled.countP fun entry => entry.1 = coord

/-- The failures that the process of the partition has counted for a message of it. -/
def failuresOn (s : System Effect Message) (p offset : Nat) : Nat :=
  (s.attempts (s.owner p)).failures ⟨p, offset⟩

/-- What the partition has used of the attempts that its messages may take. -/
def spent (s : System Effect Message) (p : Nat) : Nat :=
  (maxRetries + 1) * s.position p + s.failuresOn p (s.position p)

/-- What the message has used of its attempts. -/
def spentAt (s : System Effect Message) (p offset : Nat) : Nat :=
  if offset < s.position p then maxRetries + 1 else s.failuresOn p offset

/-- Each time a message of the partition is handled, it uses up an attempt. -/
structure Paced (p : Nat) (s t : System Effect Message) : Prop where
  advances : s.position p ≤ t.position p
  onPartition : t.handledOn p + s.spent p ≤ s.handledOn p + t.spent p
  onMessage : ∀ offset, t.handledAt ⟨p, offset⟩ + s.spentAt p offset ≤
    s.handledAt ⟨p, offset⟩ + t.spentAt p offset

theorem Paced.refl (p : Nat) (s : System Effect Message) : Paced p s s :=
  ⟨le_rfl, le_rfl, fun _ => le_rfl⟩

/-- One stretch after the other. -/
theorem Paced.trans {t u : System Effect Message} (h : Paced p s t) (h' : Paced p t u) :
    Paced p s u := by
  refine ⟨h.advances.trans h'.advances, ?_, ?_⟩
  · have hFirst := h.onPartition
    have hSecond := h'.onPartition
    omega
  · intro offset
    have hFirst := h.onMessage offset
    have hSecond := h'.onMessage offset
    omega

/-- A step that neither handles a message of the partition nor moves its consumer. -/
theorem Paced.of_other (hPosition : s'.position p = s.position p) {more : List (Coord × Outcome)}
    (hHandled : s'.handled = s.handled ++ more) (hMore : ∀ entry ∈ more, entry.1.partition ≠ p)
    (hFailures : ∀ offset, s'.failuresOn p offset = s.failuresOn p offset) : Paced p s s' := by
  refine ⟨hPosition.ge, ?_, ?_⟩
  · have hNone : more.countP (fun entry => entry.1.partition = p) = 0 :=
      List.countP_eq_zero.mpr fun entry hMem => by simpa using hMore entry hMem
    simp [handledOn, spent, hPosition, hHandled, hFailures, hNone]
  · intro offset
    have hNone : more.countP (fun entry => entry.1 = ⟨p, offset⟩) = 0 := by
      refine List.countP_eq_zero.mpr fun entry hMem hEq => hMore entry hMem ?_
      rw [of_decide_eq_true hEq]
    simp [handledAt, spentAt, hPosition, hHandled, hFailures, hNone]

/-- The failures of the other messages of the partition, after one was handled. -/
theorem failuresOn_other
    (hAttempts : s'.attempts = (s.concluded process coord effect outcome works).attempts)
    (hOwner : s'.owner = s.owner) {offset : Nat} (h : (⟨p, offset⟩ : Coord) ≠ coord) :
    s'.failuresOn p offset = s.failuresOn p offset := by
  rw [failuresOn, hAttempts, hOwner]
  exact failures_concluded_other (Or.inr h)

/-- A message that is left behind has used up its attempts, or will never need them. -/
theorem paced_leave (h : s.Consistent) (hPosition : s'.position p = s.position p + 1)
    (hHandled : s'.handled = s.handled ++ [(s.current p, outcome)])
    (hFailures : ∀ offset, offset ≠ s.position p → s'.failuresOn p offset = s.failuresOn p offset) :
    Paced p s s' := by
  have hFailed : s.failuresOn p (s.position p) ≤ maxRetries := h.bounded _ _
  refine ⟨by omega, ?_, ?_⟩
  · simp only [handledOn, spent, hPosition, hHandled, List.countP_append, List.countP_singleton,
      System.current, decide_true, if_true, Nat.mul_add_one]
    omega
  · intro offset
    by_cases hOffset : s.position p = offset
    · subst hOffset
      simp only [handledAt, spentAt, hPosition, hHandled, List.countP_append, List.countP_singleton,
        System.current, decide_true, if_true, lt_irrefl, if_false, Nat.lt_succ_self]
      omega
    · have hLater : offset < s.position p + 1 ↔ offset < s.position p := by omega
      simp [handledAt, spentAt, hPosition, hHandled, System.current, hOffset, hLater,
        hFailures offset (Ne.symm hOffset)]

/-- A message that is delivered again has used one more attempt. -/
theorem paced_back (hPosition : s'.position p = s.position p)
    (hHandled : s'.handled = s.handled ++ [(s.current p, outcome)])
    (hCounted : s'.failuresOn p (s.position p) = s.failuresOn p (s.position p) + 1)
    (hFailures : ∀ offset, offset ≠ s.position p → s'.failuresOn p offset = s.failuresOn p offset) :
    Paced p s s' := by
  refine ⟨hPosition.ge, ?_, ?_⟩
  · simp only [handledOn, spent, hPosition, hHandled, hCounted, List.countP_append,
      List.countP_singleton, System.current, decide_true, if_true]
    omega
  · intro offset
    by_cases hOffset : s.position p = offset
    · subst hOffset
      simp only [handledAt, spentAt, hPosition, hHandled, hCounted, List.countP_append,
        List.countP_singleton, System.current, decide_true, if_true, lt_irrefl, if_false]
      omega
    · simp [handledAt, spentAt, hPosition, hHandled, System.current, hOffset,
        hFailures offset (Ne.symm hOffset)]

theorem paced_iterate (h : s.Consistent) (q : Nat) :
    Paced p s (s.iterate handle q message choice works) := by
  have hHandled : (s.iterate handle q message choice works).handled =
      s.handled ++ [(s.current q, (handle s.effect message choice).2)] := rfl
  have hOther : ∀ offset, (⟨p, offset⟩ : Coord) ≠ s.current q →
      (s.iterate handle q message choice works).failuresOn p offset = s.failuresOn p offset := by
    have hAttempts : (s.iterate handle q message choice works).attempts =
        (s.concluded (s.owner q) (s.current q) (handle s.effect message choice).1
          (handle s.effect message choice).2 works).attempts := rfl
    exact fun offset hNe => failuresOn_other hAttempts rfl hNe
  by_cases hq : q = p
  · subst hq
    have hElse : ∀ offset, offset ≠ s.position q →
        (s.iterate handle q message choice works).failuresOn q offset = s.failuresOn q offset :=
      fun offset hNe => hOther offset fun hEq => hNe (Coord.mk.inj hEq).2
    have hLeft : (s.iterate handle q message choice works).position =
        Function.update s.position q (s.position q + 1) →
          Paced q s (s.iterate handle q message choice works) := by
      intro hPosition
      exact paced_leave h (by rw [hPosition, Function.update_self]) hHandled hElse
    rcases iterate_cases handle s q message choice works with ⟨-, hEq⟩ | ⟨hCall, hEq⟩ | ⟨-, hEq⟩
    · exact hLeft (congrArg System.position hEq)
    · refine paced_back (congrFun (congrArg System.position hEq) q) hHandled ?_ hElse
      rcases call_cases s (s.owner q) (s.current q) (handle s.effect message choice).1
        (handle s.effect message choice).2 works with ⟨hCommit, -⟩ | ⟨-, hMore, -⟩
      · cases hCommit.symm.trans hCall
      · exact hMore
    · exact hLeft (congrArg System.position hEq)
  · have hMore : ∀ entry ∈ [(s.current q, (handle s.effect message choice).2)], entry.1.partition ≠ p := by
      intro entry hMem
      rw [List.mem_singleton.mp hMem]
      exact hq
    have hKeep : (s.iterate handle q message choice works).position p = s.position p := by
      have hUpdate : Function.update s.position q (s.position q + 1) p = s.position p :=
        Function.update_of_ne (Ne.symm hq) _ _
      rcases iterate_cases handle s q message choice works with ⟨-, hEq⟩ | ⟨-, hEq⟩ | ⟨-, hEq⟩
      · exact (congrFun (congrArg System.position hEq) p).trans hUpdate
      · exact congrFun (congrArg System.position hEq) p
      · exact (congrFun (congrArg System.position hEq) p).trans hUpdate
    exact Paced.of_other hKeep hHandled hMore
      fun offset => hOther offset fun hEq => hq (Coord.mk.inj hEq).1.symm

/-- A step that leaves the partition with its process, and the process at work. Nobody
else is at work on a message of the partition. -/
def Stays (p : Nat) (s : System Effect Message) : Action Message Choice → Prop
  | .interrupt q _ => s.owner p ≠ s.owner q
  | .reassign q _ _ => p ≠ q
  | .finish _ coord _ _ => coord.partition ≠ p
  | .restart process => s.owner p ≠ process
  | _ => True

theorem paced_restarted (h : s.owner p ≠ process) : Paced p s (s.restarted reset process) := by
  refine Paced.of_other ?_ (List.append_nil _).symm (fun _ hMem => absurd hMem List.not_mem_nil) ?_
  · simp [restarted, resume, h]
  · intro offset
    simp [failuresOn, restarted, resume, h]

/-- A step that leaves the partition with its process handles a message of it only by using up
an attempt. -/
theorem paced_step (h : s.Consistent) {action : Action Message Choice} (hStays : Stays p s action) :
    Paced p s (s.step handle reset action) := by
  have hNothing : ∀ entry ∈ ([] : List (Coord × Outcome)), entry.1.partition ≠ p :=
    fun _ hMem => absurd hMem List.not_mem_nil
  cases action with
  | produce q message => exact Paced.of_other rfl (List.append_nil _).symm hNothing fun _ => rfl
  | deliver q choice works =>
      dsimp only [System.step]
      split
      · exact Paced.refl p s
      · exact paced_iterate h q
  | interrupt q choice =>
      dsimp only [System.step]
      split
      · exact Paced.refl p s
      · next message _ =>
          have hOther : Paced p s (s.restarted reset (s.owner q)) := paced_restarted hStays
          exact ⟨hOther.advances, hOther.onPartition, hOther.onMessage⟩
  | acknowledge coord =>
      dsimp only [System.step]
      split
      · exact Paced.of_other rfl (List.append_nil _).symm hNothing fun _ => rfl
      · exact Paced.refl p s
  | reassign q process atWork =>
      refine Paced.of_other ?_ (List.append_nil _).symm hNothing ?_
      · have hNe : p ≠ q := hStays
        simp [System.step, reassigned, resume, hNe]
      · intro offset
        have hNe : p ≠ q := hStays
        simp [failuresOn, System.step, reassigned, resume, hNe]
  | finish process coord choice works =>
      have hNe : coord.partition ≠ p := hStays
      dsimp only [System.step]
      split
      · split
        · exact Paced.refl p s
        · next message _ =>
            refine Paced.of_other ?_ rfl ?_ ?_
            · dsimp only [finished]
              split
              · exact Function.update_of_ne (Ne.symm hNe) _ _
              · rfl
            · intro entry hMem
              rw [List.mem_singleton.mp hMem]
              exact hNe
            · intro offset
              have hAttempts : (s.finished handle process coord message choice works).attempts =
                  (s.concluded process coord (handle s.effect message choice).1
                    (handle s.effect message choice).2 works).attempts := rfl
              exact failuresOn_other hAttempts rfl fun hEq => hNe (congrArg Coord.partition hEq).symm
      · exact Paced.refl p s
  | restart process => exact paced_restarted hStays

/-- What a run handles of the partition, it has used up attempts for. -/
theorem paced_run (h : s.Consistent) {actions : List (Action Message Choice)}
    (hStays : Along (System.step handle reset) (Stays p) s actions) :
    Paced p s (run (System.step handle reset) s actions) := by
  induction actions generalizing s with
  | nil => exact Paced.refl p s
  | cons action rest ih =>
      exact (paced_step h hStays.1).trans (ih (h.step action) hStays.2)

theorem Consistent.spent_le (h : s.Consistent) (p : Nat) :
    s.spent p ≤ (maxRetries + 1) * s.position p + maxRetries :=
  Nat.add_le_add_left (h.bounded _ _) _

/-- No message is tried more often than the retries allow. -/
theorem Consistent.spentAt_le (h : s.Consistent) (p offset : Nat) :
    s.spentAt p offset ≤ maxRetries + 1 := by
  unfold spentAt
  split
  · exact le_rfl
  · exact (h.bounded _ _).trans (Nat.le_succ _)

theorem consistent_new (reset : OffsetReset) (log : Nat → List Message) (owner : Nat → Nat)
    (effect : Effect) : (System.new reset log owner effect).Consistent where
  counted := fun _ _ => Nat.zero_le _
  bounded := fun _ _ => Nat.zero_le _
  passed := fun _ _ hStart hLt => absurd hLt (not_lt_of_ge hStart)
  overtaken := fun _ hMem => absurd hMem List.not_mem_nil
  asked := fun _ hMem => absurd hMem List.not_mem_nil
  committed := fun _ _ hCommitted => nomatch hCommitted

/-- Where the group began is never changed. -/
theorem start_step (s : System Effect Message) (action : Action Message Choice) :
    (s.step handle reset action).start = s.start := by
  cases action with
  | produce _ _ => rfl
  | deliver _ _ _ =>
      dsimp only [System.step]
      split <;> rfl
  | interrupt _ _ =>
      dsimp only [System.step]
      split <;> rfl
  | acknowledge _ =>
      dsimp only [System.step]
      split <;> rfl
  | reassign _ _ _ => rfl
  | finish _ _ _ _ =>
      dsimp only [System.step]
      split
      · split <;> rfl
      · rfl
  | restart _ => rfl

/-- Where a group began is written once and never again. -/
theorem start_run (handle : Effect → Message → Choice → Effect × Outcome) (reset : OffsetReset)
    (s : System Effect Message) (actions : List (Action Message Choice)) :
    (run (System.step handle reset) s actions).start = s.start :=
  run_invariant (fun {t action} (h : System.start t = s.start) (_ : True) => (start_step t action).trans h)
    rfl (along_true s actions)

/-- The invariant holds along every run. -/
theorem Consistent.run (h : s.Consistent) (handle : Effect → Message → Choice → Effect × Outcome)
    (actions : List (Action Message Choice)) : (run (System.step handle reset) s actions).Consistent :=
  run_invariant (fun h (_ : True) => h.step _) h (along_true _ actions)

end System

/-- A group leaves a message behind only once it is settled: in every run, with any
restarts, moved partitions, failed calls, and commits that are lost or arrive in another
order, each offset from where the group began that is below the consumer's position or
below the committed offset was handled, or failed more often than it is retried, or was
lost by a client library that did not go back to it, or was passed over when its partition
was assigned anew before anything of it was committed. -/
theorem left_behind_settled (handle : Effect → Message → Choice → Effect × Outcome)
    (reset : OffsetReset) (log : Nat → List Message) (owner : Nat → Nat) (effect : Effect)
    (actions : List (Action Message Choice)) (p offset : Nat) (hBegan : reset.first (log p) ≤ offset) :
    let s := run (System.step handle reset) (System.new reset log owner effect) actions
    (offset < s.position p ∨ ∃ c, s.committed p = some c ∧ offset < c) → s.Settled ⟨p, offset⟩ := by
  intro s hBehind
  have h : s.Consistent := (System.consistent_new reset log owner effect).run handle actions
  have hStart : s.start p ≤ offset := by
    rw [System.start_run]
    exact hBegan
  rcases hBehind with hPosition | ⟨c, hCommitted, hLt⟩
  · exact h.passed p offset hStart hPosition
  · exact h.committed p c hCommitted offset hStart hLt

/-- A message that failed is passed over by a restart. -/
theorem left_behind_settled_skipped :
    let step := System.step (fun (_ : Unit) (_ : Unit) outcome => ((), outcome)) OffsetReset.latest
    let s := run step (System.new .latest (fun _ => []) (fun _ => 0) ())
      [.produce 0 (), .deliver 0 .retry true, .restart 0, .produce 0 (), .deliver 0 .commit true]
    s.Settled ⟨0, 0⟩ ∧ (⟨0, 0⟩, Outcome.commit) ∉ s.handled :=
  ⟨left_behind_settled (fun (_ : Unit) (_ : Unit) outcome => ((), outcome)) .latest (fun _ => [])
    (fun _ => 0) () [.produce 0 (), .deliver 0 .retry true, .restart 0, .produce 0 (),
      .deliver 0 .commit true] 0 0 (by decide) (Or.inl (by decide +kernel)), by decide +kernel⟩

/-- No message blocks its partition: in every run, while a partition stays with its
process, and nobody comes to the end of work on a message of it that was overtaken, no
message of it is handled more than six times, and the number of messages handled bounds
how far the consumer has got: every six of them leave one behind. -/
theorem handled_bounded (handle : Effect → Message → Choice → Effect × Outcome)
    (reset : OffsetReset) (log : Nat → List Message) (owner : Nat → Nat) (effect : Effect)
    (before actions : List (Action Message Choice)) (p : Nat)
    (hStays : Along (System.step handle reset) (System.Stays p)
      (run (System.step handle reset) (System.new reset log owner effect) before) actions) :
    let s := run (System.step handle reset) (System.new reset log owner effect) before
    let s' := run (System.step handle reset) s actions
    s'.handledOn p ≤ s.handledOn p + (maxRetries + 1) * (s'.position p - s.position p) + maxRetries ∧
      ∀ offset, s'.handledAt ⟨p, offset⟩ ≤ s.handledAt ⟨p, offset⟩ + (maxRetries + 1) := by
  intro s s'
  have h : s.Consistent := (System.consistent_new reset log owner effect).run handle before
  have h' : s'.Consistent := h.run handle actions
  have hPaced : System.Paced p s s' := System.paced_run h hStays
  refine ⟨?_, ?_⟩
  · have hSpent := hPaced.onPartition
    have hMost := h'.spent_le p
    have hLeast : (maxRetries + 1) * s.position p ≤ s.spent p := Nat.le_add_right _ _
    have hScaled := Nat.mul_le_mul_left (maxRetries + 1) hPaced.advances
    rw [Nat.mul_sub]
    omega
  · intro offset
    have hSpent := hPaced.onMessage offset
    have hMost := h'.spentAt_le p offset
    omega

/-- A message that fails each time is handled six times and left behind. -/
theorem handled_bounded_failing :
    let step := System.step (fun (_ _ _ : Unit) => ((), Outcome.retry)) OffsetReset.earliest
    let s := run step (System.new .earliest (fun _ => [(), ()]) (fun _ => 0) ()) []
    let s' := run step s (List.replicate 7 (.deliver 0 () true))
    s'.position 0 = 1 ∧
      s'.handledOn 0 ≤ s.handledOn 0 + (maxRetries + 1) * (s'.position 0 - s.position 0) + maxRetries ∧
      ∀ offset, s'.handledAt ⟨0, offset⟩ ≤ s.handledAt ⟨0, offset⟩ + (maxRetries + 1) :=
  ⟨by decide +kernel, handled_bounded (fun (_ _ _ : Unit) => ((), Outcome.retry)) .earliest
    (fun _ => [(), ()]) (fun _ => 0) () [] (List.replicate 7 (.deliver 0 () true)) 0
    ⟨trivial, trivial, trivial, trivial, trivial, trivial, trivial, trivial⟩⟩

/-! What a worker brings about. -/

/-- The action hands the message to the worker, with the choice. -/
def System.Handles (s : System Effect Message) (message : Message) (choice : Choice) :
    Action Message Choice → Prop
  | .deliver p made _ => s.next p = some message ∧ made = choice
  | .interrupt p made => s.next p = some message ∧ made = choice
  | .finish process coord made _ => (process, coord) ∈ s.overtaken ∧
      (s.log coord.partition)[coord.offset]? = some message ∧ made = choice
  | _ => False

/-- Somewhere in the run the message is handed to the worker, with the choice. -/
def HandledIn (handle : Effect → Message → Choice → Effect × Outcome) (reset : OffsetReset)
    (s : System Effect Message) (actions : List (Action Message Choice)) (message : Message)
    (choice : Choice) : Prop :=
  ∃ entry ∈ trace (System.step handle reset) s actions, entry.1.Handles message choice entry.2

/-- Every choice that the step makes is allowed for the message. -/
def System.Allows (Allowed : Message → Choice → Prop) (s : System Effect Message)
    (action : Action Message Choice) : Prop :=
  ∀ message choice, s.Handles message choice action → Allowed message choice

/-- Every choice of a run is one with which it handles its message. -/
theorem allows_handledIn (handle : Effect → Message → Choice → Effect × Outcome) (reset : OffsetReset)
    (s : System Effect Message) (actions : List (Action Message Choice)) :
    Along (System.step handle reset) (System.Allows (HandledIn handle reset s actions)) s actions :=
  (along_trace s actions).imp fun t action hMem _ _ hHandles => ⟨(t, action), hMem, hHandles⟩

/-- A worker that reports a message as done has done it, and no message undoes it. -/
structure Accomplishes (handle : Effect → Message → Choice → Effect × Outcome)
    (Allowed : Message → Choice → Prop) (Good : Effect → Prop) (Done : Message → Effect → Prop) :
    Prop where
  good : ∀ {effect message choice}, Allowed message choice → Good effect →
    Good (handle effect message choice).1
  commits : ∀ {effect message choice}, Allowed message choice → Good effect →
    (handle effect message choice).2 = .commit → Done message (handle effect message choice).1
  keeps : ∀ {effect message other choice}, Allowed other choice → Good effect → Done message effect →
    Done message (handle effect other choice).1

variable {Allowed : Message → Choice → Prop} {Good : Effect → Prop} {Done : Message → Effect → Prop}

namespace System

/-- Every message that was handled with success is done. -/
structure Accomplished (Good : Effect → Prop) (Done : Message → Effect → Prop)
    (s : System Effect Message) : Prop where
  good : Good s.effect
  done : ∀ coord, (coord, Outcome.commit) ∈ s.handled →
    ∃ message, (s.log coord.partition)[coord.offset]? = some message ∧ Done message s.effect

/-- A message that the worker has handled. -/
theorem Accomplished.concluded (hWorker : Accomplishes handle Allowed Good Done)
    (h : s.Accomplished Good Done) (process : Nat) (works : Bool) (hAllowed : Allowed message choice)
    (hLog : (s.log coord.partition)[coord.offset]? = some message) :
    (s.concluded process coord (handle s.effect message choice).1 (handle s.effect message choice).2
      works).Accomplished Good Done := by
  refine ⟨hWorker.good hAllowed h.good, ?_⟩
  intro other hMem
  rcases List.mem_append.mp hMem with hOld | hNew
  · obtain ⟨earlier, hEarlier, hDone⟩ := h.done other hOld
    exact ⟨earlier, hEarlier, hWorker.keeps hAllowed h.good hDone⟩
  · obtain ⟨rfl, hCommit⟩ := Prod.mk.inj (List.mem_singleton.mp hNew)
    exact ⟨message, hLog, hWorker.commits hAllowed h.good hCommit.symm⟩

/-- A further message in a log undoes nothing. -/
theorem Accomplished.produce (h : s.Accomplished Good Done) (message : Message) :
    System.Accomplished Good Done
      { s with log := Function.update s.log p (s.log p ++ [message]) } := by
  refine ⟨h.good, ?_⟩
  intro coord hMem
  obtain ⟨earlier, hLog, hDone⟩ := h.done coord hMem
  refine ⟨earlier, ?_, hDone⟩
  by_cases hp : coord.partition = p
  · subst hp
    obtain ⟨hShort, -⟩ := List.getElem?_eq_some_iff.mp hLog
    simpa [List.getElem?_append_left hShort] using hLog
  · simpa [hp] using hLog

/-- What was handled with success is done, and stays done. -/
theorem Accomplished.step (hWorker : Accomplishes handle Allowed Good Done)
    (h : s.Accomplished Good Done) {action : Action Message Choice} (hAllows : s.Allows Allowed action) :
    (s.step handle reset action).Accomplished Good Done := by
  cases action with
  | produce p message => exact h.produce message
  | deliver p choice works =>
      dsimp only [System.step]
      split
      · exact h
      · next message hNext =>
          have hLog : (s.log (s.current p).partition)[(s.current p).offset]? = some message := hNext
          have hAfter := h.concluded hWorker (s.owner p) works (hAllows message choice ⟨hNext, rfl⟩) hLog
          exact ⟨hAfter.good, hAfter.done⟩
  | interrupt p choice =>
      dsimp only [System.step]
      split
      · exact h
      · next message hNext =>
          have hAllowed := hAllows message choice ⟨hNext, rfl⟩
          refine ⟨hWorker.good hAllowed h.good, ?_⟩
          intro coord hMem
          obtain ⟨earlier, hLog, hDone⟩ := h.done coord hMem
          exact ⟨earlier, hLog, hWorker.keeps hAllowed h.good hDone⟩
  | acknowledge coord =>
      dsimp only [System.step]
      split
      · exact ⟨h.good, h.done⟩
      · exact h
  | reassign p process atWork => exact ⟨h.good, h.done⟩
  | finish process coord choice works =>
      dsimp only [System.step]
      split
      · next hOvertaken =>
          split
          · exact h
          · next message hLog =>
              have hAfter := h.concluded hWorker process works
                (hAllows message choice ⟨hOvertaken, hLog, rfl⟩) hLog
              exact ⟨hAfter.good, hAfter.done⟩
      · exact h
  | restart process => exact ⟨h.good, h.done⟩

/-- A message of the log that the group has left behind. -/
structure LeftBehind (s : System Effect Message) (coord : Coord) (message : Message) : Prop where
  isAt : (s.log coord.partition)[coord.offset]? = some message
  began : s.start coord.partition ≤ coord.offset
  behind : coord.offset < s.position coord.partition ∨
    ∃ c, s.committed coord.partition = some c ∧ coord.offset < c

end System

/-- What a worker accomplishes for a message it reports as done, the group accomplishes
for every message that it leaves behind, unless it gave up on it. -/
theorem left_behind_done (hWorker : Accomplishes handle Allowed Good Done) (reset : OffsetReset)
    {log : Nat → List Message} (owner : Nat → Nat) {effect : Effect}
    {actions : List (Action Message Choice)} (hGood : Good effect)
    (hAllows : Along (System.step handle reset) (System.Allows Allowed)
      (System.new reset log owner effect) actions) :
    let s := run (System.step handle reset) (System.new reset log owner effect) actions
    Good s.effect ∧ ∀ coord message, s.LeftBehind coord message → Done message s.effect ∨ s.GivenUp coord := by
  intro s
  have hNew : (System.new reset log owner effect).Accomplished Good Done :=
    ⟨hGood, fun _ hMem => absurd hMem List.not_mem_nil⟩
  have hRun : s.Accomplished Good Done :=
    run_invariant (fun h hAction => h.step hWorker hAction) hNew hAllows
  have h : s.Consistent := (System.consistent_new reset log owner effect).run handle actions
  refine ⟨hRun.good, ?_⟩
  intro coord message hLeft
  have hSettled : s.Settled coord := by
    rcases hLeft.behind with hPosition | ⟨c, hCommitted, hLt⟩
    · exact h.passed _ coord.offset hLeft.began hPosition
    · exact h.committed _ c hCommitted coord.offset hLeft.began hLt
  rcases hSettled with hCommit | hOther
  · obtain ⟨same, hLog, hDone⟩ := hRun.done coord hCommit
    obtain rfl : same = message := Option.some.inj (hLog.symm.trans hLeft.isAt)
    exact Or.inl hDone
  · exact Or.inr hOther

end Polycentric.Workers
