import Polycentric.Library.Runs
import Polycentric.Query.QueryState

/-! Fetching a key: `fetch`, `spawn_fanout` and `get_server_response`. Every server of
a fan-out has a task of its own, which records its answer under the lock of the
state and publishes what came of it afterwards. All fetches of one key share its
state. -/
namespace Polycentric.Query

open Runs

inductive FetchMode where
  /-- Return from the cache, then query each server. -/
  | default
  /-- Query the servers only if nothing is cached. -/
  | offlineFirst
  /-- Only ever read the cached data. -/
  | offlineOnly
  deriving DecidableEq, Repr

def FetchMode.needsFetch {T : Type} (cached : Option T) : FetchMode → Bool
  | .offlineOnly => false
  | .offlineFirst => cached.isNone
  | .default => true

/-- When merged data is emitted during a fan-out. -/
inductive EmitMode where
  /-- Once every server has responded or timed out. -/
  | default
  /-- As each response arrives. -/
  | eager
  deriving DecidableEq, Repr

structure QueryResult (T : Type) where
  data : Option T
  status : QueryStatus
  successfulServers : Nat
  pendingServers : Nat
  deriving DecidableEq, Repr

/-- What a subscriber is called with. -/
inductive Notification (T : Type) where
  | next (result : QueryResult T)
  | error (message : String)
  | complete
  deriving DecidableEq, Repr

/-- What a fetch was asked for. The servers are the resolved ones. -/
structure FanoutContext (T : Type) where
  servers : List String
  updateMode : UpdateMode
  emitMode : EmitMode
  mergeFn : MergeFn T

/-- A subscription. It has an epoch once its fan-out is spawned; then the waiting
servers are those whose task has no result yet, and every other task has an outbox
of what it still has to publish, in the order in which they recorded. -/
structure Fetch (T : Type) where
  context : FanoutContext T
  epoch : Option Nat
  pending : Nat
  successful : Nat
  waiting : List String
  outboxes : List (List (Notification T))
  received : List (Notification T)
  closed : Bool

namespace Fetch

variable {T : Type}

/-- `Subscriber::next`, `error` and `complete`: nothing reaches a closed subscription. -/
def deliver (fetch : Fetch T) (notifications : List (Notification T)) : Fetch T :=
  if fetch.closed then fetch else { fetch with received := fetch.received ++ notifications }

/-- The subscription: what is cached is delivered at once. -/
def subscribe (state : QueryState T) (context : FanoutContext T) (mode : FetchMode) :
    QueryState T × Fetch T :=
  let (cached, state) := state.computeEmission context.mergeFn
  let needsFetch := mode.needsFetch cached
  let targets := if needsFetch then context.servers else []
  let willFetch := needsFetch && !targets.isEmpty
  let opened : Fetch T := ⟨{ context with servers := targets }, none, 0, 0, [], [], [], false⟩
  let opened := match cached with
    | some data =>
        opened.deliver [.next ⟨some data, if willFetch then .loading else .success, 0,
          if willFetch then targets.length else 0⟩]
    | none => opened
  (state, if willFetch then opened else opened.deliver [.complete])

/-- `spawn_fanout`: a new epoch, and a task for each server, unless there is no
runtime for the first of them. -/
def spawn (state : QueryState T) (fetch : Fetch T) (runtime : Bool) : QueryState T × Fetch T :=
  let state := state.nextFanout fetch.context.updateMode
  let fetch := { fetch with
    epoch := some state.epoch
    pending := fetch.context.servers.length }
  match runtime, fetch.context.servers with
  | false, server :: _ =>
      (state, fetch.deliver [.error s!"error [{server}]: runtime unavailable", .complete])
  | _, servers => (state, { fetch with waiting := servers })

/-- The state once a result is known. -/
def answered (state : QueryState T) (fetch : Fetch T) (epoch : Nat) (server : String) :
    Except String T → QueryState T
  | .ok value => state.update server value epoch fetch.context.updateMode
  | .error _ => state

/-- The merged data to publish. The default emit mode publishes only the settled
result, so it skips intermediate merges. -/
def snapshot (state : QueryState T) (fetch : Fetch T) (pending successful : Nat) :
    QueryState T × Option (QueryResult T) :=
  if fetch.context.emitMode = .default ∧ pending ≠ 0 then (state, none)
  else
    let (data, emitted) := state.computeEmission fetch.context.mergeFn
    (emitted, some ⟨data, state.status pending, successful, pending⟩)

/-- What a task does under the lock: it counts, records its answer, and takes a
snapshot of the merged data. What it publishes afterwards is its outbox. -/
def record (state : QueryState T) (fetch : Fetch T) (epoch : Nat) (server : String)
    (result : Except String T) : QueryState T × Fetch T :=
  let pending := fetch.pending - 1
  let successful := match result with
    | .ok _ => fetch.successful + 1
    | .error _ => fetch.successful
  let errors : List (Notification T) := match result with
    | .ok _ => []
    | .error message => [.error message]
  let isLast := pending == 0
  let (state, snapshot) := snapshot (answered state fetch epoch server result) fetch pending successful
  let published := snapshot.toList.map .next ++ errors ++ if isLast then [.complete] else []
  (state, { fetch with
    pending := pending
    successful := successful
    outboxes := fetch.outboxes ++ [published] })

/-- A task publishes the next of its notifications, outside of the lock. -/
def publish (fetch : Fetch T) (task : Nat) : Fetch T :=
  match fetch.outboxes[task]? with
  | some (notification :: rest) =>
      ({ fetch with outboxes := fetch.outboxes.set task rest } : Fetch T).deliver [notification]
  | _ => fetch

end Fetch

/-- An answer that was recorded. It is late if a fan-out that replaces was started
after its own. -/
structure Answer (T : Type) where
  server : String
  epoch : Nat
  mode : UpdateMode
  late : Bool
  value : T
  deriving DecidableEq, Repr

/-- The fetches of a key, with the answers that were recorded so far, in order. -/
structure System (T : Type) where
  state : QueryState T
  fetches : List (Fetch T)
  answers : List (Answer T)

/-- What can happen next: a subscription, the spawn of its fan-out, a task that
records its result or publishes, the end of a subscription, or an invalidation. -/
inductive Action (T : Type) where
  | subscribe (context : FanoutContext T) (mode : FetchMode)
  | spawn (fetch : Nat) (runtime : Bool)
  | record (fetch : Nat) (task : Nat) (result : Except String T)
  | publish (fetch : Nat) (task : Nat)
  | unsubscribe (fetch : Nat)
  | invalidate

namespace System

variable {T : Type}

def new : System T := ⟨.new, [], []⟩

/-- The system after a task has recorded its result. -/
def afterRecord (s : System T) (id task epoch : Nat) (fetch : Fetch T) (server : String)
    (result : Except String T) : System T :=
  let (state, recorded) := Fetch.record s.state
    { fetch with waiting := fetch.waiting.eraseIdx task } epoch server result
  { state := state
    fetches := s.fetches.set id recorded
    answers := s.answers ++ match result with
      | .ok value => [⟨server, epoch, fetch.context.updateMode,
          decide (s.state.latestReplaceEpoch > epoch), value⟩]
      | .error _ => [] }

def step (s : System T) (action : Action T) : System T :=
  match action with
  | .subscribe context mode =>
      let (state, fetch) := Fetch.subscribe s.state context mode
      { s with state := state, fetches := s.fetches ++ [fetch] }
  | .spawn id runtime =>
      match s.fetches[id]? with
      | some fetch =>
          if fetch.epoch.isNone ∧ fetch.context.servers ≠ [] then
            let (state, fetch) := fetch.spawn s.state runtime
            { s with state := state, fetches := s.fetches.set id fetch }
          else s
      | none => s
  | .record id task result =>
      match s.fetches[id]? with
      | some fetch =>
          match fetch.epoch, fetch.waiting[task]? with
          | some epoch, some server => s.afterRecord id task epoch fetch server result
          | _, _ => s
      | none => s
  | .publish id task =>
      match s.fetches[id]? with
      | some fetch => { s with fetches := s.fetches.set id (fetch.publish task) }
      | none => s
  | .unsubscribe id =>
      match s.fetches[id]? with
      | some fetch => { s with fetches := s.fetches.set id { fetch with closed := true } }
      | none => s
  | .invalidate => { s with state := s.state.invalidate }

/-- What a step can do. A task that is not there does nothing. -/
inductive Stepped (s : System T) : Action T → System T → Prop where
  | idle (action : Action T) : Stepped s action s
  | subscribed (context : FanoutContext T) (mode : FetchMode) :
      Stepped s (.subscribe context mode)
        { s with
          state := (Fetch.subscribe s.state context mode).1
          fetches := s.fetches ++ [(Fetch.subscribe s.state context mode).2] }
  | spawned (id : Nat) (runtime : Bool) (fetch : Fetch T) (hGet : s.fetches[id]? = some fetch)
      (hNone : fetch.epoch = none) (hServers : fetch.context.servers ≠ []) :
      Stepped s (.spawn id runtime)
        { s with
          state := (fetch.spawn s.state runtime).1
          fetches := s.fetches.set id (fetch.spawn s.state runtime).2 }
  | recorded (id task epoch : Nat) (fetch : Fetch T) (server : String) (result : Except String T)
      (hGet : s.fetches[id]? = some fetch) (hEpoch : fetch.epoch = some epoch)
      (hServer : fetch.waiting[task]? = some server) :
      Stepped s (.record id task result) (s.afterRecord id task epoch fetch server result)
  | published (id task : Nat) (fetch : Fetch T) (hGet : s.fetches[id]? = some fetch) :
      Stepped s (.publish id task) { s with fetches := s.fetches.set id (fetch.publish task) }
  | unsubscribed (id : Nat) (fetch : Fetch T) (hGet : s.fetches[id]? = some fetch) :
      Stepped s (.unsubscribe id)
        { s with fetches := s.fetches.set id { fetch with closed := true } }
  | invalidated : Stepped s .invalidate { s with state := s.state.invalidate }

theorem stepped (s : System T) (action : Action T) : Stepped s action (s.step action) := by
  generalize hNext : s.step action = s'
  unfold step at hNext
  cases action with
  | subscribe context mode =>
      subst hNext
      exact .subscribed context mode
  | spawn id runtime =>
      dsimp only at hNext
      split at hNext
      · next fetch hGet =>
          split at hNext
          · next hReady =>
              subst hNext
              exact .spawned id runtime fetch hGet (Option.isNone_iff_eq_none.mp hReady.1) hReady.2
          · exact hNext ▸ .idle _
      · exact hNext ▸ .idle _
  | record id task result =>
      dsimp only at hNext
      split at hNext
      · next fetch hGet =>
          split at hNext
          · next epoch server hEpoch hServer =>
              subst hNext
              exact .recorded id task epoch fetch server result hGet hEpoch hServer
          · exact hNext ▸ .idle _
      · exact hNext ▸ .idle _
  | publish id task =>
      dsimp only at hNext
      split at hNext
      · next fetch hGet => exact hNext ▸ .published id task fetch hGet
      · exact hNext ▸ .idle _
  | unsubscribe id =>
      dsimp only at hNext
      split at hNext
      · next fetch hGet => exact hNext ▸ .unsubscribed id fetch hGet
      · exact hNext ▸ .idle _
  | invalidate => exact hNext ▸ .invalidated

end System

/-! ### What the parts of a step touch -/

section Frames

variable {T : Type} (state : QueryState T) (fetch : Fetch T)

theorem QueryState.computeEmission_frame (mergeFn : MergeFn T) :
    (state.computeEmission mergeFn).2 =
      { state with emitted := (state.computeEmission mergeFn).2.emitted } := by
  unfold computeEmission
  split <;> rfl

theorem QueryState.computeEmission_epochs (mergeFn : MergeFn T) :
    (state.computeEmission mergeFn).2.epoch = state.epoch ∧
      (state.computeEmission mergeFn).2.latestReplaceEpoch = state.latestReplaceEpoch := by
  rw [computeEmission_frame]
  exact ⟨rfl, rfl⟩

theorem QueryState.update_epochs (server : String) (value : T) (epoch : Nat) (mode : UpdateMode) :
    (state.update server value epoch mode).epoch = state.epoch ∧
      (state.update server value epoch mode).latestReplaceEpoch = state.latestReplaceEpoch := by
  unfold update
  split <;> exact ⟨rfl, rfl⟩

namespace Fetch

@[simp] theorem deliver_epoch (notifications : List (Notification T)) :
    (fetch.deliver notifications).epoch = fetch.epoch := by
  unfold deliver
  split <;> rfl

@[simp] theorem deliver_context (notifications : List (Notification T)) :
    (fetch.deliver notifications).context = fetch.context := by
  unfold deliver
  split <;> rfl

theorem subscribe_state (context : FanoutContext T) (mode : FetchMode) :
    (subscribe state context mode).1 = (state.computeEmission context.mergeFn).2 := rfl

theorem subscribe_epoch (context : FanoutContext T) (mode : FetchMode) :
    (subscribe state context mode).2.epoch = none := by
  have hClose : ∀ (willFetch : Bool) (opened : Fetch T),
      (if willFetch then opened else opened.deliver [.complete]).epoch = opened.epoch := by
    intro willFetch opened
    cases willFetch <;> simp
  unfold subscribe
  dsimp only
  rw [hClose]
  cases (state.computeEmission context.mergeFn).1 <;> simp

theorem subscribe_mergeFn (context : FanoutContext T) (mode : FetchMode) :
    (subscribe state context mode).2.context.mergeFn = context.mergeFn := by
  have hClose : ∀ (willFetch : Bool) (opened : Fetch T),
      (if willFetch then opened else opened.deliver [.complete]).context = opened.context := by
    intro willFetch opened
    cases willFetch <;> simp
  unfold subscribe
  dsimp only
  rw [hClose]
  cases (state.computeEmission context.mergeFn).1 <;> simp

theorem spawn_state (runtime : Bool) :
    (spawn state fetch runtime).1 = state.nextFanout fetch.context.updateMode := by
  unfold spawn
  dsimp only
  split <;> rfl

theorem spawn_epoch (runtime : Bool) : (spawn state fetch runtime).2.epoch = some (state.epoch + 1) := by
  unfold spawn
  dsimp only
  split <;> simp [QueryState.nextFanout]

theorem spawn_context (runtime : Bool) : (spawn state fetch runtime).2.context = fetch.context := by
  unfold spawn
  dsimp only
  split <;> simp

theorem snapshot_state (pending successful : Nat) :
    (snapshot state fetch pending successful).1 = state ∨
      (snapshot state fetch pending successful).1 = (state.computeEmission fetch.context.mergeFn).2 := by
  unfold snapshot
  split
  · exact Or.inl rfl
  · exact Or.inr rfl

theorem record_state (epoch : Nat) (server : String) (result : Except String T) :
    (record state fetch epoch server result).1 = answered state fetch epoch server result ∨
      (record state fetch epoch server result).1 =
        ((answered state fetch epoch server result).computeEmission fetch.context.mergeFn).2 :=
  snapshot_state _ fetch _ _

/-- Only a fan-out hands out an epoch. -/
theorem record_epochs (epoch : Nat) (server : String) (result : Except String T) :
    (record state fetch epoch server result).1.epoch = state.epoch ∧
      (record state fetch epoch server result).1.latestReplaceEpoch = state.latestReplaceEpoch := by
  have hAnswered : (answered state fetch epoch server result).epoch = state.epoch ∧
      (answered state fetch epoch server result).latestReplaceEpoch = state.latestReplaceEpoch := by
    cases result with
    | ok value => exact state.update_epochs server value epoch _
    | error message => exact ⟨rfl, rfl⟩
  rcases record_state state fetch epoch server result with hState | hState
  · rw [hState]
    exact hAnswered
  · rw [hState, (QueryState.computeEmission_epochs _ _).1, (QueryState.computeEmission_epochs _ _).2]
    exact hAnswered

theorem record_fetch (epoch : Nat) (server : String) (result : Except String T) :
    (record state fetch epoch server result).2.epoch = fetch.epoch ∧
      (record state fetch epoch server result).2.context = fetch.context := ⟨rfl, rfl⟩

theorem publish_fetch (task : Nat) :
    (fetch.publish task).epoch = fetch.epoch ∧ (fetch.publish task).context = fetch.context := by
  unfold publish
  split <;> simp

end Fetch

namespace System

/-- What holds once a result is recorded, and outlasts an emission, holds after the step. -/
theorem afterRecord_induct {motive : System T → Prop} {s : System T} {id task epoch : Nat} {server : String}
    {result : Except String T}
    (hEmits : ∀ {t : System T} (mergeFn : MergeFn T), motive t →
      motive { t with state := (t.state.computeEmission mergeFn).2 })
    (hAnswer : ∀ value, result = .ok value → motive
      { state := s.state.update server value epoch fetch.context.updateMode
        fetches := s.fetches.set id
          (Fetch.record s.state { fetch with waiting := fetch.waiting.eraseIdx task } epoch server result).2
        answers := s.answers ++ [⟨server, epoch, fetch.context.updateMode,
          decide (s.state.latestReplaceEpoch > epoch), value⟩] })
    (hFailure : ∀ message, result = .error message → motive
      { s with
        fetches := s.fetches.set id
          (Fetch.record s.state { fetch with waiting := fetch.waiting.eraseIdx task } epoch server result).2 }) :
    motive (s.afterRecord id task epoch fetch server result) := by
  have hState := Fetch.record_state s.state { fetch with waiting := fetch.waiting.eraseIdx task }
    epoch server result
  unfold afterRecord
  generalize Fetch.record s.state { fetch with waiting := fetch.waiting.eraseIdx task } epoch server
    result = recorded at hState hAnswer hFailure ⊢
  obtain ⟨state, fetch'⟩ := recorded
  dsimp only [Fetch.answered] at hState hAnswer hFailure ⊢
  cases result with
  | ok value =>
      rcases hState with rfl | rfl
      · exact hAnswer value rfl
      · exact hEmits fetch.context.mergeFn (hAnswer value rfl)
  | error message =>
      rcases hState with rfl | rfl
      · simpa using hFailure message rfl
      · simpa using hEmits fetch.context.mergeFn (hFailure message rfl)

end System

end Frames

end Polycentric.Query
