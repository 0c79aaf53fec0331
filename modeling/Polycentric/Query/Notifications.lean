import Polycentric.Query.FanOut

/-! What a subscriber is told by a fan-out. A task takes its snapshot under the lock and
publishes it outside of it, so the tasks may publish in another order than the one in
which they recorded. -/
namespace Polycentric.Query

open Memo Runs

variable {T : Type}

namespace QueryState

variable (state : QueryState T)

/-- What is emitted is the merge of what is held and what was emitted before. -/
theorem computeEmission_fst (mergeFn : MergeFn T) :
    (state.computeEmission mergeFn).1 = state.computeMerged state.emitted mergeFn := by
  unfold computeEmission
  split
  · next hMerged => exact hMerged.symm
  · next hMerged => exact hMerged.symm

theorem computeMerged_computeEmission (mergeFn : MergeFn T) (previous : Option T)
    (mergeFn' : MergeFn T) :
    (state.computeEmission mergeFn).2.computeMerged previous mergeFn' =
      state.computeMerged previous mergeFn' := by
  rw [computeEmission_frame]
  rfl

end QueryState

namespace Notification

def isComplete : Notification T → Bool
  | .complete => true
  | .next _ | .error _ => false

def result? : Notification T → Option (QueryResult T)
  | .next result => some result
  | .error _ | .complete => none

end Notification

namespace Fetch

/-- The data that the subscriber was told last. -/
def lastData (received : List (Notification T)) : Option (Option T) :=
  (received.filterMap Notification.result?).getLast?.map QueryResult.data

/-- The task that completes publishes its snapshot after those of all others, and
completes after all others have published. -/
def Publishable (others : List (List (Notification T))) : List (Notification T) → Prop
  | .next _ :: rest => rest.any Notification.isComplete = true →
      ∀ box ∈ others, box.filterMap Notification.result? = []
  | .complete :: _ => ∀ box ∈ others, box = []
  | _ => True

instance (others : List (List (Notification T))) : ∀ box, Decidable (Publishable others box)
  | .next _ :: rest => inferInstanceAs (Decidable (rest.any Notification.isComplete = true → _))
  | .complete :: _ => inferInstanceAs (Decidable (∀ box ∈ others, box = []))
  | .error _ :: _ | [] => inferInstanceAs (Decidable True)

def InTurn (fetch : Fetch T) (task : Nat) : Prop :=
  ∀ box ∈ fetch.outboxes[task]?, Publishable (fetch.outboxes.eraseIdx task) box

instance (fetch : Fetch T) (task : Nat) : Decidable (fetch.InTurn task) :=
  inferInstanceAs (Decidable (∀ box ∈ fetch.outboxes[task]?, _))

/-- Before the last task has recorded nothing completes. -/
structure Open (fetch : Fetch T) : Prop where
  pending : fetch.pending = fetch.waiting.length
  received : ∀ notification ∈ fetch.received, notification.isComplete = false
  outboxes : ∀ box ∈ fetch.outboxes, ∀ notification ∈ box, notification.isComplete = false

/-- How far a subscription has got while tasks are waiting. -/
structure Waits (fetch : Fetch T) : Prop where
  unspawned : fetch.epoch = none → fetch.waiting = [] ∧ fetch.outboxes = [] ∧
    (fetch.context.servers ≠ [] → ∀ notification ∈ fetch.received, notification.isComplete = false)
  waiting : fetch.waiting ≠ [] → fetch.Open

/-- What is left to publish once the last task has recorded. -/
inductive Settling (data : Option T) (fetch : Fetch T) : Prop where
  | snapshot (others : List (List (Notification T))) (result : QueryResult T)
      (errors : List (Notification T))
      (hBoxes : fetch.outboxes = others ++ [.next result :: errors ++ [.complete]])
      (hData : result.data = data)
      (hErrors : ∀ error ∈ errors, error.isComplete = false ∧ error.result? = none)
      (hOthers : ∀ box ∈ others, ∀ notification ∈ box, notification.isComplete = false)
      (hReceived : ∀ notification ∈ fetch.received, notification.isComplete = false)
  | errors (others : List (List (Notification T))) (errors : List (Notification T))
      (hBoxes : fetch.outboxes = others ++ [errors ++ [.complete]])
      (hErrors : ∀ error ∈ errors, error.isComplete = false ∧ error.result? = none)
      (hOthers : ∀ box ∈ others, ∀ notification ∈ box,
        notification.isComplete = false ∧ notification.result? = none)
      (hReceived : ∀ notification ∈ fetch.received, notification.isComplete = false)
      (hData : lastData fetch.received = some data)
  | done (front : List (Notification T)) (hBoxes : ∀ box ∈ fetch.outboxes, box = [])
      (hReceived : fetch.received = front ++ [.complete])
      (hFront : ∀ notification ∈ front, notification.isComplete = false)
      (hData : lastData fetch.received = some data)

variable {fetch : Fetch T} {data : Option T}

/-- The last data that was received is that of the last result. -/
theorem lastData_append_next (received : List (Notification T)) (result : QueryResult T) :
    lastData (received ++ [.next result]) = some result.data := by
  simp [lastData, Notification.result?]

/-- A notification without a result leaves the last data as it is. -/
theorem lastData_append (received : List (Notification T)) {notification : Notification T}
    (hNone : notification.result? = none) :
    lastData (received ++ [notification]) = lastData received := by
  simp [lastData, hNone]

/-- A task is the last one to have recorded, or one of the others. -/
theorem task_cases {others : List (List (Notification T))} {last box : List (Notification T)} {task : Nat}
    (h : (others ++ [last])[task]? = some box) :
    (others[task]? = some box ∧
        ∀ rest, (others ++ [last]).set task rest = others.set task rest ++ [last]) ∨
      (box = last ∧ (others ++ [last]).eraseIdx task = others ∧
        ∀ rest, (others ++ [last]).set task rest = others ++ [rest]) := by
  rcases Nat.lt_or_ge task others.length with hLt | hGe
  · rw [List.getElem?_append_left hLt] at h
    exact Or.inl ⟨h, fun rest => List.set_append_left _ _ hLt⟩
  · have hEq : task = others.length := by
      have hLt := (List.getElem?_eq_some_iff.mp h).1
      simp at hLt
      omega
    subst hEq
    refine Or.inr ⟨?_, ?_, fun rest => ?_⟩
    · simpa [eq_comm] using h
    · rw [List.eraseIdx_append_of_length_le le_rfl]
      simp
    · rw [List.set_append_right _ _ le_rfl]
      simp

theorem forall_set {P : Notification T → Prop} {boxes : List (List (Notification T))} {task : Nat}
    {notification : Notification T} {rest : List (Notification T)}
    (hAll : ∀ box ∈ boxes, ∀ n ∈ box, P n) (hBox : boxes[task]? = some (notification :: rest)) :
    P notification ∧ ∀ box ∈ boxes.set task rest, ∀ n ∈ box, P n := by
  have hOld := hAll _ (List.mem_of_getElem? hBox)
  refine ⟨hOld _ List.mem_cons_self, fun box hMem => ?_⟩
  rcases List.mem_or_eq_of_mem_set hMem with hIn | rfl
  · exact hAll box hIn
  · exact fun n hn => hOld n (List.mem_cons_of_mem _ hn)

theorem forall_append {P : Notification T → Prop} {received : List (Notification T)}
    {notification : Notification T} (hAll : ∀ n ∈ received, P n) (hNew : P notification) :
    ∀ n ∈ received ++ [notification], P n := by
  intro n hn
  rcases List.mem_append.mp hn with hOld | hIs
  · exact hAll n hOld
  · exact List.mem_singleton.mp hIs ▸ hNew

/-- A fan-out that is still open stays so when a task hands over its notification. -/
theorem Open.publish (h : fetch.Open) (task : Nat) : (fetch.publish task).Open := by
  unfold Fetch.publish
  split
  · next notification rest hBox =>
      obtain ⟨hNew, hBoxes⟩ := forall_set h.outboxes hBox
      unfold deliver
      split
      · exact ⟨h.pending, h.received, hBoxes⟩
      · exact ⟨h.pending, forall_append h.received hNew, hBoxes⟩
  · exact h

/-- A task that publishes in turn. -/
theorem Settling.publish (h : Settling data fetch) (hOpen : fetch.closed = false) {task : Nat}
    (hTurn : fetch.InTurn task) : Settling data (fetch.publish task) := by
  unfold Fetch.publish
  split
  · next notification rest hBox =>
      rw [deliver, if_neg (by simp [hOpen])]
      have hFirst := hTurn _ hBox
      cases h with
      | snapshot others result errors hBoxes hData hErrors hOthers hReceived =>
          rw [hBoxes] at hBox hFirst
          rcases task_cases hBox with ⟨hOther, hSet⟩ | ⟨hLast, hErase, hSet⟩
          · obtain ⟨hNew, hRest⟩ := forall_set hOthers hOther
            exact .snapshot (others.set task rest) result errors (by rw [hBoxes, hSet]) hData hErrors
              hRest (forall_append hReceived hNew)
          · cases hLast
            rw [hErase] at hFirst
            have hNone := hFirst (by simp [Notification.isComplete])
            refine .errors others errors (by rw [hBoxes, hSet]; rfl) hErrors ?_
              (forall_append hReceived rfl) ((lastData_append_next _ _).trans (congrArg some hData))
            intro box hMem n hn
            exact ⟨hOthers box hMem n hn, List.filterMap_eq_nil_iff.mp (hNone box hMem) n hn⟩
      | errors others errors hBoxes hErrors hOthers hReceived hData =>
          rw [hBoxes] at hBox hFirst
          rcases task_cases hBox with ⟨hOther, hSet⟩ | ⟨hLast, hErase, hSet⟩
          · obtain ⟨hNew, hRest⟩ := forall_set hOthers hOther
            exact .errors (others.set task rest) errors (by rw [hBoxes, hSet]) hErrors hRest
              (forall_append hReceived hNew.1) ((lastData_append _ hNew.2).trans hData)
          · cases errors with
            | nil =>
                cases hLast
                rw [hErase] at hFirst
                refine .done fetch.received ?_ rfl hReceived ((lastData_append _ rfl).trans hData)
                intro box hMem
                rw [hBoxes, hSet] at hMem
                rcases List.mem_append.mp hMem with hIn | hIs
                · exact hFirst box hIn
                · exact List.mem_singleton.mp hIs
            | cons error errors =>
                cases hLast
                have hError := hErrors _ List.mem_cons_self
                exact .errors others errors (by rw [hBoxes, hSet]; rfl)
                  (fun e he => hErrors e (List.mem_cons_of_mem _ he)) hOthers
                  (forall_append hReceived hError.1) ((lastData_append _ hError.2).trans hData)
      | done front hBoxes hReceived hFront hData =>
          exact absurd (hBoxes _ (List.mem_of_getElem? hBox)) (List.cons_ne_nil _ _)
  · exact h

/-! ### The phases of a subscription -/

/-- A subscription that completes at once has no servers to query. -/
theorem subscribe_fetch (state : QueryState T) (context : FanoutContext T) (mode : FetchMode) :
    let fetch := (subscribe state context mode).2
    fetch.waiting = [] ∧ fetch.outboxes = [] ∧
      (fetch.context.servers ≠ [] → ∀ n ∈ fetch.received, n.isComplete = false) := by
  unfold subscribe
  dsimp only
  generalize (state.computeEmission context.mergeFn).1 = cached
  generalize mode.needsFetch cached = needsFetch
  cases needsFetch with
  | false => cases cached <;> simp [deliver]
  | true => cases cached <;> cases hServers : context.servers <;>
      simp [deliver, Notification.isComplete]

/-- A new subscription waits for nobody yet. -/
theorem subscribe_waits (state : QueryState T) (context : FanoutContext T) (mode : FetchMode) :
    (subscribe state context mode).2.Waits :=
  have hFetch := subscribe_fetch state context mode
  ⟨fun _ => hFetch, fun hSome => absurd hFetch.1 hSome⟩

/-- A fan-out that starts has completed nothing. -/
theorem Waits.spawn (h : fetch.Waits) (hNone : fetch.epoch = none) (hServers : fetch.context.servers ≠ [])
    (state : QueryState T) (runtime : Bool) : (fetch.spawn state runtime).2.Waits := by
  obtain ⟨hWaiting, hBoxes, hReceived⟩ := h.unspawned hNone
  refine ⟨fun hIs => ?_, fun hSome => ?_⟩
  · rw [spawn_epoch] at hIs
    cases hIs
  · unfold Fetch.spawn at hSome ⊢
    dsimp only at hSome ⊢
    split at hSome
    · refine absurd ?_ hSome
      unfold deliver
      split <;> exact hWaiting
    · exact ⟨rfl, hReceived hServers, fun box hBox => absurd (hBoxes ▸ hBox) List.not_mem_nil⟩

/-- With other servers outstanding, an answer completes nothing. -/
theorem Open.record (h : fetch.Open) {task : Nat} {server : String}
    (hServer : fetch.waiting[task]? = some server) (hMore : fetch.waiting.eraseIdx task ≠ [])
    (state : QueryState T) (epoch : Nat) (result : Except String T) :
    (Fetch.record state { fetch with waiting := fetch.waiting.eraseIdx task } epoch server
      result).2.Open := by
  have hLt : task < fetch.waiting.length := (List.getElem?_eq_some_iff.mp hServer).1
  have hLength : (fetch.waiting.eraseIdx task).length = fetch.waiting.length - 1 :=
    List.length_eraseIdx_of_lt hLt
  have hPending : fetch.pending - 1 = (fetch.waiting.eraseIdx task).length := by
    rw [h.pending, hLength]
  have hNotLast : (fetch.pending - 1 == 0) = false := by
    rw [hPending]
    simpa using hMore
  refine ⟨hPending, h.received, fun box hBox => ?_⟩
  rcases List.mem_append.mp hBox with hOld | hNew
  · exact h.outboxes box hOld
  · rw [List.mem_singleton.mp hNew]
    simp only [hNotLast, Bool.false_eq_true, if_false, List.append_nil]
    intro notification hMem
    rcases List.mem_append.mp hMem with hNext | hError
    · obtain ⟨next, -, rfl⟩ := List.mem_map.mp hNext
      rfl
    · cases result with
      | ok value => exact absurd hError List.not_mem_nil
      | error message =>
          rw [List.mem_singleton.mp hError]
          rfl

/-- The snapshot of the last answer has the final status, and the merge of what is held. -/
theorem snapshot_last (state : QueryState T) (fetch : Fetch T) (successful : Nat) :
    (snapshot state fetch 0 successful).2 =
      some ⟨(state.computeEmission fetch.context.mergeFn).1, state.status 0, successful, 0⟩ := by
  simp [snapshot]

theorem answered_waiting (state : QueryState T) (fetch : Fetch T) (waiting : List String) (epoch : Nat)
    (server : String) (result : Except String T) :
    answered state { fetch with waiting := waiting } epoch server result =
      answered state fetch epoch server result := by
  cases result <;> rfl

theorem answered_emitted (state : QueryState T) (fetch : Fetch T) (epoch : Nat) (server : String)
    (result : Except String T) :
    (answered state fetch epoch server result).emitted = state.emitted := by
  cases result with
  | ok value =>
      unfold answered QueryState.update
      dsimp only
      split <;> rfl
  | error message => rfl

/-- The last task to record leaves the merge of everything that was recorded. -/
theorem Open.settles (h : fetch.Open) {server : String} (hServer : fetch.waiting = [server])
    (state : QueryState T) (epoch : Nat) (result : Except String T) :
    Settling ((answered state fetch epoch server result).computeEmission fetch.context.mergeFn).1
      (Fetch.record state { fetch with waiting := [] } epoch server result).2 := by
  have hPending : fetch.pending = 1 := by simp [h.pending, hServer]
  cases result with
  | ok value =>
      let after := state.update server value epoch fetch.context.updateMode
      refine .snapshot fetch.outboxes ⟨(after.computeEmission fetch.context.mergeFn).1, after.status 0,
        fetch.successful + 1, 0⟩ [] ?_ rfl (fun _ hMem => absurd hMem List.not_mem_nil) h.outboxes
        h.received
      simp [Fetch.record, hPending, snapshot_last, answered, after]
  | error message =>
      refine .snapshot fetch.outboxes ⟨(state.computeEmission fetch.context.mergeFn).1, state.status 0,
        fetch.successful, 0⟩ [.error message] ?_ rfl ?_ h.outboxes h.received
      · simp [Fetch.record, hPending, snapshot_last, answered]
      · intro error hError
        rw [List.mem_singleton.mp hError]
        exact ⟨rfl, rfl⟩

/-- After an answer the fan-out is open, unless it was the last one. -/
theorem Waits.record (h : fetch.Waits) {task : Nat} {server : String}
    (hServer : fetch.waiting[task]? = some server) (state : QueryState T) (epoch : Nat)
    (result : Except String T) :
    (Fetch.record state { fetch with waiting := fetch.waiting.eraseIdx task } epoch server
      result).2.Waits := by
  have hSome : fetch.waiting ≠ [] := by
    intro hNil
    rw [hNil] at hServer
    cases hServer
  refine ⟨fun hNone => ?_, fun hMore => (h.waiting hSome).record hServer hMore state epoch result⟩
  exact absurd (h.unspawned hNone).1 hSome

theorem publish_waiting (fetch : Fetch T) (task : Nat) : (fetch.publish task).waiting = fetch.waiting := by
  unfold Fetch.publish deliver
  split
  · split <;> rfl
  · rfl

theorem publish_closed (fetch : Fetch T) (task : Nat) : (fetch.publish task).closed = fetch.closed := by
  unfold Fetch.publish deliver
  split
  · split <;> rfl
  · rfl

theorem Waits.publish (h : fetch.Waits) (task : Nat) : (fetch.publish task).Waits := by
  obtain ⟨hEpoch, -⟩ := fetch.publish_fetch task
  refine ⟨fun hNone => ?_, fun hSome => (h.waiting (fetch.publish_waiting task ▸ hSome)).publish task⟩
  have hUnspawned := h.unspawned (hEpoch ▸ hNone)
  have hSame : fetch.publish task = fetch := by
    simp [Fetch.publish, hUnspawned.2.1]
  rw [hSame]
  exact hUnspawned

theorem Waits.close (h : fetch.Waits) : Waits { fetch with closed := true } where
  unspawned := h.unspawned
  waiting hSome := have hOpen := h.waiting hSome; ⟨hOpen.pending, hOpen.received, hOpen.outboxes⟩

/-- Once nothing is left to publish. -/
theorem Settling.finished (h : Settling data fetch) (hBoxes : ∀ box ∈ fetch.outboxes, box = []) :
    ∃ front, fetch.received = front ++ [.complete] ∧
      (∀ notification ∈ front, notification.isComplete = false) ∧
      lastData fetch.received = some data := by
  cases h with
  | snapshot others result errors hIs =>
      rw [hIs] at hBoxes
      exact absurd (hBoxes _ (List.mem_append_right _ List.mem_cons_self)) (List.cons_ne_nil _ _)
  | errors others errors hIs =>
      rw [hIs] at hBoxes
      exact absurd (hBoxes _ (List.mem_append_right _ List.mem_cons_self)) (by simp)
  | done front _ hReceived hFront hData => exact ⟨front, hReceived, hFront, hData⟩

end Fetch

/-! ### Runs -/

namespace System

variable {s : System T} {id : Nat} {data : Option T}

/-- The tasks of a fetch publish in turn. -/
def InTurn (s : System T) (id : Nat) : Action T → Prop
  | .publish other task => other = id → ∀ fetch ∈ s.fetches[id]?, fetch.InTurn task
  | _ => True

instance (s : System T) (id : Nat) : ∀ action, Decidable (s.InTurn id action)
  | .publish other _ => inferInstanceAs (Decidable (other = id → _))
  | .subscribe _ _ | .spawn _ _ | .record _ _ _ | .unsubscribe _ | .invalidate =>
      inferInstanceAs (Decidable True)

/-- No step completes a fan-out that still waits. -/
theorem waits_step (h : ∀ fetch ∈ s.fetches, fetch.Waits) (action : Action T) :
    ∀ fetch ∈ (s.step action).fetches, fetch.Waits := by
  have hSet : ∀ {id : Nat} {fetch : Fetch T}, fetch.Waits →
      ∀ other ∈ s.fetches.set id fetch, other.Waits := by
    intro id fetch hWaits other hOther
    rcases List.mem_or_eq_of_mem_set hOther with hIn | rfl
    · exact h other hIn
    · exact hWaits
  have hStepped := stepped s action
  generalize s.step action = s' at hStepped ⊢
  cases hStepped with
  | idle => exact h
  | subscribed context mode =>
      intro fetch hFetch
      rcases List.mem_append.mp hFetch with hIn | hNew
      · exact h fetch hIn
      · exact List.mem_singleton.mp hNew ▸ Fetch.subscribe_waits s.state context mode
  | spawned id runtime fetch hGet hNone hServers =>
      exact hSet ((h fetch (List.mem_of_getElem? hGet)).spawn hNone hServers s.state runtime)
  | recorded id task epoch fetch server result hGet hEpoch hServer =>
      exact hSet ((h fetch (List.mem_of_getElem? hGet)).record hServer s.state epoch result)
  | published id task fetch hGet => exact hSet ((h fetch (List.mem_of_getElem? hGet)).publish task)
  | unsubscribed id fetch hGet => exact hSet (h fetch (List.mem_of_getElem? hGet)).close
  | invalidated => exact h

/-- Every task of the fetch has recorded, and unless the subscription was closed
they publish one after the other. -/
def Settled (data : Option T) (id : Nat) (s : System T) : Prop :=
  ∃ fetch, s.fetches[id]? = some fetch ∧ fetch.epoch ≠ none ∧ fetch.waiting = [] ∧
    (fetch.closed = false → fetch.Settling data)

theorem Settled.set (h : Settled data id s) {other : Nat} {old fetch : Fetch T} {state : QueryState T}
    {answers : List (Answer T)} (hGet : s.fetches[other]? = some old)
    (hSame : other = id → fetch.epoch ≠ none ∧ fetch.waiting = [] ∧
      (fetch.closed = false → fetch.Settling data)) :
    Settled data id ⟨state, s.fetches.set other fetch, answers⟩ := by
  obtain ⟨mine, hMine, hRest⟩ := h
  by_cases hOther : other = id
  · subst hOther
    exact ⟨fetch, List.getElem?_set_self (List.getElem?_eq_some_iff.mp hGet).1, hSame rfl⟩
  · exact ⟨mine, (List.getElem?_set_ne hOther).trans hMine, hRest⟩

/-- The tasks of a settled fan-out hand over what is left, one after the other. -/
theorem Settled.step (h : Settled data id s) {action : Action T} (hTurn : s.InTurn id action) :
    Settled data id (s.step action) := by
  have hSettled := h
  obtain ⟨mine, hMine, hEpoch, hWaiting, hSettling⟩ := hSettled
  have hStepped := stepped s action
  generalize s.step action = s' at hStepped ⊢
  cases hStepped with
  | idle => exact h
  | subscribed context mode =>
      have hLt := (List.getElem?_eq_some_iff.mp hMine).1
      exact ⟨mine, (List.getElem?_append_left hLt).trans hMine, hEpoch, hWaiting, hSettling⟩
  | spawned other runtime fetch hGet hNone hServers =>
      refine h.set hGet fun hOther => ?_
      subst hOther
      obtain rfl := Option.some.inj (hMine.symm.trans hGet)
      exact absurd hNone hEpoch
  | recorded other task epoch fetch server result hGet hSome hServer =>
      refine h.set hGet fun hOther => ?_
      subst hOther
      obtain rfl := Option.some.inj (hMine.symm.trans hGet)
      rw [hWaiting] at hServer
      cases hServer
  | published other task fetch hGet =>
      refine h.set hGet fun hOther => ?_
      subst hOther
      obtain rfl := Option.some.inj (hMine.symm.trans hGet)
      refine ⟨(mine.publish_fetch task).1 ▸ hEpoch, (mine.publish_waiting task).trans hWaiting, ?_⟩
      intro hClosed
      have hOpen : mine.closed = false := (mine.publish_closed task).symm.trans hClosed
      exact (hSettling hOpen).publish hOpen (hTurn rfl mine hGet)
  | unsubscribed other fetch hGet =>
      refine h.set hGet fun hOther => ?_
      subst hOther
      obtain rfl := Option.some.inj (hMine.symm.trans hGet)
      exact ⟨hEpoch, hWaiting, fun hClosed => absurd hClosed (by simp)⟩
  | invalidated => exact h

/-- No run completes a fan-out that still waits. -/
theorem waits_run (actions : List (Action T)) :
    ∀ fetch ∈ (run System.step new actions).fetches, fetch.Waits :=
  run_invariant (fun {s action} (h : ∀ fetch ∈ s.fetches, fetch.Waits) _ => waits_step h action)
    (fun _ hMem => absurd hMem List.not_mem_nil) (along_true new actions)

/-- The last task records. -/
theorem settled_record (h : ∀ fetch ∈ s.fetches, fetch.Waits) {fetch : Fetch T}
    (hGet : s.fetches[id]? = some fetch) {server : String} (hWaiting : fetch.waiting = [server])
    (result : Except String T) :
    Settled ((s.step (.record id 0 result)).state.computeMerged s.state.emitted fetch.context.mergeFn)
      id (s.step (.record id 0 result)) := by
  have hWaits := h fetch (List.mem_of_getElem? hGet)
  have hSome : fetch.waiting ≠ [] := by simp [hWaiting]
  obtain ⟨epoch, hEpoch⟩ := Option.ne_none_iff_exists'.mp fun hNone =>
    hSome (hWaits.unspawned hNone).1
  have hStep : s.step (.record id 0 result) = s.afterRecord id 0 epoch fetch server result := by
    simp [System.step, hGet, hEpoch, hWaiting]
  have hSettling := (hWaits.waiting hSome).settles hWaiting s.state epoch result
  rw [hStep]
  unfold afterRecord
  simp only [hWaiting, List.eraseIdx_cons_zero]
  have hMerged : ((Fetch.answered s.state fetch epoch server result).computeEmission
        fetch.context.mergeFn).1 =
      (Fetch.record s.state { fetch with waiting := [] } epoch server result).1.computeMerged
        s.state.emitted fetch.context.mergeFn := by
    rw [QueryState.computeEmission_fst, Fetch.answered_emitted]
    rcases Fetch.record_state s.state { fetch with waiting := [] } epoch server result with hIs | hIs
    · rw [hIs, Fetch.answered_waiting s.state fetch []]
    · rw [hIs, Fetch.answered_waiting s.state fetch [], QueryState.computeMerged_computeEmission]
  rw [← hMerged]
  exact ⟨_, List.getElem?_set_self (List.getElem?_eq_some_iff.mp hGet).1, by simp [hEpoch, Fetch.record],
    rfl, fun _ => hSettling⟩

end System

end Polycentric.Query
