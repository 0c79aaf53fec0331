import Polycentric.Library.SortedEntries
import Polycentric.Query.Barrier
import Polycentric.Query.Notifications

/-! What a subscriber is told last. All fetches of a key feed its state, so the data that a
fan-out ends with is made of its own answers only if nothing else reaches the key while
its tasks are waiting. -/
namespace Polycentric.Query

open Memo Runs Slots SortedEntries

variable {T : Type}

/-- The values of the answers, server by server. -/
def pagesOf (answers : List (Answer T)) : List T :=
  ((answers.map Answer.server).dedup.insertionSort fun a b => (compare a b).isLE).flatMap fun server =>
    (answers.filter fun answer => answer.server = server).map Answer.value

/-- The merge of the answers, unless there are none. -/
def mergeOf (mergeFn : MergeFn T) (previous : Option T) (answers : List (Answer T)) : Option T :=
  if answers.isEmpty then none else some (mergeFn (pagesOf answers) previous)

namespace System

variable (s : System T)

/-- The answers that a fan-out recorded. -/
def answersIn (epoch : Nat) : List (Answer T) := s.answers.filter fun answer => answer.epoch = epoch

/-- The answers that it recorded of one server. -/
def ownOf (epoch : Nat) (server : String) : List (Answer T) :=
  (s.answersIn epoch).filter fun answer => answer.server = server

/-- An answer of another fan-out that does not count: the key drops it, or the fetch
replaces it, since its own task for the server is still waiting. -/
def Passing (fetch : Fetch T) (epoch : Nat) (mode : UpdateMode) (started : Nat) (server : String) :
    Prop :=
  (mode = .merge ∧ started < s.state.latestReplaceEpoch) ∨
    (mode = .replace ∧ started ≤ (s.state.infoOf server).epoch) ∨
      (fetch.context.updateMode = .replace ∧ server ∈ fetch.waiting ∧ started < epoch)

instance (fetch : Fetch T) (epoch : Nat) (mode : UpdateMode) (started : Nat) (server : String) :
    Decidable (s.Passing fetch epoch mode started server) :=
  inferInstanceAs (Decidable (_ ∨ _ ∨ _))

/-- Nothing but the answers of the fan-out feeds the key while its tasks are waiting. When
it is spawned, it replaces whatever the key holds; no answer of another fan-out counts,
nothing is invalidated, and a task fails only if nothing is held of its server. -/
def Alone (id : Nat) : Action T → Prop
  | .spawn other _ => ∀ fetch ∈ s.fetches[id]?,
      if other = id then fetch.epoch = none →
        (fetch.context.updateMode = .replace → fetch.context.servers.Nodup) ∧
          ∀ entry ∈ s.state.data,
            fetch.context.updateMode = .replace ∧ entry.1 ∈ fetch.context.servers
      else fetch.waiting ≠ [] → fetch.context.updateMode = .merge →
        ∀ started ∈ s.fetches[other]?, started.context.updateMode = .merge
  | .record other task (.ok _) => other ≠ id → ∀ fetch ∈ s.fetches[id]?, fetch.waiting ≠ [] →
      ∀ epoch ∈ fetch.epoch, ∀ started ∈ s.fetches[other]?, ∀ startedEpoch ∈ started.epoch,
        ∀ server ∈ started.waiting[task]?,
          s.Passing fetch epoch started.context.updateMode startedEpoch server
  | .record other task (.error _) => other = id → ∀ fetch ∈ s.fetches[id]?,
      fetch.context.updateMode = .replace →
        ∀ server ∈ fetch.waiting[task]?, (s.state.infoOf server).pages.isEmpty = true
  | .invalidate => ∀ fetch ∈ s.fetches[id]?, fetch.waiting = []
  | .subscribe _ _ | .publish _ _ | .unsubscribe _ => True

instance (id : Nat) : ∀ action, Decidable (s.Alone id action)
  | .spawn _ _ | .record _ _ (.ok _) | .record _ _ (.error _) | .invalidate
  | .subscribe _ _ | .publish _ _ | .unsubscribe _ => by unfold Alone; infer_instance

end System

/-! ### The state of a key -/

namespace QueryState

/-- The data is held by server, and there are pages of every server in it. -/
structure Keyed (state : QueryState T) : Prop where
  keys : (state.data.map Prod.fst).Nodup
  pages : ∀ entry ∈ state.data, entry.2.pages ≠ []

variable {state state' : QueryState T}

theorem Keyed.congr (h : state.Keyed) (hData : state'.data = state.data) : state'.Keyed where
  keys := hData ▸ h.keys
  pages := hData ▸ h.pages

theorem infoOf_of_mem (h : state.Keyed) {entry : String × QueryResponseInfo T}
    (hMem : entry ∈ state.data) : state.infoOf entry.1 = entry.2 := by
  have hGet : state.data.get entry.1 = some entry.2 := (lookup_eq_some_iff_mem h.keys).mpr hMem
  rw [infoOf, hGet]
  rfl

theorem infoOf_of_notMem {server : String} (h : server ∉ state.data.map Prod.fst) :
    state.infoOf server = .empty := by
  have hNone : state.data.get server = none := by
    rw [Table.get, List.lookup_eq_none_iff]
    intro entry hEntry
    rw [bne_iff_ne]
    rintro rfl
    exact h (List.mem_map_of_mem hEntry)
  rw [infoOf, hNone]
  rfl

/-- A server is in the data exactly if pages are held of it. -/
theorem Keyed.mem_iff (h : state.Keyed) (server : String) :
    server ∈ state.data.map Prod.fst ↔ (state.infoOf server).pages ≠ [] := by
  constructor
  · intro hMem
    obtain ⟨entry, hEntry, rfl⟩ := List.mem_map.mp hMem
    rw [infoOf_of_mem h hEntry]
    exact h.pages entry hEntry
  · intro hPages
    by_contra hNot
    rw [infoOf_of_notMem hNot] at hPages
    exact hPages rfl

/-- An answer is filed under its server, also when the server had none yet. -/
theorem Keyed.update (h : state.Keyed) (server : String) (value : T) {epoch : Nat} (hPos : 0 < epoch)
    (mode : UpdateMode) : (state.update server value epoch mode).Keyed := by
  unfold QueryState.update
  split
  · exact h
  · constructor
    case keys =>
      show ((server, _) :: state.data.remove server).map Prod.fst |>.Nodup
      rw [List.map_cons, List.nodup_cons]
      refine ⟨?_, ?_⟩
      · rw [List.mem_map]
        rintro ⟨entry, hEntry, hIs⟩
        exact absurd hIs (of_decide_eq_true (List.mem_filter.mp hEntry).2)
      · exact h.keys.sublist ((List.filter_sublist).map Prod.fst)
    case pages =>
      intro entry hEntry
      rcases List.mem_cons.mp hEntry with rfl | hOld
      · cases mode with
        | merge => exact List.append_ne_nil_of_right_ne_nil _ (List.cons_ne_nil _ _)
        | replace =>
            unfold QueryResponseInfo.update
            dsimp only
            split
            · next hKept =>
                -- No epoch is below the one of a server that has not answered.
                rw [← h.mem_iff]
                by_contra hNot
                rw [infoOf_of_notMem hNot] at hKept
                exact absurd hKept (Nat.not_le.mpr hPos)
            · exact List.cons_ne_nil _ _
      · exact h.pages entry (List.mem_filter.mp hOld).1

/-- A key that holds the answers, and nothing else, merges them. -/
theorem Keyed.computeMerged_eq (h : state.Keyed) {answers : List (Answer T)}
    (hPages : ∀ server, (state.infoOf server).pages =
      (answers.filter fun answer => answer.server = server).map Answer.value)
    (mergeFn : MergeFn T) (previous : Option T) :
    state.computeMerged previous mergeFn = mergeOf mergeFn previous answers := by
  have hServers : ∀ server, server ∈ state.data.map Prod.fst ↔ server ∈ answers.map Answer.server := by
    intro server
    rw [h.mem_iff, hPages, ne_eq, List.map_eq_nil_iff, List.filter_eq_nil_iff, List.mem_map]
    simp only [decide_eq_true_eq, not_forall, not_not, exists_prop]
  have hSorted : ((state.data.map Prod.fst).insertionSort fun a b => (compare a b).isLE) =
      (answers.map Answer.server).dedup.insertionSort fun a b => (compare a b).isLE := by
    apply insertionSort_eq_of_perm
    · rw [List.perm_ext_iff_of_nodup h.keys (List.nodup_dedup _)]
      intro server
      rw [List.mem_dedup, hServers]
    · intro a _ b _ hab hba
      exact Std.LawfulEqCmp.eq_of_compare (Std.OrientedCmp.isLE_antisymm hab hba)
  have hHeld : state.pages = pagesOf answers := by
    unfold QueryState.pages pagesOf
    rw [hSorted]
    exact List.flatMap_congr fun server _ => hPages server
  have hEmpty : state.data.isEmpty = answers.isEmpty := by
    rw [Bool.eq_iff_iff, List.isEmpty_iff, List.isEmpty_iff, ← List.map_eq_nil_iff (f := Prod.fst),
      ← List.map_eq_nil_iff (f := Answer.server) (l := answers), List.eq_nil_iff_forall_not_mem,
      List.eq_nil_iff_forall_not_mem]
    simp only [hServers]
  unfold computeMerged mergeOf
  rw [hEmpty, hHeld]

end QueryState

/-- A spawned fan-out waits as before or for all of its servers. -/
theorem Fetch.spawn_waiting (state : QueryState T) (fetch : Fetch T) (runtime : Bool) :
    (fetch.spawn state runtime).2.waiting = fetch.waiting ∨
      (fetch.spawn state runtime).2.waiting = fetch.context.servers := by
  unfold spawn
  dsimp only
  split
  · left
    unfold deliver
    split <;> rfl
  · exact Or.inr rfl

/-! ### The epochs of a run -/

namespace System

variable {s s' : System T} {fetch fetch' : Fetch T} {epoch : Nat}

/-- No two fan-outs share an epoch, and no answer is of an epoch to come. -/
structure Numbered (s : System T) : Prop where
  counted : Counted s
  apart : ∀ (i j : Nat) (a b : Fetch T) (epoch : Nat), s.fetches[i]? = some a → s.fetches[j]? = some b →
    a.epoch = some epoch → b.epoch = some epoch → i = j
  started : ∀ fetch ∈ s.fetches, ∀ epoch, fetch.epoch = some epoch → 0 < epoch
  infos : ∀ server, (s.state.infoOf server).epoch ≤ s.state.epoch
  answers : ∀ answer ∈ s.answers, answer.epoch ≤ s.state.epoch
  keyed : s.state.Keyed

/-- A fetch that keeps its epoch is replaced. -/
theorem Numbered.set (h : Numbered s) {id : Nat} {old : Fetch T} (hGet : s.fetches[id]? = some old)
    (hSame : fetch.epoch = old.epoch) : Numbered { s with fetches := s.fetches.set id fetch } where
  counted := h.counted.set hGet hSame
  apart := by
    have hOld : ∀ {i : Nat} {a : Fetch T}, (s.fetches.set id fetch)[i]? = some a →
        ∃ b, s.fetches[i]? = some b ∧ a.epoch = b.epoch := by
      intro i a hA
      rcases getElem?_set_cases hA with ⟨rfl, rfl⟩ | ⟨-, hIn⟩
      · exact ⟨old, hGet, hSame⟩
      · exact ⟨a, hIn, rfl⟩
    intro i j a b epoch hA hB hIsA hIsB
    obtain ⟨a', hA', hSameA⟩ := hOld hA
    obtain ⟨b', hB', hSameB⟩ := hOld hB
    exact h.apart i j a' b' epoch hA' hB' (hSameA ▸ hIsA) (hSameB ▸ hIsB)
  started other hOther epoch hIs := by
    rcases List.mem_or_eq_of_mem_set hOther with hIn | rfl
    · exact h.started other hIn epoch hIs
    · exact h.started old (List.mem_of_getElem? hGet) epoch (hSame ▸ hIs)
  infos := h.infos
  answers := h.answers
  keyed := h.keyed

/-- What was emitted last is not looked at. -/
theorem Numbered.emitted (h : Numbered s) (mergeFn : MergeFn T) :
    Numbered { s with state := (s.state.computeEmission mergeFn).2 } := by
  rw [QueryState.computeEmission_frame]
  exact ⟨⟨h.counted.latest, h.counted.fetches⟩, h.apart, h.started, h.infos, h.answers,
    h.keyed.congr rfl⟩

/-- A subscription hands out no epoch. -/
theorem Numbered.subscribe (h : Numbered s) (context : FanoutContext T) (mode : FetchMode) :
    Numbered { s with
      state := (Fetch.subscribe s.state context mode).1
      fetches := s.fetches ++ [(Fetch.subscribe s.state context mode).2] } := by
  have hCounted := h.counted.step (.subscribe context mode)
  have hNone := Fetch.subscribe_epoch s.state context mode
  have hOld : ∀ {i : Nat} {a : Fetch T},
      (s.fetches ++ [(Fetch.subscribe s.state context mode).2])[i]? = some a →
        a.epoch ≠ none → s.fetches[i]? = some a := by
    intro i a hA hSome
    rcases getElem?_append_cases hA with rfl | hIn
    · exact absurd hNone hSome
    · exact hIn
  rw [Fetch.subscribe_state]
  have hEmitted := h.emitted context.mergeFn
  exact
    { counted := hCounted
      apart := by
        intro i j a b epoch hA hB hIsA hIsB
        exact h.apart i j a b epoch (hOld hA (by simp [hIsA])) (hOld hB (by simp [hIsB])) hIsA hIsB
      started := by
        intro other hOther epoch hIs
        rcases List.mem_append.mp hOther with hIn | hNew
        · exact h.started other hIn epoch hIs
        · rw [List.mem_singleton.mp hNew, hNone] at hIs
          cases hIs
      infos := hEmitted.infos
      answers := hEmitted.answers
      keyed := hEmitted.keyed }

/-- A fan-out that starts gets an epoch that nobody has. -/
theorem Numbered.spawn (h : Numbered s) {id : Nat} (hGet : s.fetches[id]? = some fetch)
    (hNone : fetch.epoch = none) (hServers : fetch.context.servers ≠ []) (runtime : Bool) :
    Numbered { s with
      state := (fetch.spawn s.state runtime).1
      fetches := s.fetches.set id (fetch.spawn s.state runtime).2 } := by
  have hCounted := h.counted.step (.spawn id runtime)
  have hEpoch := Fetch.spawn_epoch s.state fetch runtime
  have hStep : s.step (.spawn id runtime) = { s with
      state := (fetch.spawn s.state runtime).1
      fetches := s.fetches.set id (fetch.spawn s.state runtime).2 } := by
    simp [System.step, hGet, hNone, hServers]
  rw [hStep] at hCounted
  -- The epoch is newer than all that were handed out before.
  have hNew : ∀ {i : Nat} {a : Fetch T} {e : Nat},
      (s.fetches.set id (fetch.spawn s.state runtime).2)[i]? = some a → a.epoch = some e →
        (i = id ∧ e = s.state.epoch + 1) ∨ (s.fetches[i]? = some a ∧ e ≤ s.state.epoch) := by
    intro i a e hA hIs
    rcases getElem?_set_cases hA with ⟨rfl, rfl⟩ | ⟨-, hIn⟩
    · exact Or.inl ⟨rfl, (Option.some.inj (hEpoch.symm.trans hIs)).symm⟩
    · exact Or.inr ⟨hIn, h.counted.fetches a (List.mem_of_getElem? hIn) e hIs⟩
  constructor
  case counted => exact hCounted
  case apart =>
    intro i j a b e hA hB hIsA hIsB
    rcases hNew hA hIsA with ⟨rfl, rfl⟩ | ⟨hA', hLeA⟩
    · rcases hNew hB hIsB with ⟨rfl, -⟩ | ⟨-, hLe⟩
      · rfl
      · exact absurd hLe (Nat.not_succ_le_self _)
    · rcases hNew hB hIsB with ⟨-, rfl⟩ | ⟨hB', -⟩
      · exact absurd hLeA (Nat.not_succ_le_self _)
      · exact h.apart i j a b e hA' hB' hIsA hIsB
  case started =>
    intro other hOther e hIs
    obtain ⟨i, hI⟩ := List.getElem?_of_mem hOther
    rcases hNew hI hIs with ⟨-, rfl⟩ | ⟨hIn, -⟩
    · exact Nat.succ_pos _
    · exact h.started other (List.mem_of_getElem? hIn) e hIs
  case infos =>
    rw [Fetch.spawn_state]
    exact fun server => (h.infos server).trans (Nat.le_succ _)
  case answers =>
    rw [Fetch.spawn_state]
    exact fun answer hAnswer => (h.answers answer hAnswer).trans (Nat.le_succ _)
  case keyed =>
    rw [Fetch.spawn_state]
    exact h.keyed.congr rfl

/-- No server is filed under a later epoch than the answer has. -/
theorem infoOf_update_epoch_le (state : QueryState T) (server server' : String) (value : T)
    (epoch : Nat) (mode : UpdateMode) :
    ((state.update server value epoch mode).infoOf server').epoch ≤
      max (state.infoOf server').epoch epoch := by
  rw [QueryState.infoOf_update]
  split
  · next hServer =>
      obtain ⟨rfl, -⟩ := hServer
      unfold QueryResponseInfo.update
      cases mode with
      | merge => exact le_rfl
      | replace =>
          dsimp only
          split
          · exact Nat.le_max_left _ _
          · exact Nat.le_max_right _ _
  · exact Nat.le_max_left _ _

/-- An answer is filed under the epoch of its fan-out, which was given before. -/
theorem Numbered.answer (h : Numbered s) (hFetch : fetch ∈ s.fetches)
    (hEpoch : fetch.epoch = some epoch) (server : String) (value : T) (mode : UpdateMode) (late : Bool) :
    Numbered { s with
      state := s.state.update server value epoch mode
      answers := s.answers ++ [⟨server, epoch, mode, late, value⟩] } := by
  have hLe := h.counted.fetches fetch hFetch epoch hEpoch
  obtain ⟨hStarted, hLatest⟩ := s.state.update_epochs server value epoch mode
  constructor
  case counted =>
    exact ⟨hLatest.trans_le (h.counted.latest.trans hStarted.ge),
      fun other hOther e hIs => (h.counted.fetches other hOther e hIs).trans hStarted.ge⟩
  case apart => exact h.apart
  case started => exact h.started
  case infos =>
    intro server'
    exact (infoOf_update_epoch_le s.state server server' value epoch mode).trans
      ((Nat.max_le.mpr ⟨h.infos server', hLe⟩).trans hStarted.ge)
  case answers =>
    intro answer hAnswer
    refine le_trans ?_ hStarted.ge
    rcases List.mem_append.mp hAnswer with hIn | hNew
    · exact h.answers answer hIn
    · rw [List.mem_singleton.mp hNew]
      exact hLe
  case keyed => exact h.keyed.update server value (h.started fetch hFetch epoch hEpoch) mode

theorem Numbered.record (h : Numbered s) {id : Nat} (hGet : s.fetches[id]? = some fetch)
    (hEpoch : fetch.epoch = some epoch) (task : Nat) (server : String) (result : Except String T) :
    Numbered (s.afterRecord id task epoch fetch server result) := by
  have hFetch := List.mem_of_getElem? hGet
  have hSame := (Fetch.record_fetch s.state { fetch with waiting := fetch.waiting.eraseIdx task }
    epoch server result).1
  apply afterRecord_induct
  case hEmits => exact fun mergeFn hNumbered => hNumbered.emitted mergeFn
  case hAnswer => exact fun value _ => (h.answer hFetch hEpoch server value _ _).set hGet hSame
  case hFailure => exact fun _ _ => h.set hGet hSame

/-- Every step gives epochs in order, each to one fan-out. -/
theorem Numbered.step (h : Numbered s) (action : Action T) : Numbered (s.step action) := by
  have hCounted := h.counted.step action
  have hStepped := stepped s action
  generalize s.step action = s' at hStepped hCounted ⊢
  cases hStepped with
  | idle => exact h
  | subscribed context mode => exact h.subscribe context mode
  | spawned id runtime fetch hGet hNone hServers => exact h.spawn hGet hNone hServers runtime
  | recorded id task epoch fetch server result hGet hEpoch hServer =>
      exact h.record hGet hEpoch task server result
  | published id task fetch hGet => exact h.set hGet (fetch.publish_fetch task).1
  | unsubscribed id fetch hGet => exact h.set hGet rfl
  | invalidated =>
      exact
        { counted := hCounted
          apart := h.apart
          started := h.started
          infos := fun _ => Nat.zero_le _
          answers := fun answer hAnswer => (h.answers answer hAnswer).trans (Nat.le_succ _)
          keyed := ⟨List.nodup_nil, fun _ hMem => absurd hMem List.not_mem_nil⟩ }

theorem numbered_new : Numbered (new : System T) where
  counted := counted_new
  apart _ _ _ _ _ hGet := by cases hGet
  started _ hMem := absurd hMem List.not_mem_nil
  infos _ := le_rfl
  answers _ hMem := absurd hMem List.not_mem_nil
  keyed := ⟨List.nodup_nil, fun _ hMem => absurd hMem List.not_mem_nil⟩

/-! ### The answers of one fan-out -/

/-- An answer counts for the fan-out whose epoch it has. -/
theorem answersIn_append (answer : Answer T) (epoch : Nat) (state : QueryState T)
    (fetches : List (Fetch T)) :
    System.answersIn ⟨state, fetches, s.answers ++ [answer]⟩ epoch =
      s.answersIn epoch ++ if answer.epoch = epoch then [answer] else [] := by
  unfold answersIn
  rw [List.filter_append, List.filter_singleton]
  by_cases hEpoch : answer.epoch = epoch <;> simp [hEpoch]

/-- An answer counts for its server and for the fan-out whose epoch it has. -/
theorem ownOf_append (answer : Answer T) (epoch : Nat) (server : String) (state : QueryState T)
    (fetches : List (Fetch T)) :
    System.ownOf ⟨state, fetches, s.answers ++ [answer]⟩ epoch server =
      s.ownOf epoch server ++ if answer.epoch = epoch ∧ answer.server = server then [answer] else [] := by
  unfold ownOf
  rw [answersIn_append, List.filter_append]
  congr 1
  by_cases hEpoch : answer.epoch = epoch
  · rw [if_pos hEpoch, List.filter_singleton]
    by_cases hServer : answer.server = server <;> simp [hEpoch, hServer]
  · rw [if_neg hEpoch, if_neg fun hBoth => hEpoch hBoth.1, List.filter_nil]

/-- What the key holds while the tasks of a fan-out are waiting. A `Merge` fan-out holds
its own answers only; so does a `Replace` fan-out of the servers that are not waiting, and
will replace what is held of the others. -/
structure Sole (s : System T) (fetch : Fetch T) (epoch : Nat) : Prop where
  nodup : fetch.context.updateMode = .replace → fetch.waiting.Nodup
  older : fetch.context.updateMode = .replace → ∀ server ∈ fetch.waiting,
    s.ownOf epoch server = [] ∧ (s.state.infoOf server).epoch < epoch
  latest : fetch.context.updateMode = .merge → s.state.latestReplaceEpoch ≤ epoch
  pages : ∀ server, (fetch.context.updateMode = .replace → server ∉ fetch.waiting) →
    (s.state.infoOf server).pages = (s.ownOf epoch server).map Answer.value

/-- A step that touches neither the answers of the fan-out nor what is held. -/
theorem Sole.congr (h : Sole s fetch epoch) (hContext : fetch'.context = fetch.context)
    (hWaiting : fetch'.waiting = fetch.waiting)
    (hOwn : ∀ server, s'.ownOf epoch server = s.ownOf epoch server)
    (hInfo : ∀ server, s'.state.infoOf server = s.state.infoOf server)
    (hLatest : fetch.context.updateMode = .merge → s'.state.latestReplaceEpoch ≤ epoch) :
    Sole s' fetch' epoch where
  nodup := by
    rw [hContext, hWaiting]
    exact h.nodup
  older := by
    rw [hContext, hWaiting]
    intro hMode server hServer
    rw [hOwn, hInfo]
    exact h.older hMode server hServer
  latest := by
    rw [hContext]
    exact hLatest
  pages := by
    rw [hContext, hWaiting]
    intro server hServer
    rw [hOwn, hInfo]
    exact h.pages server hServer

/-- A fan-out that replaces whatever is held. -/
theorem Sole.spawn (h : Numbered s) {state : QueryState T} {fetches : List (Fetch T)} {mode : UpdateMode}
    (hState : state = s.state.nextFanout mode)
    (hNodup : fetch.context.updateMode = .replace → fetch.waiting.Nodup)
    (hHeld : ∀ entry ∈ s.state.data, fetch.context.updateMode = .replace ∧ entry.1 ∈ fetch.waiting) :
    Sole ⟨state, fetches, s.answers⟩ fetch (s.state.epoch + 1) := by
  have hNone : ∀ server, System.ownOf ⟨state, fetches, s.answers⟩ (s.state.epoch + 1) server = [] := by
    intro server
    unfold ownOf answersIn
    rw [List.filter_eq_nil_iff]
    intro answer hAnswer
    obtain ⟨hMem, hIs⟩ := List.mem_filter.mp hAnswer
    exact absurd (of_decide_eq_true hIs) (Nat.lt_succ_of_le (h.answers answer hMem)).ne
  subst hState
  constructor
  case nodup => exact hNodup
  case older =>
    intro _ server _
    exact ⟨hNone server, Nat.lt_succ_of_le (h.infos server)⟩
  case latest =>
    intro _
    cases mode with
    | replace => exact le_rfl
    | merge => exact h.counted.latest.trans (Nat.le_succ _)
  case pages =>
    intro server hServer
    rw [hNone server, List.map_nil]
    by_contra hPages
    obtain ⟨entry, hEntry, rfl⟩ := List.mem_map.mp ((h.keyed.mem_iff server).mpr hPages)
    obtain ⟨hMode, hMem⟩ := hHeld entry hEntry
    exact hServer hMode hMem

/-- The answer of another fan-out, which does not count. -/
theorem Sole.other (h : Sole s fetch epoch) {started : Nat} (hOther : started ≠ epoch)
    {server : String} {mode : UpdateMode} (hPassing : s.Passing fetch epoch mode started server)
    (value : T) (late : Bool) (fetches : List (Fetch T)) :
    Sole ⟨s.state.update server value started mode, fetches,
      s.answers ++ [⟨server, started, mode, late, value⟩]⟩ fetch epoch := by
  have hOwn : ∀ server', System.ownOf ⟨s.state.update server value started mode, fetches,
      s.answers ++ [⟨server, started, mode, late, value⟩]⟩ epoch server' = s.ownOf epoch server' := by
    intro server'
    rw [ownOf_append, if_neg fun hBoth => hOther hBoth.1, List.append_nil]
  have hLatest := (s.state.update_epochs server value started mode).2
  have hSame : (∀ server', (s.state.update server value started mode).infoOf server' =
      s.state.infoOf server') → Sole ⟨s.state.update server value started mode, fetches,
        s.answers ++ [⟨server, started, mode, late, value⟩]⟩ fetch epoch := fun hInfo =>
    h.congr rfl rfl hOwn hInfo fun hMode => hLatest.trans_le (h.latest hMode)
  rcases hPassing with hLate | ⟨hReplace, hOld⟩ | ⟨hMode, hWaiting, hOlder⟩
  · apply hSame
    intro server'
    rw [QueryState.infoOf_update, if_neg fun hBoth => hBoth.2 hLate]
  · apply hSame
    intro server'
    rw [QueryState.infoOf_update]
    split
    · next hServer =>
        rw [hServer.1, hReplace, QueryResponseInfo.update, if_pos hOld]
    · rfl
  · constructor
    case nodup => exact h.nodup
    case older =>
      intro _ server' hServer'
      obtain ⟨hNone, hLt⟩ := h.older hMode server' hServer'
      rw [hOwn]
      exact ⟨hNone, (infoOf_update_epoch_le s.state server server' value started mode).trans_lt
        (Nat.max_lt.mpr ⟨hLt, hOlder⟩)⟩
    case latest => exact fun hMerge => hLatest.trans_le (h.latest hMerge)
    case pages =>
      intro server' hServer'
      have hNe : server' ≠ server := by
        rintro rfl
        exact hServer' hMode hWaiting
      rw [hOwn, QueryState.infoOf_update, if_neg fun hBoth => hNe hBoth.1]
      exact h.pages server' hServer'

/-- The fan-out takes an answer of its own. -/
theorem Sole.own (h : Sole s fetch epoch) {task : Nat} {server : String}
    (hServer : fetch.waiting[task]? = some server) (value : T) (late : Bool) (fetches : List (Fetch T))
    (hContext : fetch'.context = fetch.context) (hWaiting : fetch'.waiting = fetch.waiting.eraseIdx task) :
    Sole ⟨s.state.update server value epoch fetch.context.updateMode, fetches,
      s.answers ++ [⟨server, epoch, fetch.context.updateMode, late, value⟩]⟩ fetch' epoch := by
  have hMem := List.mem_of_getElem? hServer
  have hLatest := (s.state.update_epochs server value epoch fetch.context.updateMode).2
  have hOnTime : ¬(fetch.context.updateMode = .merge ∧ s.state.latestReplaceEpoch > epoch) :=
    fun hBoth => absurd (h.latest hBoth.1) (Nat.not_le.mpr hBoth.2)
  have hOther : ∀ {server'}, fetch.context.updateMode = .replace →
      server' ∈ fetch.waiting.eraseIdx task → server' ≠ server := by
    rintro server' hMode hIn rfl
    obtain ⟨i, hNe, hGet⟩ := List.mem_eraseIdx_iff_getElem?.mp hIn
    have hLt := (List.getElem?_eq_some_iff.mp hGet).1
    exact hNe ((List.getElem?_inj hLt (h.nodup hMode)).mp (hGet.trans hServer.symm))
  constructor
  case nodup =>
    rw [hContext, hWaiting]
    exact fun hMode => (h.nodup hMode).eraseIdx task
  case older =>
    rw [hContext, hWaiting]
    intro hMode server' hServer'
    have hNe := hOther hMode hServer'
    rw [ownOf_append, if_neg fun hBoth => hNe hBoth.2.symm, List.append_nil, QueryState.infoOf_update,
      if_neg fun hBoth => hNe hBoth.1]
    exact h.older hMode server' (List.mem_of_mem_eraseIdx hServer')
  case latest =>
    rw [hContext]
    exact fun hMerge => hLatest.trans_le (h.latest hMerge)
  case pages =>
    rw [hContext, hWaiting]
    intro server' hServer'
    rw [ownOf_append, QueryState.infoOf_update]
    by_cases hIs : server' = server
    · subst hIs
      rw [if_pos ⟨rfl, hOnTime⟩, if_pos ⟨rfl, rfl⟩, List.map_append]
      unfold QueryResponseInfo.update
      cases hMode : fetch.context.updateMode with
      | replace =>
          obtain ⟨hNone, hLt⟩ := h.older hMode server' hMem
          simp only
          rw [if_neg (Nat.not_le.mpr hLt), hNone]
          rfl
      | merge =>
          simp only
          rw [h.pages server' fun hReplace => by rw [hMode] at hReplace; cases hReplace]
          rfl
    · rw [if_neg fun hBoth => hIs hBoth.1, if_neg fun hBoth => hIs hBoth.2.symm, List.append_nil]
      apply h.pages server'
      intro hMode hIn
      obtain ⟨i, hGet⟩ := List.getElem?_of_mem hIn
      refine hServer' hMode (List.mem_eraseIdx_iff_getElem?.mpr ⟨i, ?_, hGet⟩)
      rintro rfl
      exact hIs (Option.some.inj (hGet.symm.trans hServer))

/-- An emission changes nothing about what is held. -/
theorem Sole.emitted (h : Sole s fetch epoch) (mergeFn : MergeFn T) :
    Sole { s with state := (s.state.computeEmission mergeFn).2 } fetch epoch := by
  apply h.congr rfl rfl
  · exact fun _ => rfl
  · exact s.state.infoOf_computeEmission mergeFn
  · exact fun hMode => (s.state.computeEmission_epochs mergeFn).2.trans_le (h.latest hMode)

/-- A task of the fan-out records its result. -/
theorem Sole.record (h : Sole s fetch epoch) {id task : Nat} {server : String}
    (hServer : fetch.waiting[task]? = some server) (result : Except String T)
    (hAlone : s.Alone id (.record id task result)) (hGet : s.fetches[id]? = some fetch) :
    Sole (s.afterRecord id task epoch fetch server result)
      (Fetch.record s.state { fetch with waiting := fetch.waiting.eraseIdx task } epoch server result).2
      epoch := by
  let recorded := (Fetch.record s.state { fetch with waiting := fetch.waiting.eraseIdx task } epoch server
    result).2
  have hContext : recorded.context = fetch.context := rfl
  have hWaiting : recorded.waiting = fetch.waiting.eraseIdx task := rfl
  apply afterRecord_induct (motive := fun t => Sole t recorded epoch)
  case hEmits => exact fun mergeFn hSole => hSole.emitted mergeFn
  case hAnswer => exact fun value _ => h.own hServer value _ _ hContext hWaiting
  case hFailure =>
    rintro message rfl
    constructor
    case nodup =>
      rw [hContext, hWaiting]
      exact fun hMode => (h.nodup hMode).eraseIdx task
    case older =>
      rw [hContext, hWaiting]
      exact fun hMode server' hServer' => h.older hMode server' (List.mem_of_mem_eraseIdx hServer')
    case latest =>
      rw [hContext]
      exact h.latest
    case pages =>
      rw [hContext, hWaiting]
      intro server' hServer'
      by_cases hStill : fetch.context.updateMode = .replace ∧ server' ∈ fetch.waiting
      · obtain ⟨hMode, hIn⟩ := hStill
        obtain ⟨i, hI⟩ := List.getElem?_of_mem hIn
        have hIs : server' = server := by
          by_contra hNe
          refine hServer' hMode (List.mem_eraseIdx_iff_getElem?.mpr ⟨i, ?_, hI⟩)
          rintro rfl
          exact hNe (Option.some.inj (hI.symm.trans hServer))
        subst hIs
        -- Nothing is held of a server whose task has failed.
        have hEmpty := hAlone rfl fetch hGet hMode server' hServer
        have hNone := (h.older hMode server' hIn).1
        show (s.state.infoOf server').pages = (s.ownOf epoch server').map Answer.value
        rw [hNone, List.isEmpty_iff.mp hEmpty]
        rfl
      · exact h.pages server' fun hMode hIn => hStill ⟨hMode, hIn⟩

/-- A task of another fan-out records its result. -/
theorem Sole.recordOther (h : Sole s fetch epoch) {id task started : Nat} {other : Fetch T}
    {server : String} (hOther : started ≠ epoch) (result : Except String T)
    (hPassing : ∀ value, result = .ok value →
      s.Passing fetch epoch other.context.updateMode started server) :
    Sole (s.afterRecord id task started other server result) fetch epoch := by
  apply afterRecord_induct (motive := fun t => Sole t fetch epoch)
  case hEmits => exact fun mergeFn hSole => hSole.emitted mergeFn
  case hAnswer => exact fun value hOk => h.other hOther (hPassing value hOk) value _ _
  case hFailure => exact fun _ _ => h.congr rfl rfl (fun _ => rfl) (fun _ => rfl) h.latest

/-- While the tasks of a fetch are waiting, its fan-out is alone with the key. -/
def AloneSoFar (id : Nat) (s : System T) : Prop :=
  ∀ fetch, s.fetches[id]? = some fetch → fetch.waiting ≠ [] →
    ∀ epoch, fetch.epoch = some epoch → Sole s fetch epoch

/-- A fetch is replaced by one that waits for the same tasks. -/
theorem AloneSoFar.set {id other : Nat} (h : AloneSoFar id s) {old : Fetch T}
    (hGet : s.fetches[other]? = some old) (hContext : fetch.context = old.context)
    (hWaiting : fetch.waiting = old.waiting) (hEpoch : fetch.epoch = old.epoch) :
    AloneSoFar id { s with fetches := s.fetches.set other fetch } := by
  intro mine hMine hSome epoch hIs
  rcases getElem?_set_cases hMine with ⟨rfl, rfl⟩ | ⟨-, hIn⟩
  · have hOld := h old hGet (hWaiting ▸ hSome) epoch (hEpoch ▸ hIs)
    exact hOld.congr hContext hWaiting (fun _ => rfl) (fun _ => rfl) hOld.latest
  · have hOld := h mine hIn hSome epoch hIs
    exact hOld.congr rfl rfl (fun _ => rfl) (fun _ => rfl) hOld.latest

/-- A fan-out that starts alone finds nothing of others, or replaces it. -/
theorem AloneSoFar.spawn {id other : Nat} (h : AloneSoFar id s) (hNumbered : Numbered s)
    (hWaits : fetch.Waits) (hGet : s.fetches[other]? = some fetch) (hNone : fetch.epoch = none)
    (runtime : Bool) (hAlone : s.Alone id (.spawn other runtime)) :
    AloneSoFar id { s with
      state := (fetch.spawn s.state runtime).1
      fetches := s.fetches.set other (fetch.spawn s.state runtime).2 } := by
  have hState := Fetch.spawn_state s.state fetch runtime
  have hEpoch := Fetch.spawn_epoch s.state fetch runtime
  have hContext := Fetch.spawn_context s.state fetch runtime
  have hWaiting := Fetch.spawn_waiting s.state fetch runtime
  generalize Fetch.spawn s.state fetch runtime = spawned at hState hEpoch hContext hWaiting ⊢
  obtain ⟨state, fetch'⟩ := spawned
  dsimp only at hState hEpoch hContext hWaiting ⊢
  intro mine hMine hSome epoch hIs
  rcases getElem?_set_cases hMine with ⟨rfl, rfl⟩ | ⟨hNe, hIn⟩
  · obtain rfl := Option.some.inj (hEpoch.symm.trans hIs)
    have hServers : mine.waiting = fetch.context.servers := by
      refine hWaiting.resolve_left fun hSame => hSome ?_
      rw [hSame, (hWaits.unspawned hNone).1]
    obtain ⟨hNodup, hHeld⟩ := (if_pos rfl ▸ hAlone fetch hGet) hNone
    apply Sole.spawn hNumbered hState
    · rw [hContext, hServers]
      exact hNodup
    · rw [hContext, hServers]
      exact hHeld
  · have hOld := h mine hIn hSome epoch hIs
    refine hOld.congr rfl rfl ?_ ?_ ?_
    · exact fun _ => rfl
    · rw [hState]
      exact s.state.infoOf_nextFanout fetch.context.updateMode
    · intro hMode
      have hOtherMode := (if_neg (Ne.symm hNe) ▸ hAlone mine hIn) hSome hMode fetch hGet
      rw [hState, hOtherMode]
      exact hOld.latest hMode

/-- An answer of the fan-out is held as it was recorded, and an answer of another one does not
count. -/
theorem AloneSoFar.record {id other : Nat} (h : AloneSoFar id s) (hNumbered : Numbered s)
    {started task : Nat} (hGet : s.fetches[other]? = some fetch) (hEpoch : fetch.epoch = some started)
    {server : String} (hServer : fetch.waiting[task]? = some server) (result : Except String T)
    (hAlone : s.Alone id (.record other task result)) :
    AloneSoFar id (s.afterRecord other task started fetch server result) := by
  intro mine hMine hSome epoch hIs
  rcases getElem?_set_cases hMine with ⟨rfl, rfl⟩ | ⟨hNe, hIn⟩
  · have hSame : fetch.epoch = some epoch := hIs
    obtain rfl := Option.some.inj (hEpoch.symm.trans hSame)
    have hOld := h fetch hGet (fun hNil => by rw [hNil] at hServer; cases hServer) started hEpoch
    exact hOld.record hServer result hAlone hGet
  · have hOld := h mine hIn hSome epoch hIs
    apply hOld.recordOther
    · rintro rfl
      exact hNe (hNumbered.apart _ _ _ _ _ hIn hGet hIs hEpoch)
    · rintro value rfl
      exact hAlone (Ne.symm hNe) mine hIn hSome epoch hIs fetch hGet started hEpoch server hServer

/-- While its tasks are waiting, no step puts anything else under the key. -/
theorem AloneSoFar.step {id : Nat} (h : AloneSoFar id s) (hNumbered : Numbered s)
    (hWaits : ∀ fetch ∈ s.fetches, fetch.Waits) {action : Action T} (hAlone : s.Alone id action) :
    AloneSoFar id (s.step action) := by
  have hStepped := stepped s action
  generalize s.step action = s' at hStepped ⊢
  cases hStepped with
  | idle => exact h
  | subscribed context mode =>
      intro mine hMine hSome epoch hIs
      rcases getElem?_append_cases hMine with rfl | hIn
      · exact absurd (Fetch.subscribe_fetch s.state context mode).1 hSome
      · have hOld := (h mine hIn hSome epoch hIs).emitted context.mergeFn
        exact hOld.congr rfl rfl (fun _ => rfl) (fun _ => rfl) hOld.latest
  | spawned other runtime fetch hGet hNone hServers =>
      exact h.spawn hNumbered (hWaits fetch (List.mem_of_getElem? hGet)) hGet hNone runtime hAlone
  | recorded other task started fetch server result hGet hEpoch hServer =>
      exact h.record hNumbered hGet hEpoch hServer result hAlone
  | published other task fetch hGet =>
      obtain ⟨hEpoch, hContext⟩ := fetch.publish_fetch task
      exact h.set hGet hContext (fetch.publish_waiting task) hEpoch
  | unsubscribed other fetch hGet => exact h.set hGet rfl rfl rfl
  | invalidated =>
      intro mine hMine hSome
      exact absurd (hAlone mine hMine) hSome

/-- While its tasks are waiting, the key holds what the fan-out has recorded. -/
theorem aloneSoFar_run {id : Nat} {actions : List (Action T)}
    (hAlong : Along System.step (Alone · id) new actions) :
    AloneSoFar id (run System.step new actions) ∧ Numbered (run System.step new actions) := by
  have hStart : (AloneSoFar id (new : System T) ∧ Numbered (new : System T)) ∧
      ∀ fetch ∈ (new : System T).fetches, fetch.Waits := by
    refine ⟨⟨?_, numbered_new⟩, fun _ hMem => absurd hMem List.not_mem_nil⟩
    intro fetch hMine
    exact absurd hMine (by simp [new])
  have hStep : ∀ {s : System T} {action : Action T},
      (AloneSoFar id s ∧ Numbered s) ∧ (∀ fetch ∈ s.fetches, fetch.Waits) → s.Alone id action →
        (AloneSoFar id (s.step action) ∧ Numbered (s.step action)) ∧
          ∀ fetch ∈ (s.step action).fetches, fetch.Waits := by
    intro s action h hAlone
    obtain ⟨⟨hSoFar, hNumbered⟩, hWaits⟩ := h
    exact ⟨⟨hSoFar.step hNumbered hWaits hAlone, hNumbered.step action⟩, waits_step hWaits action⟩
  exact (run_invariant (@hStep) hStart hAlong).1

/-- Once the last task has recorded, a fan-out that was alone with the key has left its
answers there, and nothing else. -/
theorem computeMerged_record {id : Nat} {before : List (Action T)} {server : String}
    {result : Except String T} (hGet : (run System.step new before).fetches[id]? = some fetch)
    (hEpoch : fetch.epoch = some epoch) (hWaiting : fetch.waiting = [server])
    (hAlong : Along System.step (Alone · id) new (before ++ [.record id 0 result]))
    (previous : Option T) (mergeFn : MergeFn T) :
    let recorded := (run System.step new before).step (.record id 0 result)
    recorded.state.computeMerged previous mergeFn = mergeOf mergeFn previous (recorded.answersIn epoch) := by
  intro recorded
  have hSome : fetch.waiting ≠ [] := by simp [hWaiting]
  have hServer : fetch.waiting[0]? = some server := by simp [hWaiting]
  obtain ⟨hAlongBefore, hAlone⟩ := along_concat.mp hAlong
  obtain ⟨hSoFar, hNumbered⟩ := aloneSoFar_run hAlongBefore
  have hSole := (hSoFar fetch hGet hSome epoch hEpoch).record hServer result hAlone hGet
  have hStep : recorded = (run System.step new before).afterRecord id 0 epoch fetch server result := by
    simp [recorded, System.step, hGet, hEpoch, hServer]
  rw [hStep]
  have hKeyed := (hNumbered.record hGet hEpoch 0 server result).keyed
  apply hKeyed.computeMerged_eq
  intro server'
  apply hSole.pages server'
  intro _ hIn
  rw [show (Fetch.record _ { fetch with waiting := fetch.waiting.eraseIdx 0 } epoch server
    result).2.waiting = fetch.waiting.eraseIdx 0 from rfl, hWaiting] at hIn
  exact absurd hIn List.not_mem_nil

/-- A subscriber that stays open is told of completion once and last if the tasks publish
in turn once the last one has recorded. If moreover the fan-out was alone with the key
while its tasks were waiting, the data that it was told last is the merge of all answers
that the fan-out recorded. -/
theorem fanout_completes_last (before after : List (Action T)) (id : Nat) (fetch : Fetch T) (epoch : Nat)
    (server : String) (result : Except String T)
    (hGet : (run System.step new before).fetches[id]? = some fetch) (hEpoch : fetch.epoch = some epoch)
    (hWaiting : fetch.waiting = [server]) :
    let s := run System.step new before
    let recorded := s.step (.record id 0 result)
    Along System.step (InTurn · id) recorded after →
      ∀ fetch', (run System.step recorded after).fetches[id]? = some fetch' →
        fetch'.closed = false → (∀ box ∈ fetch'.outboxes, box = []) →
        (∃ front, fetch'.received = front ++ [.complete] ∧
          ∀ notification ∈ front, notification.isComplete = false) ∧
        (Along System.step (Alone · id) new (before ++ [.record id 0 result]) →
          Fetch.lastData fetch'.received =
            some (mergeOf fetch.context.mergeFn s.state.emitted (recorded.answersIn epoch))) := by
  intro s recorded hTurn fetch' hGet' hOpen hBoxes
  have hStart := settled_record (waits_run before) hGet hWaiting result
  have hEnd := run_invariant (fun {s action} (hSettled : Settled _ id s)
    (hTurn : s.InTurn id action) => hSettled.step hTurn) hStart hTurn
  obtain ⟨mine, hMine, -, -, hSettling⟩ := hEnd
  obtain rfl := Option.some.inj (hMine.symm.trans hGet')
  obtain ⟨front, hReceived, hFront, hData⟩ := (hSettling hOpen).finished hBoxes
  refine ⟨⟨front, hReceived, hFront⟩, fun hAlong => ?_⟩
  rw [hData, computeMerged_record hGet hEpoch hWaiting hAlong]

/-- Two servers that are asked at once, whose answers are summed. The first one
answers, and its task has not published yet. -/
def twoServers : List (Action Nat) :=
  [.subscribe ⟨["polycentric.io", "harbor.social"], .replace, .eager, fun pages _ => pages.sum⟩ .default,
    .spawn 0 true, .record 0 0 (.ok 10)]

/-- The first task publishes before the last one. -/
theorem fanout_completes_last_in_turn :
    let s' := run System.step new (twoServers ++ [.record 0 0 (.ok 20), .publish 0 0, .publish 0 1,
      .publish 0 1])
    ∃ fetch' front, s'.fetches[0]? = some fetch' ∧ fetch'.received = front ++ [.complete] ∧
      Fetch.lastData fetch'.received = some (some 30) := by
  intro s'
  obtain ⟨fetch, hGet, hEpoch, hWaiting, hSum⟩ : ∃ fetch,
      (run System.step new twoServers).fetches[0]? = some fetch ∧ fetch.epoch = some 1 ∧
        fetch.waiting = ["harbor.social"] ∧ fetch.context.mergeFn = fun pages _ => pages.sum :=
    ⟨_, rfl, rfl, rfl, rfl⟩
  obtain ⟨fetch', hGet', hOpen, hBoxes⟩ : ∃ fetch', s'.fetches[0]? = some fetch' ∧
      fetch'.closed = false ∧ fetch'.outboxes = [[], []] := ⟨_, rfl, rfl, rfl⟩
  obtain ⟨⟨front, hFront, -⟩, hData⟩ := fanout_completes_last twoServers
    [.publish 0 0, .publish 0 1, .publish 0 1] 0 fetch 1 "harbor.social" (.ok 20) hGet hEpoch hWaiting
    (by decide +kernel) fetch' hGet' hOpen (by simp [hBoxes])
  refine ⟨fetch', front, hGet', hFront, ?_⟩
  rw [hData (by decide +kernel), hSum]
  decide +kernel

/-- The last task completes, and another one publishes its older snapshot after it. -/
theorem fanout_goes_on_after_completion :
    ¬ ∀ (before after : List (Action Nat)) (id : Nat) (fetch : Fetch Nat) (epoch : Nat) (server : String)
      (result : Except String Nat), (run System.step new before).fetches[id]? = some fetch →
      fetch.epoch = some epoch → fetch.waiting = [server] →
      let s := run System.step new before
      let recorded := s.step (.record id 0 result)
      ∀ fetch', (run System.step recorded after).fetches[id]? = some fetch' →
        fetch'.closed = false → (∀ box ∈ fetch'.outboxes, box = []) →
        (∃ front, fetch'.received = front ++ [.complete] ∧
          ∀ notification ∈ front, notification.isComplete = false) ∧
        Fetch.lastData fetch'.received =
          some (mergeOf fetch.context.mergeFn s.state.emitted (recorded.answersIn epoch)) := by
  intro hCompletes
  obtain ⟨fetch, hGet, hEpoch, hWaiting⟩ : ∃ fetch, (run System.step new twoServers).fetches[0]? = some fetch ∧
      fetch.epoch = some 1 ∧ fetch.waiting = ["harbor.social"] := ⟨_, rfl, rfl, rfl⟩
  have hLast := hCompletes twoServers [.publish 0 1, .publish 0 1, .publish 0 0] 0 fetch 1
    "harbor.social" (.ok 20) hGet hEpoch hWaiting
  obtain ⟨fetch', hGet', hOpen, hBoxes, hReceived⟩ : ∃ fetch',
      (run System.step new (twoServers ++ [.record 0 0 (.ok 20), .publish 0 1, .publish 0 1,
        .publish 0 0])).fetches[0]? = some fetch' ∧ fetch'.closed = false ∧
        fetch'.outboxes = [[], []] ∧ fetch'.received.getLast? = some (.next ⟨some 10, .loading, 1, 1⟩) :=
    ⟨_, rfl, rfl, rfl, rfl⟩
  obtain ⟨⟨front, hFront, -⟩, -⟩ := hLast fetch' hGet' hOpen (by simp [hBoxes])
  rw [hFront, List.getLast?_append] at hReceived
  cases hReceived

end System

end Polycentric.Query
