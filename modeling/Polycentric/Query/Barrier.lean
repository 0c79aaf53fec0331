import Polycentric.Query.Answers

/-! What an invalidation keeps out: the values that a fetch subscribed after it is
handed, and what they were made from. -/
namespace Polycentric.Query

open Memo Runs Slots

variable {T : Type}

/-- The values made from the answers by the merge functions, which are also given the
value made before. -/
inductive DerivedFrom (mergeFns : List (MergeFn T)) (answers : List T) : T → Prop where
  | answer {value : T} (hMem : value ∈ answers) : DerivedFrom mergeFns answers value
  | merged {mergeFn : MergeFn T} {pages : List T} {previous : Option T} (hMem : mergeFn ∈ mergeFns)
      (hPages : ∀ page ∈ pages, DerivedFrom mergeFns answers page)
      (hPrevious : ∀ value, previous = some value → DerivedFrom mergeFns answers value) :
      DerivedFrom mergeFns answers (mergeFn pages previous)

/-- More merge functions and more answers derive no less. -/
theorem DerivedFrom.mono {mergeFns mergeFns' : List (MergeFn T)} {answers answers' : List T} {value : T}
    (h : DerivedFrom mergeFns answers value) (hMergeFns : mergeFns ⊆ mergeFns')
    (hAnswers : answers ⊆ answers') : DerivedFrom mergeFns' answers' value := by
  induction h with
  | answer hMem => exact .answer (hAnswers hMem)
  | merged hMem _ _ ihPages ihPrevious => exact .merged (hMergeFns hMem) ihPages ihPrevious

/-- The merged value of a notification. -/
def Notification.data? : Notification T → Option T
  | .next result => result.data
  | .error _ => none
  | .complete => none

/-- The values that a fetch has been handed, or is about to be. -/
def Fetch.values (fetch : Fetch T) : List T :=
  (fetch.received ++ fetch.outboxes.flatten).filterMap Notification.data?

namespace System

variable (s : System T)

def mergeFns : List (MergeFn T) := s.fetches.map fun fetch => fetch.context.mergeFn

/-- The answers to the fan-outs after an epoch. -/
def answersSince (epoch : Nat) : List T :=
  (s.answers.filter fun answer => epoch < answer.epoch).map Answer.value

abbrev Derived (epoch : Nat) (value : T) : Prop := DerivedFrom s.mergeFns (s.answersSince epoch) value

/-- No task takes the answer to a `Replace` fan-out of before the epoch, unless the
server has answered a later one already. -/
def NoneRevived (epoch : Nat) : Action T → Prop
  | .record id task (.ok _) => ∀ fetch ∈ s.fetches[id]?, fetch.context.updateMode = .replace →
      ∀ started ∈ fetch.epoch, started ≤ epoch →
      ∀ server ∈ fetch.waiting[task]?, started ≤ (s.state.infoOf server).epoch
  | _ => True

instance (epoch : Nat) : ∀ action, Decidable (s.NoneRevived epoch action)
  | .record id _ (.ok _) => inferInstanceAs (Decidable (∀ fetch ∈ s.fetches[id]?, _))
  | .record _ _ (.error _) | .subscribe _ _ | .spawn _ _ | .publish _ _ | .unsubscribe _
  | .invalidate => inferInstanceAs (Decidable True)

end System

/-! ### The values of a fetch -/

section Values

variable {state : QueryState T} {fetch : Fetch T} {value : T}

/-- Every page that is merged is one of a server. -/
theorem QueryState.mem_pages {page : T} (h : page ∈ state.pages) :
    ∃ server, page ∈ (state.infoOf server).pages := by
  obtain ⟨server, -, hPage⟩ := List.mem_flatMap.mp h
  exact ⟨server, hPage⟩

/-- A value is emitted by merging the pages into the value before it. -/
theorem QueryState.computeEmission_eq_some {mergeFn : MergeFn T}
    (h : (state.computeEmission mergeFn).1 = some value) : value = mergeFn state.pages state.emitted := by
  unfold computeEmission computeMerged at h
  split at h
  · next hMerged =>
      split at hMerged
      · cases hMerged
      · simp only [Option.some.injEq] at h hMerged
        exact h.symm.trans hMerged.symm
  · cases h

/-- What is emitted last is what was emitted just now, or before. -/
theorem QueryState.computeEmission_emitted (state : QueryState T) (mergeFn : MergeFn T) :
    (state.computeEmission mergeFn).2.emitted = (state.computeEmission mergeFn).1 ∨
      (state.computeEmission mergeFn).2.emitted = state.emitted := by
  unfold computeEmission
  split
  · exact Or.inl rfl
  · exact Or.inr rfl

namespace Fetch

theorem values_deliver {notifications : List (Notification T)}
    (h : value ∈ (fetch.deliver notifications).values) :
    value ∈ fetch.values ∨ value ∈ notifications.filterMap Notification.data? := by
  unfold deliver at h
  split at h
  · exact Or.inl h
  · simp only [values, List.filterMap_append, List.mem_append] at h ⊢
    tauto

/-- A subscriber is first given what the key holds. -/
theorem values_subscribe {context : FanoutContext T} {mode : FetchMode}
    (h : value ∈ (subscribe state context mode).2.values) :
    (state.computeEmission context.mergeFn).1 = some value := by
  have hClose : ∀ (willFetch : Bool) (opened : Fetch T),
      value ∈ (if willFetch then opened else opened.deliver [.complete]).values →
        value ∈ opened.values := by
    intro willFetch opened hMem
    cases willFetch with
    | true => exact hMem
    | false => exact (values_deliver hMem).resolve_right (by simp [Notification.data?])
  unfold subscribe at h
  dsimp only at h
  have hOpened := hClose _ _ h
  cases hCached : (state.computeEmission context.mergeFn).1 with
  | none =>
      rw [hCached] at hOpened
      exact absurd hOpened (by simp [values])
  | some cached =>
      rw [hCached] at hOpened
      rcases values_deliver hOpened with hNil | hNext
      · exact absurd hNil (by simp [values])
      · simp only [Notification.data?, List.filterMap_cons, List.filterMap_nil,
          List.mem_singleton] at hNext
        rw [hNext]

theorem values_spawn {runtime : Bool} (h : value ∈ (fetch.spawn state runtime).2.values) :
    value ∈ fetch.values := by
  unfold spawn at h
  dsimp only at h
  split at h
  · exact (values_deliver h).resolve_right (by simp [Notification.data?])
  · exact h

theorem snapshot_data {pending successful : Nat} {result : QueryResult T}
    (h : (snapshot state fetch pending successful).2 = some result) :
    result.data = (state.computeEmission fetch.context.mergeFn).1 := by
  unfold snapshot at h
  split at h
  · cases h
  · rw [← Option.some.inj h]

/-- An answer shows a subscriber at most the emission that it leads to. -/
theorem values_record {epoch : Nat} {server : String} {result : Except String T}
    (h : value ∈ (record state fetch epoch server result).2.values) :
    value ∈ fetch.values ∨
      ((answered state fetch epoch server result).computeEmission fetch.context.mergeFn).1 =
        some value := by
  simp only [values, record, List.flatten_append, List.filterMap_append, List.mem_append,
    List.flatten_singleton] at h
  rcases h with hOld | hOld | (hNext | hError) | hLast
  · exact Or.inl (by rw [values, List.filterMap_append]; exact List.mem_append_left _ hOld)
  · exact Or.inl (by rw [values, List.filterMap_append]; exact List.mem_append_right _ hOld)
  · right
    obtain ⟨notification, hNext, hData⟩ := List.mem_filterMap.mp hNext
    obtain ⟨next, hSnapshot, rfl⟩ := List.mem_map.mp hNext
    exact (snapshot_data (Option.mem_toList.mp hSnapshot)).symm.trans hData
  · cases result with
    | ok answer => exact absurd hError (by simp)
    | error message => exact absurd hError (by simp [Notification.data?])
  · split at hLast
    · exact absurd hLast (by simp [Notification.data?])
    · exact absurd hLast (by simp)

theorem values_publish {task : Nat} (h : value ∈ (fetch.publish task).values) :
    value ∈ fetch.values := by
  unfold publish at h
  split at h
  · next notification rest hTask =>
      have hBox : notification :: rest ∈ fetch.outboxes := List.mem_of_getElem? hTask
      have hIn : ∀ {other : Notification T}, other ∈ notification :: rest →
          other.data? = some value → value ∈ fetch.values := fun hMem hData =>
        List.mem_filterMap.mpr
          ⟨_, List.mem_append_right _ (List.mem_flatten.mpr ⟨_, hBox, hMem⟩), hData⟩
      rcases values_deliver h with hOld | hNew
      · obtain ⟨other, hOther, hData⟩ := List.mem_filterMap.mp hOld
        rcases List.mem_append.mp hOther with hReceived | hPending
        · exact List.mem_filterMap.mpr ⟨other, List.mem_append_left _ hReceived, hData⟩
        · obtain ⟨box, hSet, hMem⟩ := List.mem_flatten.mp hPending
          rcases List.mem_or_eq_of_mem_set hSet with hSame | rfl
          · exact List.mem_filterMap.mpr
              ⟨other, List.mem_append_right _ (List.mem_flatten.mpr ⟨box, hSame, hMem⟩), hData⟩
          · exact hIn (List.mem_cons_of_mem _ hMem) hData
      · obtain ⟨other, hOther, hData⟩ := List.mem_filterMap.mp hNew
        obtain rfl := List.mem_singleton.mp hOther
        exact hIn List.mem_cons_self hData
  · exact h

end Fetch

end Values

/-! ### States that hold derived values only -/

namespace QueryState

/-- Whatever the state holds meets the condition. -/
structure AllOf (Clean : T → Prop) (state : QueryState T) : Prop where
  pages : ∀ server, ∀ page ∈ (state.infoOf server).pages, Clean page
  emitted : ∀ value, state.emitted = some value → Clean value

variable {state : QueryState T} {Clean Clean' : T → Prop}

theorem AllOf.mono (h : AllOf Clean state) (hClean : ∀ value, Clean value → Clean' value) :
    AllOf Clean' state where
  pages server page hPage := hClean page (h.pages server page hPage)
  emitted value hValue := hClean value (h.emitted value hValue)

/-- The merged value meets a condition that the merge function keeps. -/
theorem AllOf.emission (h : AllOf Clean state) {mergeFn : MergeFn T}
    (hKeeps : ∀ pages previous, (∀ page ∈ pages, Clean page) →
      (∀ value, previous = some value → Clean value) → Clean (mergeFn pages previous))
    {value : T} (hValue : (state.computeEmission mergeFn).1 = some value) : Clean value := by
  rw [computeEmission_eq_some hValue]
  apply hKeeps state.pages state.emitted ?_ h.emitted
  intro page hPage
  obtain ⟨server, hServer⟩ := mem_pages hPage
  exact h.pages server page hServer

/-- An emission is as clean as the pages and the emission before it. -/
theorem AllOf.computeEmission (h : AllOf Clean state) {mergeFn : MergeFn T}
    (hKeeps : ∀ pages previous, (∀ page ∈ pages, Clean page) →
      (∀ value, previous = some value → Clean value) → Clean (mergeFn pages previous)) :
    AllOf Clean (state.computeEmission mergeFn).2 where
  pages server page hPage := by
    rw [infoOf_computeEmission] at hPage
    exact h.pages server page hPage
  emitted value hValue := by
    rcases state.computeEmission_emitted mergeFn with hNow | hBefore
    · exact h.emission hKeeps (hNow.symm.trans hValue)
    · exact h.emitted value (hBefore.symm.trans hValue)

/-- An answer that does not meet the condition has to be dropped. -/
theorem AllOf.update (h : AllOf Clean state) {server : String} {value : T} {epoch : Nat}
    {mode : UpdateMode}
    (hTaken : Clean value ∨ (mode = .merge ∧ epoch < state.latestReplaceEpoch) ∨
      (mode = .replace ∧ epoch ≤ (state.infoOf server).epoch)) :
    AllOf Clean (state.update server value epoch mode) where
  pages server' page hPage := by
    rw [infoOf_update] at hPage
    split at hPage
    · next hKept =>
        rcases hTaken with hClean | hLate | ⟨hReplace, hOld⟩
        · unfold QueryResponseInfo.update at hPage
          split at hPage
          · split at hPage
            · exact h.pages server page hPage
            · exact List.mem_singleton.mp hPage ▸ hClean
          · rcases List.mem_append.mp hPage with hIn | hNew
            · exact h.pages server page hIn
            · exact List.mem_singleton.mp hNew ▸ hClean
        · exact absurd hLate hKept.2
        · rw [hReplace, QueryResponseInfo.update, if_pos hOld] at hPage
          exact h.pages server page hPage
    · exact h.pages server' page hPage
  emitted last hLast := by
    unfold QueryState.update at hLast
    split at hLast
    · exact h.emitted last hLast
    · exact h.emitted last hLast

/-- An invalidated key holds nothing, so nothing that is not clean. -/
theorem AllOf.invalidate : AllOf Clean state.invalidate where
  pages _ _ hPage := absurd hPage List.not_mem_nil
  emitted _ hValue := absurd hValue (by simp [QueryState.invalidate, nextFanout])

end QueryState

/-! ### Runs -/

namespace System

variable {s s' : System T} {epoch first : Nat}

/-- What was derived stays derived as answers and fan-outs come in. -/
theorem Derived.step {value : T} (h : s.Derived epoch value)
    (hFetches : ∀ fetch ∈ s.fetches, ∃ fetch' ∈ s'.fetches,
      fetch'.context.mergeFn = fetch.context.mergeFn)
    (hAnswers : s.answers ⊆ s'.answers) : s'.Derived epoch value := by
  refine h.mono ?_ (List.map_subset _ ?_)
  · intro mergeFn hMem
    obtain ⟨fetch, hFetch, rfl⟩ := List.mem_map.mp hMem
    obtain ⟨fetch', hFetch', hSame⟩ := hFetches fetch hFetch
    exact List.mem_map.mpr ⟨fetch', hFetch', hSame⟩
  · intro answer hMem
    obtain ⟨hIn, hLater⟩ := List.mem_filter.mp hMem
    exact List.mem_filter.mpr ⟨hAnswers hIn, hLater⟩

/-- Merging what is derived gives what is derived. -/
theorem Derived.keeps (epoch : Nat) {fetch : Fetch T} (hFetch : fetch ∈ s.fetches) (pages : List T)
    (previous : Option T) (hPages : ∀ page ∈ pages, s.Derived epoch page)
    (hPrevious : ∀ value, previous = some value → s.Derived epoch value) :
    s.Derived epoch (fetch.context.mergeFn pages previous) :=
  .merged (List.mem_map_of_mem hFetch) hPages hPrevious

/-- The epochs that were handed out. -/
structure Counted (s : System T) : Prop where
  latest : s.state.latestReplaceEpoch ≤ s.state.epoch
  fetches : ∀ fetch ∈ s.fetches, ∀ epoch, fetch.epoch = some epoch → epoch ≤ s.state.epoch

theorem Counted.set (h : Counted s) {id : Nat} {old fetch : Fetch T}
    (hGet : s.fetches[id]? = some old) (hSame : fetch.epoch = old.epoch) :
    Counted { s with fetches := s.fetches.set id fetch } where
  latest := h.latest
  fetches other hOther epoch hIs := by
    rcases List.mem_or_eq_of_mem_set hOther with hIn | rfl
    · exact h.fetches other hIn epoch hIs
    · exact h.fetches old (List.mem_of_getElem? hGet) epoch (hSame ▸ hIs)

/-- No step hands out an epoch that is not counted. -/
theorem Counted.step (h : Counted s) (action : Action T) : Counted (s.step action) := by
  have hStepped := stepped s action
  generalize s.step action = s' at hStepped ⊢
  cases hStepped with
  | idle => exact h
  | subscribed context mode =>
      obtain ⟨hEpoch, hLatest⟩ := s.state.computeEmission_epochs context.mergeFn
      constructor
      · rw [Fetch.subscribe_state]
        exact hLatest ▸ hEpoch ▸ h.latest
      · rw [Fetch.subscribe_state]
        intro fetch hFetch epoch hIs
        rcases List.mem_append.mp hFetch with hIn | hNew
        · exact hEpoch ▸ h.fetches fetch hIn epoch hIs
        · rw [List.mem_singleton.mp hNew, Fetch.subscribe_epoch] at hIs
          cases hIs
  | spawned id runtime fetch hGet hNone hServers =>
      have hEpoch := Fetch.spawn_epoch s.state fetch runtime
      constructor
      · rw [Fetch.spawn_state]
        cases hMode : fetch.context.updateMode with
        | replace => exact le_rfl
        | merge => exact h.latest.trans (Nat.le_succ _)
      · rw [Fetch.spawn_state]
        intro other hOther epoch hIs
        rcases List.mem_or_eq_of_mem_set hOther with hIn | rfl
        · exact (h.fetches other hIn epoch hIs).trans (Nat.le_succ _)
        · exact (Option.some.inj (hEpoch.symm.trans hIs)).ge
  | recorded id task epoch fetch server result hGet hEpoch hServer =>
      obtain ⟨hStarted, hLatest⟩ := Fetch.record_epochs s.state
        { fetch with waiting := fetch.waiting.eraseIdx task } epoch server result
      obtain ⟨hOld, hFetches⟩ := h.set hGet (Fetch.record_fetch s.state
        { fetch with waiting := fetch.waiting.eraseIdx task } epoch server result).1
      exact ⟨hLatest.trans_le (hOld.trans hStarted.ge),
        fun other hOther e hIs => (hFetches other hOther e hIs).trans hStarted.ge⟩
  | published id task fetch hGet => exact h.set hGet (fetch.publish_fetch task).1
  | unsubscribed id fetch hGet => exact h.set hGet rfl
  | invalidated => exact ⟨le_rfl, fun fetch hFetch e hIs =>
      (h.fetches fetch hFetch e hIs).trans (Nat.le_succ _)⟩

/-- What is made of answers to fan-outs after the epoch: everything that the state
holds, and that the fetches from the first on are handed. -/
structure Fresh (epoch first : Nat) (s : System T) : Prop where
  latest : epoch ≤ s.state.latestReplaceEpoch
  other : ∀ fetch ∈ s.fetches, fetch.epoch ≠ some epoch
  state : QueryState.AllOf (s.Derived epoch) s.state
  values : ∀ id fetch, s.fetches[id]? = some fetch → first ≤ id →
    ∀ value ∈ fetch.values, s.Derived epoch value

/-- A fetch is replaced by one that has nothing new but derived values. -/
theorem Fresh.set (h : Fresh epoch first s) {id : Nat} {old fetch : Fetch T} {state : QueryState T}
    {answers : List (Answer T)} (hGet : s.fetches[id]? = some old)
    (hContext : fetch.context = old.context) (hAnswers : s.answers ⊆ answers)
    (hOther : fetch.epoch ≠ some epoch) (hLatest : epoch ≤ state.latestReplaceEpoch)
    (hState : ∀ s' : System T, s'.fetches = s.fetches.set id fetch → s'.answers = answers →
      QueryState.AllOf (s'.Derived epoch) s.state → fetch ∈ s'.fetches →
      QueryState.AllOf (s'.Derived epoch) state ∧
        ∀ value ∈ fetch.values, value ∈ old.values ∨ s'.Derived epoch value) :
    Fresh epoch first ⟨state, s.fetches.set id fetch, answers⟩ := by
  have hStep : ∀ {value}, s.Derived epoch value →
      System.Derived ⟨state, s.fetches.set id fetch, answers⟩ epoch value := by
    intro value hValue
    refine hValue.step ?_ hAnswers
    intro other hMem
    rcases mem_set_or_eq (b := fetch) hGet hMem with rfl | hIn
    · exact ⟨fetch, mem_set_self hGet, by rw [hContext]⟩
    · exact ⟨other, hIn, rfl⟩
  obtain ⟨hAll, hNew⟩ := hState ⟨state, s.fetches.set id fetch, answers⟩ rfl rfl
    (h.state.mono fun _ => hStep) (mem_set_self hGet)
  exact
    { latest := hLatest
      other := by
        intro other hMem
        rcases List.mem_or_eq_of_mem_set hMem with hIn | rfl
        · exact h.other other hIn
        · exact hOther
      state := hAll
      values := by
        intro j other hOtherGet hFirst value hValue
        rcases getElem?_set_cases hOtherGet with ⟨rfl, rfl⟩ | ⟨-, hSame⟩
        · rcases hNew value hValue with hOld | hDerived
          · exact hStep (h.values j old hGet hFirst value hOld)
          · exact hDerived
        · exact hStep (h.values j other hSame hFirst value hValue) }

/-- A new subscriber is handed what is made of answers after the epoch. -/
theorem Fresh.subscribe (h : Fresh epoch first s) (context : FanoutContext T) (mode : FetchMode) :
    Fresh epoch first { s with
      state := (Fetch.subscribe s.state context mode).1
      fetches := s.fetches ++ [(Fetch.subscribe s.state context mode).2] } := by
  have hMergeFn := Fetch.subscribe_mergeFn s.state context mode
  have hEpoch := Fetch.subscribe_epoch s.state context mode
  have hValues : ∀ value ∈ (Fetch.subscribe s.state context mode).2.values,
      (s.state.computeEmission context.mergeFn).1 = some value := fun _ => Fetch.values_subscribe
  rw [Fetch.subscribe_state]
  generalize (Fetch.subscribe s.state context mode).2 = fetch at hMergeFn hEpoch hValues ⊢
  have hStep : ∀ {value}, s.Derived epoch value →
      System.Derived ⟨(s.state.computeEmission context.mergeFn).2, s.fetches ++ [fetch], s.answers⟩
        epoch value := fun hValue =>
    hValue.step (fun other hOther => ⟨other, List.mem_append_left _ hOther, rfl⟩) (List.Subset.refl _)
  have hAll := h.state.mono fun _ => hStep
  have hFetch : fetch ∈
      (System.mk (s.state.computeEmission context.mergeFn).2 (s.fetches ++ [fetch]) s.answers).fetches :=
    List.mem_append_right _ (List.mem_singleton.mpr rfl)
  have hKeeps := Derived.keeps epoch hFetch
  rw [hMergeFn] at hKeeps
  exact
    { latest := h.latest.trans_eq (s.state.computeEmission_epochs _).2.symm
      other := by
        intro other hOther
        rcases List.mem_append.mp hOther with hIn | hNew
        · exact h.other other hIn
        · rw [List.mem_singleton.mp hNew, hEpoch]
          exact (Option.some_ne_none epoch).symm
      state := hAll.computeEmission hKeeps
      values := by
        intro id other hGet hFirst value hValue
        rw [List.getElem?_append] at hGet
        split at hGet
        · exact hStep (h.values id other hGet hFirst value hValue)
        · obtain rfl := List.mem_singleton.mp (List.mem_of_getElem? hGet)
          exact hAll.emission hKeeps (hValues value hValue) }

/-- A fan-out that starts has an epoch of its own. -/
theorem Fresh.spawn (h : Fresh epoch first s) (hCounted : Counted s) {id : Nat} {fetch : Fetch T}
    (hGet : s.fetches[id]? = some fetch) (runtime : Bool) :
    Fresh epoch first { s with
      state := (fetch.spawn s.state runtime).1
      fetches := s.fetches.set id (fetch.spawn s.state runtime).2 } := by
  have hNewer : epoch < s.state.epoch + 1 := Nat.lt_succ_of_le (h.latest.trans hCounted.latest)
  apply h.set hGet (Fetch.spawn_context s.state fetch runtime) (List.Subset.refl _)
  · rw [Fetch.spawn_epoch]
    exact fun hIs => hNewer.ne (Option.some.inj hIs).symm
  · rw [Fetch.spawn_state]
    cases fetch.context.updateMode with
    | replace => exact hNewer.le
    | merge => exact h.latest
  · intro s' _ _ hState _
    constructor
    · rw [Fetch.spawn_state]
      exact ⟨hState.pages, hState.emitted⟩
    · exact fun value hValue => Or.inl (Fetch.values_spawn hValue)

/-- An answer that was asked for before the epoch is dropped. -/
theorem Fresh.record (h : Fresh epoch first s) {id : Nat} {fetch : Fetch T}
    (hGet : s.fetches[id]? = some fetch) {started : Nat} (hEpoch : fetch.epoch = some started)
    {task : Nat} {server : String} (hServer : fetch.waiting[task]? = some server)
    {result : Except String T} (hBarred : s.NoneRevived epoch (.record id task result)) :
    Fresh epoch first (s.afterRecord id task started fetch server result) := by
  have hFetch := List.mem_of_getElem? hGet
  have hOther : started ≠ epoch := fun hIs => h.other fetch hFetch (hIs ▸ hEpoch)
  obtain ⟨taken, hTaken⟩ : ∃ taken, taken = { fetch with waiting := fetch.waiting.eraseIdx task } :=
    ⟨_, rfl⟩
  have hContext : taken.context = fetch.context := by rw [hTaken]
  obtain ⟨hSame, hRecorded⟩ := Fetch.record_fetch s.state taken started server result
  unfold afterRecord
  dsimp only
  rw [← hTaken]
  apply h.set hGet (hRecorded.trans hContext) (List.subset_append_left _ _)
  · rw [hSame, hTaken, hEpoch]
    exact fun hIs => hOther (Option.some.inj hIs)
  · exact h.latest.trans_eq (Fetch.record_epochs s.state taken started server result).2.symm
  · intro s' hFetches hAnswers hState hMem
    have hKeeps := Derived.keeps epoch hMem
    rw [hRecorded] at hKeeps
    have hAnswered : QueryState.AllOf (s'.Derived epoch)
        (Fetch.answered s.state taken started server result) := by
      cases result with
      | error message => exact hState
      | ok value =>
          apply hState.update
          rw [hContext]
          by_cases hNewer : epoch < started
          · have hNew : ⟨server, started, fetch.context.updateMode,
                decide (s.state.latestReplaceEpoch > started), value⟩ ∈ s'.answers := by
              rw [hAnswers]
              exact List.mem_append_right _ (List.mem_singleton.mpr rfl)
            exact Or.inl (.answer (List.mem_map_of_mem
              (List.mem_filter.mpr ⟨hNew, decide_eq_true hNewer⟩)))
          · have hOld : started ≤ epoch := Nat.le_of_not_lt hNewer
            cases hMode : fetch.context.updateMode with
            | merge =>
                exact Or.inr (Or.inl ⟨rfl, (Nat.lt_of_le_of_ne hOld hOther).trans_le h.latest⟩)
            | replace =>
                exact Or.inr (Or.inr ⟨rfl, hBarred fetch hGet hMode started hEpoch hOld server hServer⟩)
    constructor
    · rcases Fetch.record_state s.state taken started server result with hIs | hIs
      · rw [hIs]
        exact hAnswered
      · rw [hIs]
        exact hAnswered.computeEmission hKeeps
    · intro value hValue
      rcases Fetch.values_record hValue with hOld | hNew
      · left
        rw [hTaken] at hOld
        exact hOld
      · exact Or.inr (hAnswered.emission hKeeps hNew)

/-- A step shows only what is made of answers after the epoch, as long as it revives no other. -/
theorem Fresh.step (h : Fresh epoch first s) (hCounted : Counted s) {action : Action T}
    (hBarred : s.NoneRevived epoch action) : Fresh epoch first (s.step action) := by
  have hStepped := stepped s action
  generalize s.step action = s' at hStepped ⊢
  cases hStepped with
  | idle => exact h
  | subscribed context mode => exact h.subscribe context mode
  | spawned id runtime fetch hGet hNone hServers => exact h.spawn hCounted hGet runtime
  | recorded id task started fetch server result hGet hEpoch hServer =>
      exact h.record hGet hEpoch hServer hBarred
  | published id task fetch hGet =>
      obtain ⟨hEpoch, hContext⟩ := fetch.publish_fetch task
      apply h.set hGet hContext (List.Subset.refl _) ?_ h.latest
      · exact fun s' _ _ hState _ => ⟨hState, fun value hValue => Or.inl (Fetch.values_publish hValue)⟩
      · exact hEpoch ▸ h.other fetch (List.mem_of_getElem? hGet)
  | unsubscribed id fetch hGet =>
      refine h.set hGet ?_ (List.Subset.refl _) ?_ h.latest ?_
      · rfl
      · exact h.other fetch (List.mem_of_getElem? hGet)
      · exact fun s' _ _ hState _ => ⟨hState, fun value hValue => Or.inl hValue⟩
  | invalidated =>
      have hLatest : epoch ≤ s.state.epoch + 1 := (h.latest.trans hCounted.latest).trans (Nat.le_succ _)
      exact ⟨hLatest, h.other, QueryState.AllOf.invalidate, h.values⟩

theorem counted_new : Counted (new : System T) :=
  ⟨le_rfl, fun _ hMem => absurd hMem List.not_mem_nil⟩

/-- Right after an invalidation there is nothing to be derived. -/
theorem fresh_invalidate (hCounted : Counted s) :
    Fresh (s.state.epoch + 1) s.fetches.length (s.step .invalidate) where
  latest := le_rfl
  other fetch hFetch hIs := absurd (hCounted.fetches fetch hFetch _ hIs) (Nat.not_succ_le_self _)
  state := QueryState.AllOf.invalidate
  values id fetch hGet hFirst := by
    rw [List.getElem?_eq_none (by exact hFirst)] at hGet
    cases hGet

/-- The barrier holds for the rest of the run. -/
theorem fresh_run {actions : List (Action T)} (h : Counted s ∧ Fresh epoch first s)
    (hAlong : Along System.step (NoneRevived · epoch) s actions) :
    Counted (run System.step s actions) ∧ Fresh epoch first (run System.step s actions) :=
  run_invariant (fun {s action} (h : Counted s ∧ Fresh epoch first s) hBarred =>
    ⟨h.1.step action, h.2.step h.1 hBarred⟩) h hAlong

/-- In every run that goes on after an invalidation without reviving an answer of
before it, the fetches subscribed after it are handed values that were made from
answers to later fan-outs only. -/
theorem invalidation_is_barrier (before after : List (Action T)) :
    let s := (run System.step new before).step .invalidate
    Along System.step (NoneRevived · s.state.epoch) s after →
      let s' := run System.step s after
      ∀ id fetch, s'.fetches[id]? = some fetch → s.fetches.length ≤ id →
        ∀ value ∈ fetch.values, s'.Derived s.state.epoch value := by
  intro s hAlong s' id fetch hGet hLater value hValue
  have hBefore : Counted (run System.step new before) :=
    run_invariant (fun h _ => h.step _) counted_new (along_true new before)
  have hStart : Fresh s.state.epoch s.fetches.length s := fresh_invalidate hBefore
  exact (fresh_run ⟨hBefore.step _, hStart⟩ hAlong).2.values id fetch hGet hLater value hValue

/-- Fan-outs that replace, one on each side of an invalidation, to one server. -/
def straddling : FanoutContext Nat := ⟨["polycentric.io"], .replace, .default, fun pages _ => pages.sum⟩

/-- An answer of before the invalidation that comes after the newer answer is dropped. -/
theorem invalidation_is_barrier_overtaken :
    let s := (run System.step new [.subscribe straddling .default, .spawn 0 true]).step .invalidate
    let s' := run System.step s [.subscribe straddling .default, .spawn 1 true, .record 1 0 (.ok 20),
      .record 0 0 (.ok 10), .subscribe straddling .offlineOnly]
    s'.fetches[2]?.map Fetch.values = some [20] ∧ s'.Derived s.state.epoch 20 := by
  intro s s'
  have hBarred : Along System.step (NoneRevived · s.state.epoch) s
      [.subscribe straddling .default, .spawn 1 true, .record 1 0 (.ok 20), .record 0 0 (.ok 10),
        .subscribe straddling .offlineOnly] := by decide +kernel
  have hValues : s'.fetches[2]?.map Fetch.values = some [20] := by decide +kernel
  obtain ⟨fetch, hGet, hIs⟩ := Option.map_eq_some_iff.mp hValues
  exact ⟨hValues, invalidation_is_barrier _ _ hBarred 2 fetch hGet (by decide +kernel) 20
    (hIs ▸ List.mem_singleton.mpr rfl)⟩

/-- Sums made of no answer are zero. -/
theorem zero_of_derivedFrom_nil {mergeFns : List (MergeFn Nat)}
    (hSums : ∀ mergeFn ∈ mergeFns, mergeFn = straddling.mergeFn) {value : Nat}
    (h : DerivedFrom mergeFns [] value) : value = 0 := by
  induction h with
  | answer hMem => exact absurd hMem List.not_mem_nil
  | merged hMem _ _ ihPages _ =>
      rw [hSums _ hMem]
      exact List.sum_eq_zero ihPages

/-- The answer to a fan-out that replaces, asked for before the invalidation and taken
after it, is handed to the next subscriber. -/
theorem invalidation_is_no_barrier :
    ¬ ∀ before after : List (Action Nat),
      let s := (run System.step new before).step .invalidate
      let s' := run System.step s after
      ∀ id fetch, s'.fetches[id]? = some fetch → s.fetches.length ≤ id →
        ∀ value ∈ fetch.values, s'.Derived s.state.epoch value := by
  intro hBarrier
  obtain ⟨s, hs⟩ : ∃ s, s = (run System.step new [.subscribe straddling .default, .spawn 0 true]).step
    .invalidate := ⟨_, rfl⟩
  obtain ⟨s', hs'⟩ : ∃ s', s' = run System.step s
    [.record 0 0 (.ok 10), .subscribe straddling .offlineOnly] := ⟨_, rfl⟩
  have hValues : s'.fetches[1]?.map Fetch.values = some [10] := by
    rw [hs', hs]
    decide +kernel
  obtain ⟨fetch, hGet, hIs⟩ := Option.map_eq_some_iff.mp hValues
  have hDerived : s'.Derived s.state.epoch 10 := by
    subst hs' hs
    exact hBarrier _ _ 1 fetch hGet (by decide +kernel) 10 (hIs ▸ List.mem_singleton.mpr rfl)
  have hNothing : s'.answersSince s.state.epoch = [] := by
    rw [hs', hs]
    decide +kernel
  have hSums : s'.mergeFns = [straddling.mergeFn, straddling.mergeFn] := by
    rw [hs', hs]
    rfl
  unfold Derived at hDerived
  rw [hNothing, hSums] at hDerived
  exact absurd (zero_of_derivedFrom_nil (by simp) hDerived) (by decide)

end System

end Polycentric.Query
