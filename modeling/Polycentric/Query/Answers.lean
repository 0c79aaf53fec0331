import Polycentric.Query.FanOut

/-! Which answers a key keeps while the fan-outs to its servers overlap. A server
should hold its answer to the newest `Replace` fan-out that it answered, and its
answers to the `Merge` fan-outs after the newest `Replace`. -/
namespace Polycentric.Query

open Memo Runs Slots

variable {T : Type}

/-- A `Merge` answer that is not late. -/
def Answer.InTime (answer : Answer T) : Prop := answer.mode = .merge ∧ answer.late = false

instance (answer : Answer T) : Decidable answer.InTime := inferInstanceAs (Decidable (_ ∧ _))

/-- `QueryState::update`, with the answer itself in the place of its value. -/
def keep (info : QueryResponseInfo (Answer T)) (answer : Answer T) : QueryResponseInfo (Answer T) :=
  if answer.mode = .merge ∧ answer.late = true then info
  else info.update answer answer.epoch answer.mode

/-- The answer to the newest `Replace` fan-out among the answers, between those that
came before and after it. -/
def newestReplace : List (Answer T) → Option (List (Answer T) × Answer T × List (Answer T))
  | [] => none
  | answer :: rest =>
      match newestReplace rest with
      | some (before, newest, after) =>
          if answer.mode = .replace ∧ newest.epoch ≤ answer.epoch then some ([], answer, rest)
          else some (answer :: before, newest, after)
      | none => if answer.mode = .replace then some ([], answer, rest) else none

/-- The answer to the newest `Replace` fan-out, and the answers to the `Merge`
fan-outs after the epoch of the newest `Replace`. -/
def expected (epoch : Nat) (answers : List (Answer T)) : List (Answer T) :=
  ((newestReplace answers).map fun parts => parts.2.1).toList ++
    answers.filter fun answer => answer.mode = .merge ∧ epoch < answer.epoch

/-- No `Merge` answer overtakes the answer to an older `Replace`, and none that comes
after it, or without it, was asked for before the newest `Replace`. -/
def Undisturbed (epoch : Nat) (answers : List (Answer T)) : Prop :=
  match newestReplace answers with
  | none => ∀ answer ∈ answers, answer.InTime → epoch < answer.epoch
  | some (before, newest, after) =>
      (∀ answer ∈ before, answer.InTime → answer.epoch < newest.epoch) ∧
        ∀ answer ∈ after, answer.InTime → epoch < answer.epoch

instance (epoch : Nat) (answers : List (Answer T)) : Decidable (Undisturbed epoch answers) :=
  match hParts : newestReplace answers with
  | none =>
      decidable_of_iff (∀ answer ∈ answers, answer.InTime → epoch < answer.epoch)
        (by rw [Undisturbed, hParts])
  | some (before, newest, after) =>
      decidable_of_iff ((∀ answer ∈ before, answer.InTime → answer.epoch < newest.epoch) ∧
          ∀ answer ∈ after, answer.InTime → epoch < answer.epoch)
        (by rw [Undisturbed, hParts])

/-! ### The answers of one server -/

section Server

variable {answers : List (Answer T)} {info : QueryResponseInfo (Answer T)} {epoch : Nat}

/-- The last replacing answer of the highest epoch, and what came before and after it. -/
theorem newestReplace_spec (answers : List (Answer T)) :
    match newestReplace answers with
    | none => ∀ answer ∈ answers, answer.mode = .merge
    | some (before, newest, after) => answers = before ++ newest :: after ∧ newest.mode = .replace ∧
        (∀ answer ∈ before, answer.mode = .replace → answer.epoch < newest.epoch) ∧
        ∀ answer ∈ after, answer.mode = .replace → answer.epoch ≤ newest.epoch := by
  induction answers with
  | nil => exact fun _ hMem => absurd hMem List.not_mem_nil
  | cons answer rest ih =>
      unfold newestReplace
      cases hRest : newestReplace rest with
      | none =>
          rw [hRest] at ih
          dsimp only at ih ⊢
          by_cases hMode : answer.mode = .replace
          · rw [if_pos hMode]
            refine ⟨rfl, hMode, fun _ hMem => absurd hMem List.not_mem_nil, ?_⟩
            intro other hMem hOther
            rw [ih other hMem] at hOther
            cases hOther
          · rw [if_neg hMode]
            intro other hMem
            rcases List.mem_cons.mp hMem with rfl | hTail
            · cases hIs : other.mode with
              | replace => exact absurd hIs hMode
              | merge => rfl
            · exact ih other hTail
      | some parts =>
          obtain ⟨before, newest, after⟩ := parts
          rw [hRest] at ih
          dsimp only at ih ⊢
          obtain ⟨hParts, hNewest, hBefore, hAfter⟩ := ih
          by_cases hFirst : answer.mode = .replace ∧ newest.epoch ≤ answer.epoch
          · rw [if_pos hFirst]
            refine ⟨rfl, hFirst.1, fun _ hMem => absurd hMem List.not_mem_nil, ?_⟩
            intro other hMem hOther
            have hLe : other.epoch ≤ newest.epoch := by
              rw [hParts, List.mem_append, List.mem_cons] at hMem
              rcases hMem with hIn | rfl | hIn
              · exact (hBefore other hIn hOther).le
              · exact le_rfl
              · exact hAfter other hIn hOther
            exact hLe.trans hFirst.2
          · rw [if_neg hFirst]
            refine ⟨by rw [hParts, List.cons_append], hNewest, ?_, hAfter⟩
            intro other hMem hOther
            rcases List.mem_cons.mp hMem with rfl | hIn
            · exact Nat.lt_of_not_le fun hLe => hFirst ⟨hOther, hLe⟩
            · exact hBefore other hIn hOther

/-- The epoch of a server never goes back. -/
theorem keep_epoch_le (answer : Answer T) : info.epoch ≤ (keep info answer).epoch := by
  unfold keep QueryResponseInfo.update
  split
  · exact le_rfl
  · cases answer.mode with
    | replace =>
        dsimp only
        split
        · exact le_rfl
        · next hOlder => exact (Nat.lt_of_not_le hOlder).le
    | merge => exact Nat.le_max_left _ _

theorem foldl_keep_epoch_le : info.epoch ≤ (answers.foldl keep info).epoch := by
  induction answers generalizing info with
  | nil => exact le_rfl
  | cons answer rest ih => exact (keep_epoch_le answer).trans ih

/-- A `Merge` answer that is in time leaves its epoch. -/
theorem le_foldl_keep_epoch {answer : Answer T} (hMem : answer ∈ answers) (hInTime : answer.InTime) :
    answer.epoch ≤ (answers.foldl keep info).epoch := by
  induction answers generalizing info with
  | nil => exact absurd hMem List.not_mem_nil
  | cons first rest ih =>
      rcases List.mem_cons.mp hMem with rfl | hTail
      · have hKept : answer.epoch ≤ (keep info answer).epoch := by
          rw [keep, if_neg (by simp [hInTime.2]), hInTime.1]
          exact Nat.le_max_right _ _
        exact hKept.trans foldl_keep_epoch_le
      · exact ih hTail

/-- The epoch stays below one that is above those of all answers but the late ones. -/
theorem foldl_keep_epoch_lt (hInfo : info.epoch < epoch)
    (hInTime : ∀ answer ∈ answers, answer.InTime → answer.epoch < epoch)
    (hReplace : ∀ answer ∈ answers, answer.mode = .replace → answer.epoch < epoch) :
    (answers.foldl keep info).epoch < epoch := by
  induction answers generalizing info with
  | nil => exact hInfo
  | cons answer rest ih =>
      apply ih ?_ (fun a hMem => hInTime a (List.mem_cons_of_mem _ hMem))
        (fun a hMem => hReplace a (List.mem_cons_of_mem _ hMem))
      have hOwnMerge := hInTime answer List.mem_cons_self
      have hOwnReplace := hReplace answer List.mem_cons_self
      unfold keep
      split
      · exact hInfo
      · next hNotLate =>
          cases hMode : answer.mode with
          | replace =>
              unfold QueryResponseInfo.update
              dsimp only
              split
              · exact hInfo
              · exact hOwnReplace hMode
          | merge =>
              have hOnTime : answer.late = false := by simpa [hMode] using hNotLate
              exact Nat.max_lt.mpr ⟨hInfo, hOwnMerge ⟨hMode, hOnTime⟩⟩

/-- Once the epoch has reached those of all `Replace` answers, the `Merge` answers
that are in time are appended. -/
theorem foldl_keep_pages
    (hReplace : ∀ answer ∈ answers, answer.mode = .replace → answer.epoch ≤ info.epoch) :
    (answers.foldl keep info).pages = info.pages ++ answers.filter fun answer => answer.InTime := by
  induction answers generalizing info with
  | nil => simp
  | cons answer rest ih =>
      have hRest : (rest.foldl keep (keep info answer)).pages =
          (keep info answer).pages ++ rest.filter fun answer => answer.InTime :=
        ih fun a hMem hMode =>
          (hReplace a (List.mem_cons_of_mem _ hMem) hMode).trans (keep_epoch_le answer)
      rw [List.foldl_cons, hRest]
      cases hMode : answer.mode with
      | replace =>
          have hDropped : keep info answer = info := by
            have hLe := hReplace answer List.mem_cons_self hMode
            simp [keep, hMode, QueryResponseInfo.update, hLe]
          rw [hDropped, List.filter_cons_of_neg (by simp [Answer.InTime, hMode])]
      | merge =>
          cases hLate : answer.late with
          | true =>
              rw [List.filter_cons_of_neg (by simp [Answer.InTime, hLate])]
              simp [keep, hMode, hLate]
          | false =>
              rw [List.filter_cons_of_pos (by simp [Answer.InTime, hMode, hLate])]
              simp [keep, hMode, hLate, QueryResponseInfo.update]

/-- Nothing but answers is kept. -/
theorem mem_of_mem_foldl_keep {answer : Answer T} (h : answer ∈ (answers.foldl keep info).pages) :
    answer ∈ info.pages ∨ answer ∈ answers := by
  induction answers generalizing info with
  | nil => exact Or.inl h
  | cons first rest ih =>
      rcases ih h with hKept | hTail
      · have hFirst : answer ∈ info.pages ∨ answer = first := by
          unfold keep at hKept
          split at hKept
          · exact Or.inl hKept
          · unfold QueryResponseInfo.update at hKept
            split at hKept
            · split at hKept
              · exact Or.inl hKept
              · exact Or.inr (List.mem_singleton.mp hKept)
            · rcases List.mem_append.mp hKept with hOld | hNew
              · exact Or.inl hOld
              · exact Or.inr (List.mem_singleton.mp hNew)
        rcases hFirst with hOld | rfl
        · exact Or.inl hOld
        · exact Or.inr List.mem_cons_self
      · exact Or.inr (List.mem_cons_of_mem _ hTail)

/-- The answers in time are the merging ones of later epochs just when all of them are of later
epochs. -/
theorem filter_inTime_perm_iff (hLate : ∀ answer ∈ answers, answer.late = true → answer.epoch < epoch) :
    (answers.filter fun answer => answer.InTime).Perm
        (answers.filter fun answer => answer.mode = .merge ∧ epoch < answer.epoch) ↔
      ∀ answer ∈ answers, answer.InTime → epoch < answer.epoch := by
  constructor
  · intro hPerm answer hMem hInTime
    have hIn := hPerm.subset (List.mem_filter.mpr ⟨hMem, decide_eq_true hInTime⟩)
    exact (of_decide_eq_true (List.mem_filter.mp hIn).2).2
  · intro hNewer
    have hSame : (answers.filter fun answer => answer.InTime) =
        answers.filter fun answer => answer.mode = .merge ∧ epoch < answer.epoch := by
      apply List.filter_congr
      intro answer hMem
      rw [decide_eq_decide]
      constructor
      · exact fun hInTime => ⟨hInTime.1, hNewer answer hMem hInTime⟩
      · rintro ⟨hMode, hLt⟩
        refine ⟨hMode, ?_⟩
        cases hIs : answer.late with
        | false => rfl
        | true => exact absurd (hLate answer hMem hIs) (Nat.lt_asymm hLt)
    rw [hSame]

/-- A server that answers out of turn holds something else than it should, and no
other does. -/
theorem kept_perm_expected_iff (hPos : ∀ answer ∈ answers, 0 < answer.epoch)
    (hLate : ∀ answer ∈ answers, answer.late = true → answer.epoch < epoch)
    (hReplace : ∀ answer ∈ answers, answer.mode = .replace → answer.epoch ≤ epoch) :
    (answers.foldl keep .empty).pages.Perm (expected epoch answers) ↔ Undisturbed epoch answers := by
  have hSpec := newestReplace_spec answers
  unfold expected Undisturbed
  cases hNewest : newestReplace answers with
  | none =>
      rw [hNewest] at hSpec
      dsimp only at hSpec ⊢
      have hPages : (answers.foldl keep .empty).pages = answers.filter fun answer => answer.InTime := by
        rw [foldl_keep_pages, QueryResponseInfo.empty, List.nil_append]
        intro answer hMem hMode
        rw [hSpec answer hMem] at hMode
        cases hMode
      rw [hPages, Option.map_none, Option.toList_none, List.nil_append]
      exact filter_inTime_perm_iff hLate
  | some parts =>
      obtain ⟨before, newest, after⟩ := parts
      rw [hNewest] at hSpec
      dsimp only at hSpec ⊢
      obtain ⟨hParts, hMode, hBefore, hAfter⟩ := hSpec
      subst hParts
      have hNewestMem : newest ∈ before ++ newest :: after :=
        List.mem_append_right _ List.mem_cons_self
      have hNewestPos : 0 < newest.epoch := hPos newest hNewestMem
      have hNewestLe : newest.epoch ≤ epoch := hReplace newest hNewestMem hMode
      have hFold : (before ++ newest :: after).foldl keep .empty =
          after.foldl keep (keep (before.foldl keep .empty) newest) := by
        rw [List.foldl_append, List.foldl_cons]
      rw [hFold]
      by_cases hInTurn : ∀ answer ∈ before, answer.InTime → answer.epoch < newest.epoch
      · have hTaken : keep (before.foldl keep .empty) newest = ⟨[newest], newest.epoch⟩ := by
          have hLt : (before.foldl keep .empty).epoch < newest.epoch :=
            foldl_keep_epoch_lt hNewestPos hInTurn hBefore
          simp [keep, hMode, QueryResponseInfo.update, hLt]
        have hWanted : ((before ++ newest :: after).filter fun answer =>
              answer.mode = .merge ∧ epoch < answer.epoch) =
            after.filter fun answer => answer.mode = .merge ∧ epoch < answer.epoch := by
          have hNone : (before.filter fun answer => answer.mode = .merge ∧ epoch < answer.epoch) = [] := by
            rw [List.filter_eq_nil_iff]
            intro answer hMem hIs
            obtain ⟨hMerge, hLt⟩ := of_decide_eq_true hIs
            have hOnTime : answer.late = false := by
              cases hIs : answer.late with
              | false => rfl
              | true =>
                  have hOld := hLate answer (List.mem_append_left _ hMem) hIs
                  exact absurd hOld (Nat.lt_asymm hLt)
            have hOlder := hInTurn answer hMem ⟨hMerge, hOnTime⟩
            omega
          rw [List.filter_append, hNone, List.nil_append, List.filter_cons_of_neg (by simp [hMode])]
        rw [hTaken, foldl_keep_pages hAfter, hWanted, Option.map_some, Option.toList_some]
        simp only [List.singleton_append, List.perm_cons]
        rw [filter_inTime_perm_iff fun answer hMem =>
          hLate answer (List.mem_append_right _ (List.mem_cons_of_mem _ hMem))]
        exact (and_iff_right hInTurn).symm
      · refine iff_of_false (fun hPerm => ?_) fun h => hInTurn h.1
        push Not at hInTurn
        obtain ⟨overtaking, hOvertaking, hInTime, hLe⟩ := hInTurn
        have hReached : newest.epoch ≤ (before.foldl keep .empty).epoch :=
          hLe.trans (le_foldl_keep_epoch hOvertaking hInTime)
        have hDropped : keep (before.foldl keep .empty) newest = before.foldl keep .empty := by
          simp [keep, hMode, QueryResponseInfo.update, hReached]
        rw [hDropped, foldl_keep_pages fun answer hMem hIs => (hAfter answer hMem hIs).trans hReached]
          at hPerm
        have hHeld := hPerm.symm.subset (a := newest) (List.mem_append_left _ (by simp))
        rcases List.mem_append.mp hHeld with hOld | hNew
        · rcases mem_of_mem_foldl_keep hOld with hNil | hIn
          · exact absurd hNil List.not_mem_nil
          · exact absurd (hBefore newest hIn hMode) (Nat.lt_irrefl _)
        · have hMerge : newest.mode = .merge := (of_decide_eq_true (List.mem_filter.mp hNew).2).1
          rw [hMode] at hMerge
          cases hMerge

end Server

/-! ### Runs -/

/-- The values of the answers that are kept. -/
def values (info : QueryResponseInfo (Answer T)) : QueryResponseInfo T :=
  ⟨info.pages.map Answer.value, info.epoch⟩

theorem values_keep (info : QueryResponseInfo (Answer T)) (answer : Answer T) :
    values (keep info answer) = if answer.mode = .merge ∧ answer.late = true then values info
      else (values info).update answer.value answer.epoch answer.mode := by
  unfold keep
  split
  · rfl
  · unfold QueryResponseInfo.update values
    cases answer.mode with
    | replace =>
        dsimp only
        split <;> rfl
    | merge => simp

/-- The epoch of a fan-out that replaces. -/
def Fetch.replaceEpoch (fetch : Fetch T) : Option Nat :=
  if fetch.context.updateMode = .replace then fetch.epoch else none

namespace System

variable (s : System T)

def answersOf (server : String) : List (Answer T) := s.answers.filter fun answer => answer.server = server

/-- The answers whose values are the pages of the server. -/
def held (server : String) : List (Answer T) := ((s.answersOf server).foldl keep .empty).pages

/-- The epoch of the newest `Replace` fan-out, 0 if there was none. -/
def newestReplaceEpoch : Nat := (s.fetches.filterMap Fetch.replaceEpoch).max?.getD 0

/-- What the answers and the fan-outs say about the state. -/
structure Recorded : Prop where
  info : ∀ server, s.state.infoOf server = values ((s.answersOf server).foldl keep .empty)
  pos : ∀ answer ∈ s.answers, 0 < answer.epoch
  late : ∀ answer ∈ s.answers, answer.late = true → answer.epoch < s.state.latestReplaceEpoch
  replaces : ∀ answer ∈ s.answers, answer.mode = .replace → answer.epoch ≤ s.state.latestReplaceEpoch
  started : ∀ fetch ∈ s.fetches, ∀ epoch, fetch.epoch = some epoch → 0 < epoch
  replaced : ∀ fetch ∈ s.fetches, ∀ epoch, fetch.replaceEpoch = some epoch →
    epoch ≤ s.state.latestReplaceEpoch
  newest : s.state.latestReplaceEpoch = 0 ∨
    ∃ fetch ∈ s.fetches, fetch.replaceEpoch = some s.state.latestReplaceEpoch
  le : s.state.latestReplaceEpoch ≤ s.state.epoch

variable {s}

/-- The state knows the epoch of the newest replacing answer. -/
theorem Recorded.newestReplaceEpoch_eq (h : Recorded s) :
    s.newestReplaceEpoch = s.state.latestReplaceEpoch := by
  unfold newestReplaceEpoch
  cases hMax : (s.fetches.filterMap Fetch.replaceEpoch).max? with
  | none =>
      rw [List.max?_eq_none_iff, List.filterMap_eq_nil_iff] at hMax
      rcases h.newest with hZero | ⟨fetch, hFetch, hEpoch⟩
      · exact hZero.symm
      · rw [hMax fetch hFetch] at hEpoch
        cases hEpoch
  | some epoch =>
      obtain ⟨hMem, hGe⟩ := List.max?_eq_some_iff.mp hMax
      obtain ⟨fetch, hFetch, hEpoch⟩ := List.mem_filterMap.mp hMem
      have hLe := h.replaced fetch hFetch epoch hEpoch
      rcases h.newest with hZero | ⟨newest, hNewest, hIs⟩
      · exact (Nat.le_zero.mp (hZero ▸ hLe)).trans hZero.symm
      · exact Nat.le_antisymm hLe (hGe _ (List.mem_filterMap.mpr ⟨newest, hNewest, hIs⟩))

/-- A step that leaves the answers, and the epochs of the fetches, as they are. -/
theorem Recorded.of_same {s' : System T} (h : Recorded s)
    (hAnswers : s'.answers = s.answers)
    (hInfo : ∀ server, s'.state.infoOf server = s.state.infoOf server)
    (hLatest : s'.state.latestReplaceEpoch = s.state.latestReplaceEpoch)
    (hEpoch : s'.state.epoch = s.state.epoch)
    (hOld : ∀ fetch ∈ s'.fetches, fetch.epoch = none ∨ ∃ old ∈ s.fetches,
      fetch.epoch = old.epoch ∧ fetch.replaceEpoch = old.replaceEpoch)
    (hStill : ∀ old ∈ s.fetches, ∃ fetch ∈ s'.fetches, fetch.replaceEpoch = old.replaceEpoch) :
    Recorded s' where
  info server := by
    rw [hInfo, h.info]
    unfold answersOf
    rw [hAnswers]
  pos := hAnswers ▸ h.pos
  late := by
    rw [hAnswers, hLatest]
    exact h.late
  replaces := by
    rw [hAnswers, hLatest]
    exact h.replaces
  started fetch hFetch epoch hIs := by
    rcases hOld fetch hFetch with hNone | ⟨old, hOldMem, hSame, -⟩
    · rw [hNone] at hIs
      cases hIs
    · exact h.started old hOldMem epoch (hSame ▸ hIs)
  replaced fetch hFetch epoch hIs := by
    rw [hLatest]
    rcases hOld fetch hFetch with hNone | ⟨old, hOldMem, -, hSame⟩
    · rw [Fetch.replaceEpoch, hNone] at hIs
      simp at hIs
    · exact h.replaced old hOldMem epoch (hSame ▸ hIs)
  newest := by
    rw [hLatest]
    refine h.newest.imp_right ?_
    rintro ⟨old, hOldMem, hIs⟩
    obtain ⟨fetch, hFetch, hSame⟩ := hStill old hOldMem
    exact ⟨fetch, hFetch, hSame.trans hIs⟩
  le := by
    rw [hLatest, hEpoch]
    exact h.le

/-- A fetch that keeps its epoch and its update mode is replaced. -/
theorem Recorded.set (h : Recorded s) {id : Nat} {old fetch : Fetch T}
    (hGet : s.fetches[id]? = some old)
    (hSame : fetch.epoch = old.epoch ∧ fetch.context = old.context) :
    Recorded { s with fetches := s.fetches.set id fetch } := by
  have hReplace : fetch.replaceEpoch = old.replaceEpoch := by
    rw [Fetch.replaceEpoch, Fetch.replaceEpoch, hSame.1, hSame.2]
  refine h.of_same rfl (fun _ => rfl) rfl rfl ?_ ?_
  · intro other hOther
    rcases List.mem_or_eq_of_mem_set hOther with hIn | rfl
    · exact Or.inr ⟨other, hIn, rfl, rfl⟩
    · exact Or.inr ⟨old, List.mem_of_getElem? hGet, hSame.1, hReplace⟩
  · intro other hOther
    rcases mem_set_or_eq (b := fetch) hGet hOther with rfl | hIn
    · exact ⟨fetch, mem_set_self hGet, hReplace⟩
    · exact ⟨other, hIn, rfl⟩

/-- What was emitted last is not looked at. -/
theorem Recorded.emitted (h : Recorded s) (mergeFn : MergeFn T) :
    Recorded { s with state := (s.state.computeEmission mergeFn).2 } := by
  rw [QueryState.computeEmission_frame]
  exact h.of_same rfl (fun _ => rfl) rfl rfl (fun fetch hFetch => Or.inr ⟨fetch, hFetch, rfl, rfl⟩)
    fun old hOld => ⟨old, hOld, rfl⟩

theorem Recorded.subscribe (h : Recorded s) (context : FanoutContext T) (mode : FetchMode) :
    Recorded { s with
      state := (Fetch.subscribe s.state context mode).1
      fetches := s.fetches ++ [(Fetch.subscribe s.state context mode).2] } := by
  rw [Fetch.subscribe_state]
  refine (h.emitted context.mergeFn).of_same rfl (fun _ => rfl) rfl rfl ?_ ?_
  · intro fetch hFetch
    rcases List.mem_append.mp hFetch with hIn | hNew
    · exact Or.inr ⟨fetch, hIn, rfl, rfl⟩
    · obtain rfl := List.mem_singleton.mp hNew
      exact Or.inl (Fetch.subscribe_epoch s.state context mode)
  · exact fun old hOld => ⟨old, List.mem_append_left _ hOld, rfl⟩

/-- A fan-out that starts adds no answer. -/
theorem Recorded.spawn (h : Recorded s) {id : Nat} {fetch : Fetch T}
    (hGet : s.fetches[id]? = some fetch) (hNone : fetch.epoch = none) (runtime : Bool) :
    Recorded { s with
      state := (fetch.spawn s.state runtime).1
      fetches := s.fetches.set id (fetch.spawn s.state runtime).2 } := by
  have hState := Fetch.spawn_state s.state fetch runtime
  have hEpoch := Fetch.spawn_epoch s.state fetch runtime
  have hContext := Fetch.spawn_context s.state fetch runtime
  generalize Fetch.spawn s.state fetch runtime = spawned at hState hEpoch hContext ⊢
  obtain ⟨state, fetch'⟩ := spawned
  dsimp only at hState hEpoch hContext ⊢
  have hLatest : s.state.latestReplaceEpoch ≤ state.latestReplaceEpoch := by
    rw [hState]
    cases hMode : fetch.context.updateMode with
    | replace => exact h.le.trans (Nat.le_succ _)
    | merge => exact le_rfl
  have hReplace : fetch'.replaceEpoch =
      if fetch.context.updateMode = .replace then some (s.state.epoch + 1) else none := by
    rw [Fetch.replaceEpoch, hContext, hEpoch]
  exact
    { info := fun server => by
        rw [hState]
        exact h.info server
      pos := h.pos
      late := fun answer hMem hIs => (h.late answer hMem hIs).trans_le hLatest
      replaces := fun answer hMem hIs => (h.replaces answer hMem hIs).trans hLatest
      started := by
        intro other hOther epoch hIs
        rcases List.mem_or_eq_of_mem_set hOther with hIn | rfl
        · exact h.started other hIn epoch hIs
        · rw [hEpoch, Option.some.injEq] at hIs
          omega
      replaced := by
        intro other hOther epoch hIs
        rcases List.mem_or_eq_of_mem_set hOther with hIn | rfl
        · exact (h.replaced other hIn epoch hIs).trans hLatest
        · rw [hReplace] at hIs
          split at hIs
          · next hMode =>
              rw [Option.some.injEq] at hIs
              rw [hState, ← hIs, hMode]
              exact le_rfl
          · cases hIs
      newest := by
        rw [hState]
        cases hMode : fetch.context.updateMode with
        | replace =>
            refine Or.inr ⟨fetch', mem_set_self hGet, ?_⟩
            rw [hReplace, if_pos hMode]
            rfl
        | merge =>
            refine h.newest.imp_right ?_
            rintro ⟨old, hOld, hIs⟩
            rcases mem_set_or_eq (b := fetch') hGet hOld with rfl | hIn
            · rw [Fetch.replaceEpoch, hNone] at hIs
              simp at hIs
            · exact ⟨old, hIn, hIs⟩
      le := by
        rw [hState]
        cases hMode : fetch.context.updateMode with
        | replace => exact le_rfl
        | merge => exact h.le.trans (Nat.le_succ _) }

/-- The state keeps an answer as `keep` says. -/
theorem Recorded.answer (h : Recorded s) {fetch : Fetch T} (hFetch : fetch ∈ s.fetches)
    {epoch : Nat} (hEpoch : fetch.epoch = some epoch) (server : String) (value : T) :
    Recorded { s with
      state := s.state.update server value epoch fetch.context.updateMode
      answers := s.answers ++ [⟨server, epoch, fetch.context.updateMode,
        decide (s.state.latestReplaceEpoch > epoch), value⟩] } := by
  obtain ⟨hStarted, hLatest⟩ := s.state.update_epochs server value epoch fetch.context.updateMode
  exact
    { info := by
        intro server'
        rw [QueryState.infoOf_update]
        unfold answersOf
        rw [List.filter_append]
        by_cases hServer : server' = server
        · subst hServer
          rw [List.filter_cons_of_pos (by simp), List.filter_nil, List.foldl_append, List.foldl_cons,
            List.foldl_nil, values_keep, ← answersOf, ← h.info]
          by_cases hDropped : fetch.context.updateMode = .merge ∧ s.state.latestReplaceEpoch > epoch
          · simp [hDropped]
          · simp only [hDropped, decide_eq_true_eq, if_false, not_false_eq_true, and_self, if_true]
        · rw [List.filter_cons_of_neg (by simpa using Ne.symm hServer), List.filter_nil,
            List.append_nil, if_neg fun hBoth => hServer hBoth.1]
          exact h.info server'
      pos := by
        intro answer hMem
        rcases List.mem_append.mp hMem with hOld | hNew
        · exact h.pos answer hOld
        · obtain rfl := List.mem_singleton.mp hNew
          exact h.started fetch hFetch epoch hEpoch
      late := by
        intro answer hMem hIs
        rw [hLatest]
        rcases List.mem_append.mp hMem with hOld | hNew
        · exact h.late answer hOld hIs
        · obtain rfl := List.mem_singleton.mp hNew
          exact of_decide_eq_true hIs
      replaces := by
        intro answer hMem hIs
        rw [hLatest]
        rcases List.mem_append.mp hMem with hOld | hNew
        · exact h.replaces answer hOld hIs
        · obtain rfl := List.mem_singleton.mp hNew
          exact h.replaced fetch hFetch epoch (by rw [Fetch.replaceEpoch, if_pos hIs, hEpoch])
      started := h.started
      replaced := hLatest ▸ h.replaced
      newest := hLatest ▸ h.newest
      le := by
        rw [hLatest, hStarted]
        exact h.le }

/-- An answer is recorded as the state takes it. -/
theorem Recorded.record (h : Recorded s) {id : Nat} {fetch : Fetch T}
    (hGet : s.fetches[id]? = some fetch) {epoch : Nat} (hEpoch : fetch.epoch = some epoch)
    (task : Nat) (server : String) (result : Except String T) :
    Recorded (s.afterRecord id task epoch fetch server result) := by
  have hFetch := List.mem_of_getElem? hGet
  have hSame := Fetch.record_fetch s.state { fetch with waiting := fetch.waiting.eraseIdx task }
    epoch server result
  apply afterRecord_induct
  case hEmits => exact fun mergeFn hRecorded => hRecorded.emitted mergeFn
  case hAnswer => exact fun value _ => (h.answer hFetch hEpoch server value).set hGet hSame
  case hFailure => exact fun _ _ => h.set hGet hSame

/-- The record and the state stay in step until the key is invalidated. -/
theorem Recorded.step (h : Recorded s) {action : Action T} (hAction : action ≠ .invalidate) :
    Recorded (s.step action) := by
  have hStepped := stepped s action
  generalize s.step action = s' at hStepped ⊢
  cases hStepped with
  | idle => exact h
  | subscribed context mode => exact h.subscribe context mode
  | spawned id runtime fetch hGet hNone hServers => exact h.spawn hGet hNone runtime
  | recorded id task epoch fetch server result hGet hEpoch hServer =>
      exact h.record hGet hEpoch task server result
  | published id task fetch hGet => exact h.set hGet (fetch.publish_fetch task)
  | unsubscribed id fetch hGet => exact h.set hGet ⟨rfl, rfl⟩
  | invalidated => exact absurd rfl hAction

theorem recorded_new : Recorded (new : System T) where
  info _ := rfl
  pos _ hMem := absurd hMem List.not_mem_nil
  late _ hMem := absurd hMem List.not_mem_nil
  replaces _ hMem := absurd hMem List.not_mem_nil
  started _ hMem := absurd hMem List.not_mem_nil
  replaced _ hMem := absurd hMem List.not_mem_nil
  newest := Or.inl rfl
  le := le_rfl

/-- In a run without an invalidation, what is held is what was recorded. -/
theorem recorded_run {actions : List (Action T)} (hActions : .invalidate ∉ actions) :
    Recorded (run System.step new actions) := by
  have hAlong : Along System.step (fun _ action => True ∧ action ≠ .invalidate) new actions :=
    (along_true new actions).and_forall fun action hMem hIs => hActions (hIs ▸ hMem)
  exact run_invariant (fun h hCondition => h.step hCondition.2) recorded_new hAlong

/-- After any run without an invalidation, the pages of a server are the answers it
holds, and it holds what it should exactly if none of its answers was out of turn. -/
theorem fanout_answers_kept_iff (actions : List (Action T)) (hActions : .invalidate ∉ actions)
    (server : String) :
    let s := run System.step new actions
    (s.state.infoOf server).pages = (s.held server).map Answer.value ∧
      ((s.held server).Perm (expected s.newestReplaceEpoch (s.answersOf server)) ↔
        Undisturbed s.newestReplaceEpoch (s.answersOf server)) := by
  intro s
  have h : Recorded s := recorded_run hActions
  have hOf : ∀ answer ∈ s.answersOf server, answer ∈ s.answers := fun answer hMem =>
    (List.mem_filter.mp hMem).1
  constructor
  · rw [h.info server]
    rfl
  · rw [h.newestReplaceEpoch_eq]
    exact kept_perm_expected_iff (fun answer hMem => h.pos answer (hOf answer hMem))
      (fun answer hMem => h.late answer (hOf answer hMem))
      fun answer hMem => h.replaces answer (hOf answer hMem)

/-- A `Replace` fan-out and a `Merge` fan-out to one server, whose answers arrive in
the order of the list. -/
def twoFanouts (answers : List (Nat × Nat)) : List (Action Nat) :=
  let context := FanoutContext.mk ["polycentric.io"] .replace .default fun pages _ => pages.sum
  [.subscribe context .default, .spawn 0 true,
    .subscribe { context with updateMode := .merge } .default, .spawn 1 true] ++
    answers.map fun answer => .record answer.1 0 (.ok answer.2)

/-- Answers that arrive in turn are all held. -/
theorem fanout_answers_kept_in_turn :
    let s := run System.step new (twoFanouts [(0, 10), (1, 20)])
    (s.state.infoOf "polycentric.io").pages = [10, 20] ∧
      (s.held "polycentric.io").Perm
        (expected s.newestReplaceEpoch (s.answersOf "polycentric.io")) := by
  have hKept := fanout_answers_kept_iff (twoFanouts [(0, 10), (1, 20)]) (by simp [twoFanouts])
    "polycentric.io"
  exact ⟨hKept.1.trans (by decide +kernel), hKept.2.mpr (by decide +kernel)⟩

/-- The answer to the newest `Replace` is dropped once a `Merge` answer has overtaken
it, although every answer has arrived. -/
theorem replace_answer_overtaken :
    ¬ ∀ actions : List (Action Nat), .invalidate ∉ actions →
      (∀ fetch ∈ (run System.step new actions).fetches, fetch.waiting = []) →
      ∀ server, ((run System.step new actions).state.infoOf server).pages.Perm
        ((expected (run System.step new actions).newestReplaceEpoch
          ((run System.step new actions).answersOf server)).map Answer.value) := by
  intro hKept
  have hPerm := hKept (twoFanouts [(1, 20), (0, 10)]) (by simp [twoFanouts])
    (by decide +kernel) "polycentric.io"
  revert hPerm
  decide +kernel

end System

end Polycentric.Query
