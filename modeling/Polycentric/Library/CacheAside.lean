import Polycentric.Library.Runs

/-! A cache beside a store, shared by concurrent tasks. A reader looks a key up,
fetches the answer from the store on a miss, and inserts it. A writer commits, and
then drops the keys that it touched, one after the other. Between any two of these
steps the other tasks may run. -/
namespace CacheAside

open Runs Slots

/-- The operations of a store and of its cache, and what a write does to them. -/
structure System (Store Cache Key : Type) (Value : Key → Type) (Write : Type) where
  answer : Store → (key : Key) → Option (Value key)
  get : Cache → (key : Key) → Option (Value key)
  insert : Cache → (key : Key) → Value key → Cache
  remove : Cache → Key → Cache
  commit : Store → Write → Option Store
  drops : Write → List Key
  get_insert_self : ∀ cache key value, get (insert cache key value) key = some value
  get_insert_other : ∀ cache key value key', key' ≠ key →
    get (insert cache key value) key' = get cache key'
  get_remove_self : ∀ cache key, get (remove cache key) key = none
  get_remove_other : ∀ cache key key', key' ≠ key → get (remove cache key) key' = get cache key'

variable {Store Cache Key : Type} {Value : Key → Type} {Write : Type}

/-- What a task does next. -/
inductive Task (Key : Type) (Value : Key → Type) (Write : Type) where
  | lookup (key : Key)
  | fetch (key : Key)
  | insert (key : Key) (value : Value key)
  | commit (write : Write)
  | invalidate (keys : List Key)
  | finished

instance (task : Task Key Value Write) : Decidable (task = .finished) :=
  match task with
  | .finished => isTrue rfl
  | .lookup _ => isFalse nofun
  | .fetch _ => isFalse nofun
  | .insert _ _ => isFalse nofun
  | .commit _ => isFalse nofun
  | .invalidate _ => isFalse nofun

/-- The task has fetched an answer and is about to insert it. -/
def Task.inserts : Task Key Value Write → Bool
  | .insert _ _ => true
  | _ => false

structure State (Store Cache Key : Type) (Value : Key → Type) (Write : Type) where
  store : Store
  cache : Cache
  tasks : List (Task Key Value Write)

variable (system : System Store Cache Key Value Write)

/-- The next step of the task with the number. -/
def System.step (s : State Store Cache Key Value Write) (i : Nat) : State Store Cache Key Value Write :=
  match s.tasks[i]? with
  | some (.lookup key) =>
      { s with tasks := s.tasks.set i (if (system.get s.cache key).isSome then .finished else .fetch key) }
  | some (.fetch key) =>
      match system.answer s.store key with
      | some value => { s with tasks := s.tasks.set i (.insert key value) }
      | none => { s with tasks := s.tasks.set i .finished }
  | some (.insert key value) =>
      { s with cache := system.insert s.cache key value, tasks := s.tasks.set i .finished }
  | some (.commit write) =>
      match system.commit s.store write with
      | some store =>
          { s with store := store, tasks := s.tasks.set i (.invalidate (system.drops write)) }
      | none => { s with tasks := s.tasks.set i .finished }
  | some (.invalidate (key :: rest)) =>
      { s with cache := system.remove s.cache key, tasks := s.tasks.set i (.invalidate rest) }
  | some (.invalidate []) => { s with tasks := s.tasks.set i .finished }
  | some .finished => s
  | none => s

/-- A step leaves the other tasks alone, and its own task has no commit before it
any more. -/
theorem commit_of_step {s : State Store Cache Key Value Write} {i j : Nat} {write : Write}
    (h : (system.step s i).tasks[j]? = some (.commit write)) :
    j ≠ i ∧ s.tasks[j]? = some (.commit write) := by
  have hSet : ∀ task : Task Key Value Write, (s.tasks.set i task)[j]? = some (.commit write) →
      (∀ write, task ≠ .commit write) → j ≠ i ∧ s.tasks[j]? = some (.commit write) := by
    intro task hAt hTask
    rcases getElem?_set_cases hAt with ⟨-, hEq⟩ | hOther
    · exact absurd hEq.symm (hTask write)
    · exact hOther
  unfold System.step at h
  cases hTask : s.tasks[i]? with
  | none =>
      simp only [hTask] at h
      refine ⟨?_, h⟩
      rintro rfl
      rw [hTask] at h
      cases h
  | some task =>
      cases task with
      | lookup key =>
          simp only [hTask] at h
          refine hSet _ h ?_
          split_ifs <;> nofun
      | fetch key =>
          simp only [hTask] at h
          split at h
          · exact hSet _ h nofun
          · exact hSet _ h nofun
      | insert key value =>
          simp only [hTask] at h
          exact hSet _ h nofun
      | commit own =>
          simp only [hTask] at h
          split at h
          · exact hSet _ h nofun
          · exact hSet _ h nofun
      | invalidate keys =>
          cases keys with
          | nil =>
              simp only [hTask] at h
              exact hSet _ h nofun
          | cons key rest =>
              simp only [hTask] at h
              exact hSet _ h nofun
      | finished =>
          simp only [hTask] at h
          refine ⟨?_, h⟩
          rintro rfl
          rw [hTask] at h
          cases h

/-- Only a commit changes the store. -/
theorem step_store {s : State Store Cache Key Value Write} {i : Nat}
    (h : ∀ write, s.tasks[i]? ≠ some (.commit write)) : (system.step s i).store = s.store := by
  unfold System.step
  split
  · rfl
  · split <;> rfl
  · rfl
  · next write hTask => exact absurd hTask (h write)
  all_goals rfl

/-- The cache after a reader that is not interrupted. -/
def System.read (store : Store) (cache : Cache) (key : Key) : Cache :=
  match system.get cache key with
  | some _ => cache
  | none =>
      match system.answer store key with
      | some value => system.insert cache key value
      | none => cache

theorem run_lookup (store : Store) (cache : Cache) (key : Key) :
    (run system.step ⟨store, cache, [.lookup key]⟩ [0, 0, 0]).cache = system.read store cache key := by
  unfold System.read
  cases hCached : system.get cache key with
  | some value =>
      have hLookup : system.step ⟨store, cache, [.lookup key]⟩ 0 = ⟨store, cache, [.finished]⟩ := by
        simp [System.step, hCached]
      simp only [run, List.foldl_cons, List.foldl_nil, hLookup]
      rfl
  | none =>
      have hLookup : system.step ⟨store, cache, [.lookup key]⟩ 0 = ⟨store, cache, [.fetch key]⟩ := by
        simp [System.step, hCached]
      simp only [run, List.foldl_cons, List.foldl_nil, hLookup]
      cases hAnswer : system.answer store key with
      | none =>
          have hFetch : system.step ⟨store, cache, [.fetch key]⟩ 0 = ⟨store, cache, [.finished]⟩ := by
            simp [System.step, hAnswer]
          rw [hFetch]
          rfl
      | some value =>
          have hFetch : system.step ⟨store, cache, [.fetch key]⟩ 0 =
              ⟨store, cache, [.insert key value]⟩ := by
            simp [System.step, hAnswer]
          rw [hFetch]
          rfl

/-- A writer has committed and is about to drop the key. -/
def Dropping (tasks : List (Task Key Value Write)) (key : Key) : Prop :=
  ∃ keys, Task.invalidate keys ∈ tasks ∧ key ∈ keys

/-- Every cached answer is that of the store, or it is about to be dropped. -/
def Guarded (s : State Store Cache Key Value Write) : Prop :=
  ∀ key value, system.get s.cache key = some value →
    system.answer s.store key = some value ∨ Dropping s.tasks key

/-- If the step inserts an answer, then the answer is still that of the store, or
it is about to be dropped. -/
def InsertsCurrent (s : State Store Cache Key Value Write) (i : Nat) : Prop :=
  ∀ key value, s.tasks[i]? = some (.insert key value) →
    system.answer s.store key = some value ∨ Dropping s.tasks key

/-- If the step commits, then every cached answer that it changes is one that the
writer drops. -/
def CommitsDropped (s : State Store Cache Key Value Write) (i : Nat) : Prop :=
  ∀ write store, s.tasks[i]? = some (.commit write) → system.commit s.store write = some store →
    ∀ key value, system.get s.cache key = some value → key ∉ system.drops write →
      system.answer store key = system.answer s.store key

section Dropping

variable {tasks : List (Task Key Value Write)} {i : Nat} {old new : Task Key Value Write} {key : Key}

/-- A task that is not about to drop the key leaves those that are. -/
theorem Dropping.set (h : Dropping tasks key) (hOld : tasks[i]? = some old)
    (hNot : ∀ keys, old = .invalidate keys → key ∉ keys) : Dropping (tasks.set i new) key := by
  obtain ⟨keys, hTask, hKey⟩ := h
  obtain ⟨j, hAt⟩ := List.mem_iff_getElem?.mp hTask
  have hOther : i ≠ j := by
    rintro rfl
    rw [hOld, Option.some.injEq] at hAt
    exact hNot keys hAt hKey
  refine ⟨keys, List.mem_iff_getElem?.mpr ⟨j, ?_⟩, hKey⟩
  rw [List.getElem?_set_ne hOther, hAt]

theorem Dropping.of_set (h : Dropping (tasks.set i new) key)
    (hNot : ∀ keys, new = .invalidate keys → key ∉ keys) : Dropping tasks key := by
  obtain ⟨keys, hTask, hKey⟩ := h
  rcases List.mem_or_eq_of_mem_set hTask with hOld | hNew
  · exact ⟨keys, hOld, hKey⟩
  · exact absurd hKey (hNot keys hNew.symm)

end Dropping

section Steps

variable {system} {s : State Store Cache Key Value Write} {i : Nat}

/-- A step that moves only its own task on, where neither phase drops anything. -/
theorem Guarded.move (h : Guarded system s) {old new : Task Key Value Write}
    (hOld : s.tasks[i]? = some old) (hNot : ∀ keys, old ≠ .invalidate keys) :
    Guarded system { s with tasks := s.tasks.set i new } := by
  intro key value hCached
  refine (h key value hCached).imp_right fun hDropping => ?_
  exact hDropping.set hOld fun keys hEq => absurd hEq (hNot keys)

/-- An insertion keeps the guard exactly if the answer is current. -/
theorem guarded_insert_iff (h : Guarded system s) {key : Key} {value : Value key}
    (hTask : s.tasks[i]? = some (.insert key value)) :
    Guarded system { s with
      cache := system.insert s.cache key value, tasks := s.tasks.set i .finished } ↔
      (system.answer s.store key = some value ∨ Dropping s.tasks key) := by
  constructor
  · intro hAfter
    refine (hAfter key value (system.get_insert_self _ _ _)).imp_right fun hDropping => ?_
    exact hDropping.of_set nofun
  · intro hCurrent key' value' hCached
    have hBefore : system.answer s.store key' = some value' ∨ Dropping s.tasks key' := by
      by_cases hKey : key' = key
      · subst hKey
        rw [system.get_insert_self, Option.some.injEq] at hCached
        rwa [← hCached]
      · rw [system.get_insert_other _ _ _ _ hKey] at hCached
        exact h key' value' hCached
    exact hBefore.imp_right fun hDropping => hDropping.set hTask nofun

theorem Guarded.commit (h : Guarded system s) {write : Write} {store : Store}
    (hTask : s.tasks[i]? = some (.commit write))
    (hSame : ∀ key value, system.get s.cache key = some value → key ∉ system.drops write →
      system.answer store key = system.answer s.store key) :
    Guarded system { s with
      store := store, tasks := s.tasks.set i (.invalidate (system.drops write)) } := by
  intro key value hCached
  by_cases hKey : key ∈ system.drops write
  · exact Or.inr ⟨system.drops write, mem_set_self hTask, hKey⟩
  · refine (h key value hCached).imp (fun hAnswer => ?_) fun hDropping => hDropping.set hTask nofun
    show system.answer store key = some value
    rw [hSame key value hCached hKey, hAnswer]

theorem Guarded.invalidate (h : Guarded system s) {key : Key} {rest : List Key}
    (hTask : s.tasks[i]? = some (.invalidate (key :: rest))) :
    Guarded system { s with
      cache := system.remove s.cache key, tasks := s.tasks.set i (.invalidate rest) } := by
  intro key' value hCached
  have hOther : key' ≠ key := by
    rintro rfl
    rw [system.get_remove_self] at hCached
    cases hCached
  rw [system.get_remove_other _ _ _ hOther] at hCached
  refine (h key' value hCached).imp_right fun hDropping => ?_
  -- The key is dropped by this task later on, or by another one.
  by_cases hRest : key' ∈ rest
  · exact ⟨rest, mem_set_self hTask, hRest⟩
  · refine hDropping.set hTask ?_
    rintro keys hEq
    obtain rfl := Task.invalidate.inj hEq
    simp [hOther, hRest]

/-- A step keeps the guard exactly if what it inserts is current. -/
theorem guarded_step_iff (h : Guarded system s) (hCommits : CommitsDropped system s i) :
    Guarded system (system.step s i) ↔ InsertsCurrent system s i := by
  unfold System.step InsertsCurrent
  cases hTask : s.tasks[i]? with
  | none => exact iff_of_true h nofun
  | some task =>
      cases task with
      | lookup key => exact iff_of_true (h.move hTask nofun) nofun
      | fetch key =>
          dsimp only
          split <;> exact iff_of_true (h.move hTask nofun) nofun
      | insert key value =>
          rw [guarded_insert_iff h hTask]
          constructor
          · rintro hCurrent _ _ ⟨⟩
            exact hCurrent
          · intro hCurrent
            exact hCurrent key value rfl
      | commit write =>
          dsimp only
          split
          · next store hStore =>
              exact iff_of_true (h.commit hTask (hCommits write store hTask hStore)) nofun
          · exact iff_of_true (h.move hTask nofun) nofun
      | invalidate keys =>
          cases keys with
          | nil =>
              refine iff_of_true ?_ nofun
              intro key value hCached
              refine (h key value hCached).imp_right fun hDropping => hDropping.set hTask ?_
              rintro keys hEq
              obtain rfl := Task.invalidate.inj hEq
              exact List.not_mem_nil
          | cons key rest => exact iff_of_true (h.invalidate hTask) nofun
      | finished => exact iff_of_true h nofun

theorem insertsCurrent_of_not_inserts (h : (s.tasks[i]?.any Task.inserts) = false) :
    InsertsCurrent system s i := by
  intro key value hTask
  rw [hTask] at h
  cases h

/-- What was fetched in the step before is current. -/
theorem insertsCurrent_of_fetch (key : Key) (hTask : s.tasks[i]? = some (.fetch key)) :
    InsertsCurrent system (system.step s i) i := by
  intro key' value hInsert
  left
  have hBound : i < s.tasks.length := (List.getElem?_eq_some_iff.mp hTask).1
  unfold System.step at hInsert ⊢
  simp only [hTask] at hInsert ⊢
  cases hAnswer : system.answer s.store key with
  | none =>
      simp only [hAnswer, List.getElem?_set_self hBound] at hInsert
      cases hInsert
  | some fetched =>
      simp only [hAnswer, List.getElem?_set_self hBound] at hInsert ⊢
      cases hInsert
      exact hAnswer

/-- The guard holds all along a schedule exactly if every insertion is current. -/
theorem guarded_run_iff {schedule : List Nat} (h : Guarded system s)
    (hCommits : Along system.step (CommitsDropped system) s schedule) :
    Along system.step (fun s i => Guarded system (system.step s i)) s schedule ↔
      Along system.step (InsertsCurrent system) s schedule :=
  along_kept_iff (fun _ _ => trivial) (fun (_ : True) hGuarded hStep =>
    guarded_step_iff hGuarded hStep) trivial h hCommits

theorem guarded_run {schedule : List Nat} (h : Guarded system s)
    (hCommits : Along system.step (CommitsDropped system) s schedule)
    (hInserts : Along system.step (InsertsCurrent system) s schedule) :
    Guarded system (run system.step s schedule) :=
  run_invariant (fun hGuarded hStep => (guarded_step_iff hGuarded hStep.1).mpr hStep.2) h
    (hCommits.and hInserts)

/-- When all tasks have finished, nothing is about to be dropped any more. -/
theorem Guarded.answers (h : Guarded system s) (hFinished : ∀ task ∈ s.tasks, task = .finished)
    (key : Key) (value : Value key) (hCached : system.get s.cache key = some value) :
    system.answer s.store key = some value := by
  refine (h key value hCached).resolve_right ?_
  rintro ⟨keys, hTask, -⟩
  cases hFinished _ hTask

end Steps

end CacheAside
