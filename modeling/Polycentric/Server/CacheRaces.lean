import Polycentric.Library.CacheAside
import Polycentric.Server.Provenance
import Polycentric.Server.RevokedSigners

/-! The proof cache under concurrent requests. Looking up, fetching and inserting
are separate steps of a reader, and a writer invalidates after it has committed.
The readers are `canonical`, `cached_identity_content` and `warm_identity_cache`,
which fetches without a lookup; the writers are `put_events`. -/
namespace Polycentric.Server

open Proto Result Memo Runs CacheAside

variable (P : Primitives) (runtime : Runtime)

/-- What the cache is asked for. -/
inductive CacheKey where
  | identity (identity : String)
  | canonical (identity : String) (collection : Int32)
  deriving DecidableEq, Repr

/-- What it answers with. -/
def CacheKey.Value : CacheKey → Type
  | .identity _ => Identity
  | .canonical _ _ => List Bytes

/-- An event that a request stores, with the time and the id that it gets. -/
structure Write where
  now : Int
  id : Nat
  incoming : IncomingEvent

/-- The proof cache beside the database. -/
def proofCaching : System Database ProofCache CacheKey CacheKey.Value Write where
  answer db
    | .identity identity => db.latestValidIdentityContent P identity
    | .canonical identity collection => some (db.canonicalSignatures P identity collection)
  get cache
    | .identity identity => cache.identityContent identity
    | .canonical identity collection => cache.canonicalTable.get (identity, collection)
  insert cache
    | .identity identity, document => cache.warmIdentityContent identity document
    | .canonical identity collection, fetched => { cache with
        canonicalTable := cache.canonicalTable.insert (identity, collection) fetched }
  remove cache
    | .identity identity => cache.invalidateIdentity identity
    | .canonical identity collection => cache.invalidateCanonical identity collection
  commit db write :=
    match addEvent runtime write.now db (write.incoming.row runtime write.now write.id)
        write.incoming.decoded with
    | .ok (true, db') => some db'
    | _ => none
  drops write :=
    .canonical write.incoming.key.identity write.incoming.key.collection ::
      if write.incoming.key.collection = Collections.identity then
        [.identity write.incoming.key.identity]
      else []
  get_insert_self := by
    rintro cache (identity | ⟨identity, collection⟩) value
    · exact Table.get_insert_self identity value
    · exact Table.get_insert_self (identity, collection) value
  get_insert_other := by
    rintro cache (identity | ⟨identity, collection⟩) value (identity' | ⟨identity', collection'⟩) hKey
    · exact Table.get_insert_other (by simpa using hKey) value
    · rfl
    · rfl
    · exact Table.get_insert_other (by simpa using hKey) value
  get_remove_self := by
    rintro cache (identity | ⟨identity, collection⟩)
    · exact (Table.get_remove _ _).trans (if_pos rfl)
    · exact (Table.get_remove _ _).trans (if_pos rfl)
  get_remove_other := by
    rintro cache (identity | ⟨identity, collection⟩) (identity' | ⟨identity', collection'⟩) hKey
    · exact (Table.get_remove _ _).trans (if_neg (by simpa using hKey))
    · rfl
    · rfl
    · exact (Table.get_remove _ _).trans (if_neg (by simpa using hKey))

section Fields

variable {P runtime} {db : Database} {cache : ProofCache} {identity : String} {collection : Int32}

@[simp] theorem proofCaching_answer_identity : (proofCaching P runtime).answer db (.identity identity) =
    db.latestValidIdentityContent P identity := rfl

@[simp] theorem proofCaching_answer_canonical :
    (proofCaching P runtime).answer db (.canonical identity collection) =
      some (db.canonicalSignatures P identity collection) := rfl

@[simp] theorem proofCaching_get_identity : (proofCaching P runtime).get cache (.identity identity) =
    cache.identityContent identity := rfl

@[simp] theorem proofCaching_get_canonical :
    (proofCaching P runtime).get cache (.canonical identity collection) =
      cache.canonicalTable.get (identity, collection) := rfl

end Fields

abbrev CacheTask := Task CacheKey CacheKey.Value Write

abbrev CacheState := State Database ProofCache CacheKey CacheKey.Value Write

/-- The service starts with an empty cache. -/
def startCaching (db : Database) (tasks : List CacheTask) : CacheState := ⟨db, .empty, tasks⟩

/-! ### A task that is not interrupted -/

section Sequential

variable {db : Database} {cache : ProofCache}

/-- The steps of a reader, one after the other, are `canonical`. -/
theorem run_canonical (identity : String) (collection : Int32) :
    (run (proofCaching P runtime).step ⟨db, cache, [.lookup (.canonical identity collection)]⟩
      [0, 0, 0]).cache = (cache.canonical P db identity collection).2 := by
  rw [run_lookup, System.read, ProofCache.canonical, proofCaching_get_canonical,
    proofCaching_answer_canonical]
  cases cache.canonicalTable.get (identity, collection) <;> rfl

/-- They are also `cached_identity_content`. -/
theorem run_cachedIdentityContent (identity : String) :
    (run (proofCaching P runtime).step ⟨db, cache, [.lookup (.identity identity)]⟩
      [0, 0, 0]).cache = (cachedIdentityContent P db cache identity).2 := by
  rw [run_lookup, System.read, cachedIdentityContent, proofCaching_get_identity,
    proofCaching_answer_identity]
  cases cache.identityContent identity with
  | some document => rfl
  | none => cases db.latestValidIdentityContent P identity <;> rfl

/-- What a writer drops is what `put_events` invalidates. -/
theorem foldl_remove_drops (write : Write) :
    ((proofCaching P runtime).drops write).foldl (proofCaching P runtime).remove cache =
      write.incoming.invalidate cache := by
  unfold IncomingEvent.invalidate proofCaching
  simp only [List.foldl_cons]
  split_ifs <;> rfl

end Sequential

/-! ### Interleavings -/

/-- A collection of the key fits its column. -/
def CacheKey.Narrow : CacheKey → Prop
  | .identity _ => True
  | .canonical _ collection => Server.Narrow collection

/-- A reader or a writer before its first step. -/
def StartsNarrow : CacheTask → Prop
  | .lookup key => key.Narrow
  | .fetch key => key.Narrow
  | .commit _ => True
  | _ => False

/-- If the step commits an event, then the event keeps to its stream. -/
def CommitsKept (s : CacheState) (i : Nat) : Prop :=
  ∀ write, s.tasks[i]? = some (.commit write) → KeepsToStream s.store write.incoming

/-- The keys that a task may still insert. -/
def TaskNarrow : CacheTask → Prop
  | .lookup key => key.Narrow
  | .fetch key => key.Narrow
  | .insert key _ => key.Narrow
  | _ => True

/-- Only keys whose collection fits its column are cached, or will be. -/
structure CachesNarrow (s : CacheState) : Prop where
  cached : ∀ key value, (proofCaching P runtime).get s.cache key = some value → key.Narrow
  tasks : ∀ task ∈ s.tasks, TaskNarrow task

section Interleavings

variable {P runtime} {s : CacheState} {i : Nat}

theorem CachesNarrow.set (h : CachesNarrow P runtime s) {task : CacheTask} (hTask : TaskNarrow task) :
    ∀ other ∈ s.tasks.set i task, TaskNarrow other := by
  intro other hOther
  rcases List.mem_or_eq_of_mem_set hOther with hOld | rfl
  · exact h.tasks other hOld
  · exact hTask

/-- A task keeps to the collection that it started with. -/
theorem CachesNarrow.step (h : CachesNarrow P runtime s) :
    CachesNarrow P runtime ((proofCaching P runtime).step s i) := by
  have hOwn : ∀ task, s.tasks[i]? = some task → TaskNarrow task := fun task hTask =>
    h.tasks task (List.mem_of_getElem? hTask)
  unfold System.step
  cases hTask : s.tasks[i]? with
  | none => exact h
  | some task =>
      specialize hOwn task hTask
      cases task with
      | lookup key =>
          refine ⟨h.cached, h.set ?_⟩
          split_ifs
          · trivial
          · exact hOwn
      | fetch key =>
          dsimp only
          split
          · exact ⟨h.cached, h.set hOwn⟩
          · exact ⟨h.cached, h.set trivial⟩
      | insert key value =>
          refine ⟨?_, h.set trivial⟩
          intro key' value' hCached
          by_cases hKey : key' = key
          · rw [hKey]
            exact hOwn
          · rw [(proofCaching P runtime).get_insert_other _ _ _ _ hKey] at hCached
            exact h.cached key' value' hCached
      | commit write =>
          dsimp only
          split
          · exact ⟨h.cached, h.set trivial⟩
          · exact ⟨h.cached, h.set trivial⟩
      | invalidate keys =>
          cases keys with
          | nil => exact ⟨h.cached, h.set trivial⟩
          | cons key rest =>
              refine ⟨?_, h.set trivial⟩
              intro key' value' hCached
              by_cases hKey : key' = key
              · subst hKey
                cases hCached.symm.trans ((proofCaching P runtime).get_remove_self s.cache key')
              · rw [(proofCaching P runtime).get_remove_other _ _ _ hKey] at hCached
                exact h.cached key' value' hCached
      | finished => exact h

/-- A commit stores the event of its write. -/
theorem commit_eq_some {db db' : Database} {write : Write}
    (h : (proofCaching P runtime).commit db write = some db') :
    ∃ derived tombstones, db' = stored db (write.incoming.row runtime write.now write.id)
      write.incoming.decoded derived tombstones := by
  simp only [proofCaching] at h
  split at h
  · next db'' hAdd =>
      obtain rfl := Option.some.inj h
      obtain ⟨derived, tombstones, -, -, -, hResult⟩ := addEvent_eq_ok_iff.mp hAdd
      rcases hResult with ⟨-, hFalse, -⟩ | ⟨-, -, hStored⟩
      · cases hFalse
      · exact ⟨derived, tombstones, hStored⟩
  · cases h

/-- An event that keeps to its stream changes only what its writer drops. -/
theorem CachesNarrow.commitsDropped (h : CachesNarrow P runtime s) (hKept : CommitsKept s i) :
    CommitsDropped (proofCaching P runtime) s i := by
  intro write db' hTask hCommit key value hCached hOut
  obtain ⟨derived, tombstones, rfl⟩ := commit_eq_some hCommit
  have hKeeps := hKept write hTask
  have hNarrow := h.cached key value hCached
  cases key with
  | identity identity =>
      refine hKeeps.latestValidIdentityContent_eq rfl ?_
      rintro hIdentity rfl
      exact hOut (by simp [proofCaching, hIdentity])
  | canonical identity collection =>
      refine congrArg some (hKeeps.canonicalSignatures_eq rfl hNarrow ?_)
      intro hOwn
      obtain ⟨rfl, rfl⟩ := Prod.mk.inj hOwn
      exact hOut (by simp [proofCaching])

theorem cachesNarrow_start (db : Database) {tasks : List CacheTask}
    (hTasks : ∀ task ∈ tasks, StartsNarrow task) :
    CachesNarrow P runtime (startCaching db tasks) where
  cached := by
    rintro (identity | ⟨identity, collection⟩) value hCached
    · trivial
    · cases hCached
  tasks := by
    intro task hTask
    have hStarts := hTasks task hTask
    cases task <;> first | exact hStarts | trivial

/-- Nothing is cached at the start. -/
theorem guarded_start (db : Database) (tasks : List CacheTask) :
    Guarded (proofCaching P runtime) (startCaching db tasks) := by
  rintro (identity | ⟨identity, collection⟩) value hCached
  · cases hCached
  · cases hCached

/-- A guarded cache is coherent once all tasks have finished. -/
theorem coherent_of_guarded (h : Guarded (proofCaching P runtime) s)
    (hFinished : ∀ task ∈ s.tasks, task = .finished) : s.cache.Coherent P s.store where
  identity := fun identity document hCached =>
    h.answers hFinished (.identity identity) document hCached
  canonical := fun stream signatures hCached =>
    Option.some.inj (h.answers hFinished (.canonical stream.1 stream.2) signatures hCached)

end Interleavings

/-- For every interleaving of readers and writers: if every insertion is of an
answer that is current, or that a writer is about to drop, then the cache is
coherent once all of them have finished. The insertions are all like that exactly
if, in every state on the way, whatever is cached is current or about to be
dropped. -/
theorem cache_coherent_interleaved (db : Database) (tasks : List CacheTask) (schedule : List Nat)
    (hTasks : ∀ task ∈ tasks, StartsNarrow task)
    (hKept : Along (proofCaching P runtime).step CommitsKept (startCaching db tasks) schedule) :
    (Along (proofCaching P runtime).step (InsertsCurrent (proofCaching P runtime))
        (startCaching db tasks) schedule →
      let final := run (proofCaching P runtime).step (startCaching db tasks) schedule
      (∀ task ∈ final.tasks, task = .finished) → final.cache.Coherent P final.store) ∧
    (Along (proofCaching P runtime).step
        (fun s i => Guarded (proofCaching P runtime) ((proofCaching P runtime).step s i))
        (startCaching db tasks) schedule ↔
      Along (proofCaching P runtime).step (InsertsCurrent (proofCaching P runtime))
        (startCaching db tasks) schedule) := by
  have hCommits : Along (proofCaching P runtime).step (CommitsDropped (proofCaching P runtime))
      (startCaching db tasks) schedule :=
    along_of_invariant (fun hNarrow _ => CachesNarrow.step hNarrow)
      (fun hNarrow hStep => CachesNarrow.commitsDropped hNarrow hStep)
      (cachesNarrow_start db hTasks) hKept
  constructor
  · intro hInserts final hFinished
    exact coherent_of_guarded (guarded_run (guarded_start db tasks) hCommits hInserts) hFinished
  · exact guarded_run_iff (guarded_start db tasks) hCommits

namespace CacheRaces

open TableInstance

/-! A reader asks for alice's identity while a writer stores the event that
revokes one of its keys. -/

def chainDatabase : Database :=
  { Database.empty with
    event := [eventRow 1 Collections.identity (key 1) 1 [1] [11]]
    content := [contentRow [11]] }

def revocation : Write where
  now := 0
  id := 2
  incoming := ⟨⟨sign (key 1).key [2], [2]⟩,
    event Collections.identity aliceIdentity (key 1) 2 [] [12],
    ⟨Collections.identity, aliceIdentity, some (key 1), 2⟩, key 1,
    some ⟨[12], ⟨some (.identity bounded)⟩, ⟨contentDigestTypeSha256, (digest [12]).val⟩⟩⟩

def readerAndWriter : List CacheTask := [.lookup (.identity aliceIdentity), .commit revocation]

theorem readerAndWriter_narrow : ∀ task ∈ readerAndWriter, StartsNarrow task := by
  intro task hTask
  simp only [readerAndWriter, List.mem_cons, List.not_mem_nil, or_false] at hTask
  rcases hTask with rfl | rfl <;> trivial

theorem revocation_keepsToStream {db : Database}
    (h : ∀ e ∈ db.event, e.key.identity = aliceIdentity) :
    KeepsToStream db revocation.incoming where
  narrow := by decide
  content := fun _ _ e he _ _ => ⟨rfl, h e he⟩

/-- The revocation is the only commit, and it comes to alice's first event. -/
def RevocationAhead (s : CacheState) : Prop :=
  ∀ i write, s.tasks[i]? = some (.commit write) →
    i = 1 ∧ write = revocation ∧ s.store = chainDatabase

/-- The revocation stays the only commit. -/
theorem RevocationAhead.step {P : Primitives} {runtime : Runtime} {s : CacheState} {i : Nat}
    (h : RevocationAhead s) : RevocationAhead ((proofCaching P runtime).step s i) := by
  intro j write hAt
  obtain ⟨hOther, hBefore⟩ := commit_of_step _ hAt
  obtain ⟨rfl, rfl, hStore⟩ := h j write hBefore
  refine ⟨rfl, rfl, ?_⟩
  rw [step_store, hStore]
  intro own hOwn
  exact hOther (h i own hOwn).1.symm

theorem revocationAhead_start : RevocationAhead (startCaching chainDatabase readerAndWriter) := by
  intro i write hAt
  match i with
  | 0 => cases hAt
  | 1 =>
      cases hAt
      exact ⟨rfl, rfl, rfl⟩
  | i + 2 => cases hAt

/-- In every schedule the revocation keeps to its stream. -/
theorem readerAndWriter_kept (schedule : List Nat) :
    Along (proofCaching boundedPrimitives TableInstance.runtime).step CommitsKept
      (startCaching chainDatabase readerAndWriter) schedule := by
  have hAny : Along (proofCaching boundedPrimitives TableInstance.runtime).step
      (fun _ _ => True) (startCaching chainDatabase readerAndWriter) schedule := along_true _ _
  refine along_of_invariant (fun hAhead _ => RevocationAhead.step hAhead) ?_
    revocationAhead_start hAny
  intro s i hAhead _ write hAt
  obtain ⟨-, rfl, hStore⟩ := hAhead i write hAt
  rw [hStore]
  apply revocation_keepsToStream
  decide +kernel

end CacheRaces

open CacheRaces TableInstance

/-- The reader finishes before the writer starts. -/
theorem cache_coherent_in_turn :
    let final := run (proofCaching boundedPrimitives TableInstance.runtime).step
      (startCaching chainDatabase readerAndWriter) [0, 0, 0, 1, 1, 1, 1]
    final.cache.Coherent boundedPrimitives final.store := by
  apply (cache_coherent_interleaved boundedPrimitives TableInstance.runtime chainDatabase
    readerAndWriter [0, 0, 0, 1, 1, 1, 1] readerAndWriter_narrow (readerAndWriter_kept _)).1
  · refine ⟨insertsCurrent_of_not_inserts rfl, insertsCurrent_of_not_inserts rfl,
      insertsCurrent_of_fetch (.identity aliceIdentity) rfl, ?_, ?_, ?_, ?_, trivial⟩
    all_goals
      apply insertsCurrent_of_not_inserts
      decide +kernel
  · decide +kernel

/-- The reader fetches before the writer commits, and inserts after it has
invalidated. The revoked key is authorised by the cache for good. -/
theorem cache_incoherent_straddling :
    (∀ task ∈ readerAndWriter, StartsNarrow task) ∧
      Along (proofCaching boundedPrimitives TableInstance.runtime).step CommitsKept
        (startCaching chainDatabase readerAndWriter) [0, 0, 1, 1, 1, 1, 0] ∧
      let final := run (proofCaching boundedPrimitives TableInstance.runtime).step
        (startCaching chainDatabase readerAndWriter) [0, 0, 1, 1, 1, 1, 0]
      (∀ task ∈ final.tasks, task = .finished) ∧
        ¬final.cache.Coherent boundedPrimitives final.store ∧
        (authorizeEventSigner boundedPrimitives final.store final.cache aliceIdentity (key 2)
          Collections.feed []).1 = .ok () ∧
        (authorizeEventSigner boundedPrimitives final.store .empty aliceIdentity (key 2)
          Collections.feed []).1 ≠ .ok () := by
  refine ⟨readerAndWriter_narrow, readerAndWriter_kept _, ?_, ?_, ?_, ?_⟩
  · decide +kernel
  · intro hCoherent
    have hStale := hCoherent.identity aliceIdentity genesis (by decide +kernel)
    exact absurd hStale (by decide +kernel)
  · decide +kernel
  · decide +kernel

end Polycentric.Server
