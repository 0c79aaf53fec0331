import Polycentric.Library.Memo

/-! The answers that a query key has collected, `rs-core/src/query/client.rs`. Every
fan-out to the servers gets an epoch, and an answer is kept or dropped by the epoch
of its fan-out. -/
namespace Polycentric.Query

open Memo

/-- How cached data and newly fetched data are handled. -/
inductive UpdateMode where
  /-- Data fetched from the remote replaces any cached data. -/
  | replace
  /-- Data fetched from the remote is merged with any cached data. -/
  | merge
  deriving DecidableEq, Repr

inductive QueryStatus where
  | loading
  | success
  | error
  deriving DecidableEq, Repr

/-- Every page a server has answered with, newest last. -/
structure QueryResponseInfo (T : Type) where
  pages : List T
  epoch : Nat
  deriving DecidableEq, Repr

namespace QueryResponseInfo

variable {T : Type}

/-- A server that has not answered yet. Epoch 0 is older than every fan-out. -/
def empty : QueryResponseInfo T := ⟨[], 0⟩

/-- Take a new response from this server. -/
def update (info : QueryResponseInfo T) (response : T) (epoch : Nat) :
    UpdateMode → QueryResponseInfo T
  | .replace => if info.epoch ≥ epoch then info else ⟨[response], epoch⟩
  | .merge => ⟨info.pages ++ [response], max info.epoch epoch⟩

end QueryResponseInfo

/-- Reduces every page held for a key, and the value last emitted, to the value to
emit next. -/
abbrev MergeFn (T : Type) := List T → Option T → T

/-- The cache of a key: the pages each server has answered with, the epoch of the
latest fan-out, the epoch of the latest one that replaces, and the value last handed
to a subscriber. -/
structure QueryState (T : Type) where
  data : Table String (QueryResponseInfo T)
  epoch : Nat
  latestReplaceEpoch : Nat
  emitted : Option T
  deriving DecidableEq, Repr

namespace QueryState

variable {T : Type}

def new : QueryState T := ⟨[], 0, 0, none⟩

variable (state : QueryState T)

/-- Start a new fan-out epoch. -/
def nextFanout (mode : UpdateMode) : QueryState T :=
  { state with
    epoch := state.epoch + 1
    latestReplaceEpoch := match mode with
      | .replace => state.epoch + 1
      | .merge => state.latestReplaceEpoch }

/-- What a server has answered with. -/
def infoOf (server : String) : QueryResponseInfo T := (state.data.get server).getD .empty

/-- Update the query state with newly received data. Data that was requested before
the latest fan-out that replaces is not merged. -/
def update (server : String) (value : T) (epoch : Nat) (mode : UpdateMode) : QueryState T :=
  if mode = .merge ∧ state.latestReplaceEpoch > epoch then state
  else
    { state with
      data := (state.data.remove server).insert server
        ((state.infoOf server).update value epoch mode) }

def status (pending : Nat) : QueryStatus :=
  match pending == 0, state.data.isEmpty with
  | true, true => .error
  | true, false => .success
  | false, _ => .loading

/-- Every page held, by server. -/
def pages : List T :=
  ((state.data.map Prod.fst).insertionSort fun a b => (compare a b).isLE).flatMap fun server =>
    (state.infoOf server).pages

/-- Reduce every cached page into one value, unless no server has responded yet. -/
def computeMerged (previous : Option T) (mergeFn : MergeFn T) : Option T :=
  if state.data.isEmpty then none else some (mergeFn state.pages previous)

/-- Merge, emit, and remember what was emitted. -/
def computeEmission (mergeFn : MergeFn T) : Option T × QueryState T :=
  match state.computeMerged state.emitted mergeFn with
  | some emission => (some emission, { state with emitted := some emission })
  | none => (none, state)

/-- Clear the cached responses. The epoch that replaces nothing has pending merge
requests have their responses discarded. -/
def invalidate : QueryState T :=
  ({ state with data := [], emitted := none } : QueryState T).nextFanout .replace

end QueryState

/-! ### The keys of a client -/

abbrev QueryKey := List String

/-- The states of a client by key, `QueryClient::queries`. -/
abbrev Queries (T : Type) := Table QueryKey (QueryState T)

namespace Queries

variable {T : Type} (queries : Queries T)

def getOrCreateState (key : QueryKey) : QueryState T × Queries T :=
  match queries.get key with
  | some state => (state, queries)
  | none => (.new, queries.insert key .new)

/-- Clear the data cache of every key under the prefix. -/
def invalidate (keyPrefix : QueryKey) : Queries T :=
  queries.map fun entry =>
    (entry.1, if keyPrefix.isPrefixOf entry.1 then entry.2.invalidate else entry.2)

/-- Clear the data cache of every query key. -/
def invalidateAll : Queries T := queries.map fun entry => (entry.1, entry.2.invalidate)

variable {queries}

/-- An invalidation treats every key by itself. -/
theorem get_invalidate (keyPrefix key : QueryKey) :
    (invalidate queries keyPrefix).get key = (queries.get key).map fun state =>
      if keyPrefix.isPrefixOf key then state.invalidate else state :=
  Table.get_map (fun key (state : QueryState T) =>
    if keyPrefix.isPrefixOf key then state.invalidate else state) key

/-- The empty prefix is under every key. -/
theorem invalidate_nil : invalidate queries [] = invalidateAll queries := by
  unfold invalidate invalidateAll
  simp

end Queries

namespace QueryState

variable {T : Type} {state : QueryState T}

@[simp] theorem infoOf_new (server : String) : (new : QueryState T).infoOf server = .empty := rfl

@[simp] theorem infoOf_nextFanout (mode : UpdateMode) (server : String) :
    (state.nextFanout mode).infoOf server = state.infoOf server := rfl

@[simp] theorem infoOf_computeEmission (mergeFn : MergeFn T) (server : String) :
    (state.computeEmission mergeFn).2.infoOf server = state.infoOf server := by
  unfold computeEmission
  split <;> rfl

/-- An answer touches the pages of its server only. -/
theorem infoOf_update (server server' : String) (value : T) (epoch : Nat) (mode : UpdateMode) :
    (state.update server value epoch mode).infoOf server' =
      if server' = server ∧ ¬(mode = .merge ∧ state.latestReplaceEpoch > epoch) then
        (state.infoOf server).update value epoch mode
      else state.infoOf server' := by
  unfold update
  by_cases hLate : mode = .merge ∧ state.latestReplaceEpoch > epoch
  · simp [hLate]
  · rw [if_neg hLate]
    by_cases hServer : server' = server
    · subst hServer
      simp [hLate, infoOf, Table.get_insert_self]
    · simp [hServer, infoOf, Table.get_insert_other hServer, Table.get_remove]

end QueryState

end Polycentric.Query
