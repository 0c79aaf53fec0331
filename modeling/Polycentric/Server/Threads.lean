import Polycentric.Library.Ancestry
import Polycentric.Server.Database

/-! The fetch stage of `get_post_thread`: the ancestors of a post, the post itself, and
its descendants. A reply names its parent by key, so that nothing keeps replies from
going round in a circle. -/
namespace Polycentric.Server

open Proto Result Ancestry

/-- A row of `content_post`, with the digest of its content. -/
structure ContentPostRow where
  digest : ContentDigest
  replyParent : Option EventKeyParts
  deriving DecidableEq, Repr

/-- The tables that threads are read from, with their unique indices. -/
structure ThreadStore where
  event : List EventRow
  contentPost : List ContentPostRow
  ids : (event.map EventRow.id).Nodup
  keys : (event.map EventRow.key).Nodup
  digests : (contentPost.map ContentPostRow.digest).Nodup

structure AncestorRef where
  eventId : Nat
  height : Nat
  deriving DecidableEq, Repr

structure DescendantRef where
  eventId : Nat
  parentEventId : Nat
  depth : Nat
  createdAt : Int
  deriving DecidableEq, Repr

/-- How the database puts descendants in order: by depth, and newest first. Rows that
agree in both may come in any order. -/
structure DescendantOrder where
  sort : List DescendantRef → List DescendantRef
  perm : ∀ refs, (sort refs).Perm refs
  sorted : ∀ refs, (sort refs).Pairwise fun a b =>
    a.depth < b.depth ∨ (a.depth = b.depth ∧ b.createdAt ≤ a.createdAt)

namespace ThreadStore

variable (store : ThreadStore)

def findEventByKey (key : EventKeyParts) : Option EventRow := store.event.find? fun row => row.key = key

def listEventsByIds (ids : List Nat) : List EventRow := store.event.filter fun row => ids.contains row.id

/-- The posts that the event replies to: there is at most one. -/
def parents (id : Nat) : List Nat :=
  (store.event.filter fun row => row.id = id).flatMap fun row =>
    (store.contentPost.filter fun post => row.contentDigest = some post.digest).flatMap fun post =>
      (store.event.filter fun parent => post.replyParent = some parent.key).map EventRow.id

/-- The events whose content replies to the event. -/
def replies (id : Nat) : List EventRow :=
  (store.event.filter fun row => row.id = id).flatMap fun row =>
    (store.contentPost.filter fun post => post.replyParent = some row.key).flatMap fun post =>
      store.event.filter fun reply => reply.contentDigest = some post.digest

def parentsOf (ref : AncestorRef) : List AncestorRef :=
  (store.parents ref.eventId).map fun id => ⟨id, ref.height + 1⟩

/-- From the root of the thread down to the direct parent. -/
def listAncestorRefs (subjectId maxHeight : Nat) : List AncestorRef :=
  (rounds store.parentsOf (maxHeight - 1) (store.parentsOf ⟨subjectId, 0⟩)).insertionSort
    fun a b => b.height ≤ a.height

def repliesTo (id depth : Nat) : List DescendantRef :=
  (store.replies id).map fun reply => ⟨reply.id, id, depth + 1, reply.createdAt⟩

def descendants (subjectId maxDepth : Nat) : List DescendantRef :=
  rounds (fun ref => store.repliesTo ref.eventId ref.depth) (maxDepth - 1) (store.repliesTo subjectId 0)

def listDescendantRefs (order : DescendantOrder) (subjectId maxDepth limit : Nat) :
    List DescendantRef :=
  (order.sort (store.descendants subjectId maxDepth)).take limit

variable {store} {a b id : Nat} {subject parent child : Nat}

/-- The parents of a row, as the query joins them. -/
theorem mem_parents : parent ∈ store.parents id ↔
    ∃ row ∈ store.event, row.id = id ∧ ∃ post ∈ store.contentPost, row.contentDigest = some post.digest ∧
      ∃ above ∈ store.event, post.replyParent = some above.key ∧ above.id = parent := by
  simp only [parents, List.mem_flatMap, List.mem_map, List.mem_filter, decide_eq_true_eq, and_assoc]

/-- The replies to a row, as the query joins them. -/
theorem mem_replies {row : EventRow} : row ∈ store.replies id ↔
    ∃ above ∈ store.event, above.id = id ∧ ∃ post ∈ store.contentPost, post.replyParent = some above.key ∧
      row ∈ store.event ∧ row.contentDigest = some post.digest := by
  simp only [replies, List.mem_flatMap, List.mem_filter, decide_eq_true_eq, and_assoc]

/-- An event has one parent: its content, and the event that the content names, are found by
key. -/
theorem parents_unique (hA : a ∈ store.parents id) (hB : b ∈ store.parents id) : a = b := by
  obtain ⟨row, hRow, hId, post, hPost, hDigest, above, hAbove, hKey, rfl⟩ := mem_parents.mp hA
  obtain ⟨row', hRow', hId', post', hPost', hDigest', above', hAbove', hKey', rfl⟩ := mem_parents.mp hB
  obtain rfl : row = row' := List.inj_on_of_nodup_map store.ids hRow hRow' (hId.trans hId'.symm)
  obtain rfl : post = post' := List.inj_on_of_nodup_map store.digests hPost hPost'
    (Option.some.inj (hDigest.symm.trans hDigest'))
  obtain rfl : above = above' := List.inj_on_of_nodup_map store.keys hAbove hAbove'
    (Option.some.inj (hKey.symm.trans hKey'))
  rfl

/-- The post that the event replies to. -/
def parentOf (store : ThreadStore) (id : Nat) : Option Nat := (store.parents id).head?

/-- The parents of the query are the parent of the model. -/
theorem mem_parents_iff : parent ∈ store.parents child ↔ store.parentOf child = some parent := by
  unfold parentOf
  cases hParents : store.parents child with
  | nil => simp
  | cons first rest =>
      have hFirst : first ∈ store.parents child := hParents ▸ List.mem_cons_self
      rw [List.head?_cons, Option.some.injEq]
      constructor
      · intro hMem
        exact parents_unique hFirst (hParents ▸ hMem)
      · rintro rfl
        exact List.mem_cons_self

/-- A reply has the row as its parent. -/
theorem parentOf_of_mem_replies {row : EventRow} (h : row ∈ store.replies id) :
    store.parentOf row.id = some id := by
  obtain ⟨above, hAbove, hId, post, hPost, hKey, hRow, hDigest⟩ := mem_replies.mp h
  exact mem_parents_iff.mp
    (mem_parents.mpr ⟨row, hRow, rfl, post, hPost, hDigest, above, hAbove, hKey, hId⟩)

/-- A parent is a stored event. -/
theorem exists_row_of_parentOf (h : store.parentOf child = some parent) :
    ∃ row ∈ store.event, row.id = parent := by
  obtain ⟨_, -, -, _, -, -, above, hAbove, -, hId⟩ := mem_parents.mp (mem_parents_iff.mpr h)
  exact ⟨above, hAbove, hId⟩

theorem mem_parentsOf {ref last : AncestorRef} : ref ∈ store.parentsOf last ↔
    store.parentOf last.eventId = some ref.eventId ∧ ref.height = last.height + 1 := by
  unfold parentsOf
  rw [List.mem_map]
  constructor
  · rintro ⟨id, hId, rfl⟩
    exact ⟨mem_parents_iff.mp hId, rfl⟩
  · rintro ⟨hParent, hHeight⟩
    exact ⟨ref.eventId, mem_parents_iff.mpr hParent, by rw [← hHeight]⟩

/-- The ancestors up to a height, each with every height at which it is one. -/
theorem mem_listAncestorRefs {maxHeight : Nat} {ref : AncestorRef} :
    ref ∈ store.listAncestorRefs subject maxHeight ↔
      ∃ n ≤ maxHeight - 1, ref.height = n + 1 ∧ climb store.parentOf (n + 1) subject = some ref.eventId := by
  unfold listAncestorRefs
  rw [(List.perm_insertionSort _ _).mem_iff]
  let Reached (n : Nat) (ref : AncestorRef) : Prop :=
    ref.height = n + 1 ∧ climb store.parentOf (n + 1) subject = some ref.eventId
  have hFirst (ref : AncestorRef) : ref ∈ store.parentsOf ⟨subject, 0⟩ ↔ Reached 0 ref := by
    have hClimb : climb store.parentOf 1 subject = store.parentOf subject := climb_one subject
    show _ ↔ ref.height = 0 + 1 ∧ climb store.parentOf 1 subject = some ref.eventId
    rw [mem_parentsOf, hClimb, and_comm]
  have hNext (n : Nat) (ref : AncestorRef) :
      Reached (n + 1) ref ↔ ∃ last, Reached n last ∧ ref ∈ store.parentsOf last := by
    constructor
    · rintro ⟨hHeight, hClimb⟩
      rw [climb_add] at hClimb
      obtain ⟨last, hLast, hParent⟩ := Option.bind_eq_some_iff.mp hClimb
      exact ⟨⟨last, n + 1⟩, ⟨rfl, hLast⟩, mem_parentsOf.mpr ⟨(climb_one last).symm.trans hParent, hHeight⟩⟩
    · rintro ⟨last, ⟨hHeight, hClimb⟩, hMem⟩
      obtain ⟨hParent, hNext⟩ := mem_parentsOf.mp hMem
      exact ⟨hNext.trans (by rw [hHeight]), (climb_succ_last hClimb).trans hParent⟩
  constructor
  · intro hMem
    obtain ⟨n, hn, hReached⟩ := reached_of_mem_rounds (fun ref h => (hFirst ref).mp h)
      (fun n last hLast ref hRef => (hNext n ref).mpr ⟨last, hLast, hRef⟩) hMem
    rw [Nat.zero_add] at hReached
    exact ⟨n, hn, hReached⟩
  · rintro ⟨n, hn, hReached⟩
    rw [← Nat.zero_add n] at hReached
    exact mem_rounds_of_reached (fun ref h => (hFirst ref).mpr h) (fun n ref => (hNext n ref).mp) hn
      hReached

/-- The ancestors are listed from the top. -/
theorem listAncestorRefs_sorted (store : ThreadStore) (subject maxHeight : Nat) :
    (store.listAncestorRefs subject maxHeight).Pairwise fun a b => b.height ≤ a.height :=
  have : Std.Total fun a b : AncestorRef => b.height ≤ a.height := ⟨fun _ _ => Nat.le_total _ _⟩
  have : IsTrans AncestorRef fun a b => b.height ≤ a.height := ⟨fun _ _ _ h h' => h'.trans h⟩
  List.pairwise_insertionSort _ _

/-- What the row of a descendant says. -/
structure Descends (store : ThreadStore) (subject maxDepth : Nat) (ref : DescendantRef) : Prop where
  row : ∃ row ∈ store.event, row.id = ref.eventId
  parent : store.parentOf ref.eventId = some ref.parentEventId
  pos : 1 ≤ ref.depth
  le : ref.depth ≤ maxDepth
  climb : climb store.parentOf ref.depth ref.eventId = some subject

/-- What the recursive query visits, it has reached by replies within its depth. -/
theorem mem_descendants {maxDepth : Nat} (hPos : 1 ≤ maxDepth) {ref : DescendantRef}
    (h : ref ∈ store.descendants subject maxDepth) : store.Descends subject maxDepth ref := by
  let Reached (n : Nat) (ref : DescendantRef) : Prop :=
    (∃ row ∈ store.event, row.id = ref.eventId) ∧ store.parentOf ref.eventId = some ref.parentEventId ∧
      ref.depth = n + 1 ∧ Ancestry.climb store.parentOf (n + 1) ref.eventId = some subject
  have hReplies {id depth : Nat} {ref : DescendantRef} (hRef : ref ∈ store.repliesTo id depth) :
      (∃ row ∈ store.event, row.id = ref.eventId) ∧ store.parentOf ref.eventId = some id ∧
        ref.parentEventId = id ∧ ref.depth = depth + 1 := by
    obtain ⟨row, hRow, rfl⟩ := List.mem_map.mp hRef
    obtain ⟨_, -, -, _, -, -, hIn, -⟩ := mem_replies.mp hRow
    exact ⟨⟨row, hIn, rfl⟩, parentOf_of_mem_replies hRow, rfl, rfl⟩
  have hFirst : ∀ ref ∈ store.repliesTo subject 0, Reached 0 ref := by
    intro ref hRef
    obtain ⟨hRow, hParent, hId, hDepth⟩ := hReplies hRef
    exact ⟨hRow, hId ▸ hParent, hDepth, (climb_one _).trans hParent⟩
  have hNext : ∀ n last, Reached n last →
      ∀ ref ∈ store.repliesTo last.eventId last.depth, Reached (n + 1) ref := by
    intro n last ⟨_, _, hLastDepth, hClimb⟩ ref hRef
    obtain ⟨hRow, hParent, hId, hDepth⟩ := hReplies hRef
    exact ⟨hRow, hId ▸ hParent, by rw [hDepth, hLastDepth], climb_succ hParent hClimb⟩
  obtain ⟨n, hn, hRow, hParent, hDepth, hClimb⟩ := reached_of_mem_rounds hFirst hNext h
  rw [Nat.zero_add] at hDepth hClimb
  exact ⟨hRow, hParent, by omega, by omega, hDepth ▸ hClimb⟩

/-- The order and the limit add nothing to what was visited. -/
theorem mem_listDescendantRefs {order : DescendantOrder} {maxDepth limit : Nat} (hPos : 1 ≤ maxDepth)
    {ref : DescendantRef} (h : ref ∈ store.listDescendantRefs order subject maxDepth limit) :
    store.Descends subject maxDepth ref :=
  mem_descendants hPos ((order.perm _).mem_iff.mp (List.mem_of_mem_take h))

end ThreadStore

namespace GetPostThread

def parentHeightLimit : Nat := 50
def descendantDepthLimit : Nat := 50

/-- At each level the newest child is kept. -/
def branchingFactor : Nat := 1

structure Params where
  eventKey : EventKeyParts
  descendantsLimit : Nat
  deriving DecidableEq, Repr

/-- `TargetEventKey::from_request`. -/
def targetEventKey (key : Option EventKey) (field : String) : Except Status EventKeyParts := do
  let key ← okOr key ⟨.invalidArgument, s!"{field} is required"⟩
  ensure (!key.identity.isEmpty) ⟨.invalidArgument, s!"{field}.identity is required"⟩
  let signedBy ← okOr key.signedBy ⟨.invalidArgument, s!"{field}.signed_by is required"⟩
  ensure (key.collection.toInt16.toInt32 == key.collection)
    ⟨.invalidArgument, s!"{field}.collection out of range"⟩
  ensure (signedBy.keyType.toInt16.toInt32 == signedBy.keyType)
    ⟨.invalidArgument, s!"{field}.signed_by.key_type out of range"⟩
  ensure (key.sequence.toNat < 2 ^ 63) ⟨.invalidArgument, s!"{field}.sequence out of range"⟩
  return .of key signedBy

structure NotFound where
  message : String
  deriving DecidableEq, Repr

/-- `children_by_parent`, in the order of the rows. -/
def childrenByParent (refs : List DescendantRef) (id : Nat) : List Nat :=
  (refs.filter fun ref => ref.parentEventId = id).map DescendantRef.eventId

/-- All direct replies are visited, and of every further level as many as branches are
kept. Out of fuel, the loop still goes on. -/
def descendantOrder (refs : List DescendantRef) (subjectId fuel : Nat) : Option (List Nat) :=
  walk (fun id => (childrenByParent refs id).take branchingFactor) fuel (childrenByParent refs subjectId)

/-- `by_id.remove` for one id after the other: the rows that were there, and those left. -/
def removeAll (byId : List EventRow) : List Nat → List EventRow × List EventRow
  | [] => ([], byId)
  | id :: ids =>
      match byId.find? fun row => row.id = id with
      | some row =>
          let (rows, left) := removeAll (byId.filter fun row => row.id ≠ id) ids
          (row :: rows, left)
      | none => removeAll byId ids

def thread (store : ThreadStore) (subject : EventRow) (ancestors descendants : List Nat) :
    List EventRow :=
  let byId := store.listEventsByIds (ancestors ++ descendants)
  let (above, left) := removeAll byId ancestors
  above ++ subject :: (removeAll left descendants).1

/-- The rows of the thread, or `none` while the loop goes on. -/
def fetch (order : DescendantOrder) (store : ThreadStore) (params : Params) (fuel : Nat) :
    Option (Except NotFound (List EventRow)) :=
  match store.findEventByKey params.eventKey with
  | none => some (.error ⟨"event not found"⟩)
  | some subject => do
      let ancestorRefs := store.listAncestorRefs subject.id parentHeightLimit
      let descendantRefs :=
        store.listDescendantRefs order subject.id descendantDepthLimit params.descendantsLimit
      let descendants ← descendantOrder descendantRefs subject.id fuel
      return .ok (thread store subject (ancestorRefs.map AncestorRef.eventId) descendants)

/-! ### The rows of a thread -/

section Rows

variable {byId : List EventRow} {id parent child : Nat} {ids front back : List Nat}

theorem removeAll_cons (byId : List EventRow) (id : Nat) (ids : List Nat) :
    removeAll byId (id :: ids) =
      ((byId.find? fun row => row.id = id).toList ++ (removeAll (byId.filter fun row => row.id ≠ id) ids).1,
        (removeAll (byId.filter fun row => row.id ≠ id) ids).2) := by
  rw [removeAll]
  cases hFind : byId.find? fun row => row.id = id with
  | some row => rfl
  | none =>
      have hAll : (byId.filter fun row => row.id ≠ id) = byId := by
        rw [List.filter_eq_self]
        intro row hRow
        simpa using List.find?_eq_none.mp hFind row hRow
      rw [hAll]
      rfl

/-- What is left of the map after a walk is what the walk did not name. -/
theorem removeAll_left (byId : List EventRow) (ids : List Nat) :
    (removeAll byId ids).2 = byId.filter fun row => row.id ∉ ids := by
  induction ids generalizing byId with
  | nil => simp [removeAll]
  | cons id ids ih =>
      rw [removeAll_cons]
      show (removeAll _ ids).2 = _
      rw [ih, List.filter_filter]
      refine List.filter_congr fun row _ => ?_
      simp [Bool.and_comm]

theorem mem_map_find : id ∈ (byId.find? fun row => row.id = parent).toList.map EventRow.id ↔
    id = parent ∧ id ∈ byId.map EventRow.id := by
  cases hFind : byId.find? fun row => row.id = parent with
  | none =>
      refine iff_of_false (by simp) ?_
      rintro ⟨rfl, hMem⟩
      obtain ⟨row, hRow, rfl⟩ := List.mem_map.mp hMem
      exact List.find?_eq_none.mp hFind row hRow (decide_eq_true rfl)
  | some row =>
      have hId : row.id = parent := by simpa using List.find?_some hFind
      have hRow : row ∈ byId := List.mem_of_find?_eq_some hFind
      constructor
      · intro hMem
        obtain rfl : id = row.id := by simpa using hMem
        exact ⟨hId, List.mem_map_of_mem hRow⟩
      · rintro ⟨rfl, -⟩
        simp [hId]

theorem mem_map_filter_ne : id ∈ (byId.filter fun row => row.id ≠ parent).map EventRow.id ↔
    id ∈ byId.map EventRow.id ∧ id ≠ parent := by
  constructor
  · intro hMem
    obtain ⟨row, hRow, rfl⟩ := List.mem_map.mp hMem
    obtain ⟨hIn, hNe⟩ := List.mem_filter.mp hRow
    exact ⟨List.mem_map_of_mem hIn, of_decide_eq_true hNe⟩
  · rintro ⟨hMem, hNe⟩
    obtain ⟨row, hRow, rfl⟩ := List.mem_map.mp hMem
    exact List.mem_map_of_mem (List.mem_filter.mpr ⟨hRow, decide_eq_true hNe⟩)

/-- A row is taken out if it is asked for and there. -/
theorem mem_removeAll : id ∈ (removeAll byId ids).1.map EventRow.id ↔
    id ∈ ids ∧ id ∈ byId.map EventRow.id := by
  induction ids generalizing byId with
  | nil => simp [removeAll]
  | cons first ids ih =>
      rw [removeAll_cons, List.map_append, List.mem_append, mem_map_find, ih, mem_map_filter_ne,
        List.mem_cons]
      by_cases hEq : id = first
      · simp [hEq]
      · simp [hEq]

/-- No row is taken from the map twice. -/
theorem nodup_removeAll (byId : List EventRow) (ids : List Nat) :
    ((removeAll byId ids).1.map EventRow.id).Nodup := by
  induction ids generalizing byId with
  | nil => exact List.nodup_nil
  | cons first ids ih =>
      rw [removeAll_cons, List.map_append, List.nodup_append]
      refine ⟨?_, ih _, ?_⟩
      · cases byId.find? fun row => row.id = first with
        | none => exact List.nodup_nil
        | some row => exact List.nodup_singleton _
      · intro id hFirst other hRest hEq
        have hOther := (mem_map_filter_ne.mp (mem_removeAll.mp hRest).2).2
        exact hOther (hEq ▸ (mem_map_find.mp hFirst).1)

/-- A walk in two parts takes with the second what the first has left. -/
theorem removeAll_append (byId : List EventRow) (front back : List Nat) :
    (removeAll byId (front ++ back)).1 =
      (removeAll byId front).1 ++ (removeAll (removeAll byId front).2 back).1 := by
  induction front generalizing byId with
  | nil => rfl
  | cons first front ih =>
      rw [List.cons_append, removeAll_cons, removeAll_cons, ih, List.append_assoc]

theorem mem_map_left : id ∈ (removeAll byId ids).2.map EventRow.id ↔
    id ∈ byId.map EventRow.id ∧ id ∉ ids := by
  rw [removeAll_left]
  constructor
  · intro hMem
    obtain ⟨row, hRow, rfl⟩ := List.mem_map.mp hMem
    obtain ⟨hIn, hNot⟩ := List.mem_filter.mp hRow
    exact ⟨List.mem_map_of_mem hIn, of_decide_eq_true hNot⟩
  · rintro ⟨hMem, hNot⟩
    obtain ⟨row, hRow, rfl⟩ := List.mem_map.mp hMem
    exact List.mem_map_of_mem (List.mem_filter.mpr ⟨hRow, decide_eq_true hNot⟩)

/-- What is asked for first comes first. -/
theorem removeAll_in_turn (hParent : parent ∈ front) (hChild : child ∉ front) (hBack : child ∈ back)
    (hParentIn : parent ∈ byId.map EventRow.id) (hChildIn : child ∈ byId.map EventRow.id) :
    [parent, child].Sublist ((removeAll byId (front ++ back)).1.map EventRow.id) := by
  rw [removeAll_append, List.map_append]
  have hFirst : [parent].Sublist ((removeAll byId front).1.map EventRow.id) :=
    List.singleton_sublist.mpr (mem_removeAll.mpr ⟨hParent, hParentIn⟩)
  have hSecond : [child].Sublist ((removeAll (removeAll byId front).2 back).1.map EventRow.id) :=
    List.singleton_sublist.mpr (mem_removeAll.mpr ⟨hBack, mem_map_left.mpr ⟨hChildIn, hChild⟩⟩)
  exact hFirst.append hSecond

end Rows

/-! ### What a thread should be -/

/-- No event is listed twice. -/
def ListedOnce (thread : List EventRow) : Prop := (thread.map EventRow.id).Nodup

/-- A listed parent that is not on a cycle comes before the reply. -/
def ParentsFirst (store : ThreadStore) (thread : List EventRow) : Prop :=
  ∀ parent child, parent ∈ thread.map EventRow.id → child ∈ thread.map EventRow.id →
    store.parentOf child = some parent → ¬OnCycle store.parentOf parent →
      [parent, child].Sublist (thread.map EventRow.id)

/-- The loop ends, and what is fetched is as it should be. -/
def Sound (order : DescendantOrder) (store : ThreadStore) (params : Params) : Prop :=
  ∃ fuel result, fetch order store params fuel = some result ∧
    ∀ thread, result = .ok thread → ListedOnce thread ∧ ParentsFirst store thread

/-- The post is its own ancestor within the heights that are looked up. -/
def OnShortCycle (store : ThreadStore) (id : Nat) : Prop :=
  ∃ n, 1 ≤ n ∧ n ≤ parentHeightLimit ∧ climb store.parentOf n id = some id

section Fetched

variable {store : ThreadStore} {order : DescendantOrder} {limit subject id parent child : Nat}

def ancestorIds (store : ThreadStore) (subject : Nat) : List Nat :=
  (store.listAncestorRefs subject parentHeightLimit).map AncestorRef.eventId

def descendantRefs (order : DescendantOrder) (store : ThreadStore) (subject limit : Nat) :
    List DescendantRef :=
  store.listDescendantRefs order subject descendantDepthLimit limit

/-- The ancestors are what climbing from the subject reaches within the limit. -/
theorem mem_ancestorIds : id ∈ ancestorIds store subject ↔
    ∃ n, 1 ≤ n ∧ n ≤ parentHeightLimit ∧ climb store.parentOf n subject = some id := by
  unfold ancestorIds
  rw [List.mem_map]
  constructor
  · rintro ⟨ref, hRef, rfl⟩
    obtain ⟨n, hn, -, hClimb⟩ := ThreadStore.mem_listAncestorRefs.mp hRef
    have hLe : n + 1 ≤ parentHeightLimit := Nat.succ_le_of_lt (Nat.lt_of_le_pred (by decide) hn)
    exact ⟨n + 1, Nat.succ_pos n, hLe, hClimb⟩
  · rintro ⟨n, hPos, hLe, hClimb⟩
    obtain ⟨n, rfl⟩ := Nat.exists_eq_succ_of_ne_zero (Nat.one_le_iff_ne_zero.mp hPos)
    exact ⟨⟨id, n + 1⟩, ThreadStore.mem_listAncestorRefs.mpr ⟨n, Nat.le_pred_of_lt hLe, rfl, hClimb⟩, rfl⟩

/-- An event that is some generations below the subject. -/
def Below (store : ThreadStore) (subject id : Nat) : Prop :=
  (∃ row ∈ store.event, row.id = id) ∧
    ∃ n, 1 ≤ n ∧ n ≤ descendantDepthLimit ∧ climb store.parentOf n id = some subject

/-- A child of the map lies below the subject and has the parent under which it is kept. -/
theorem mem_childrenByParent (h : child ∈ childrenByParent (descendantRefs order store subject limit) parent) :
    Below store subject child ∧ store.parentOf child = some parent := by
  obtain ⟨ref, hRef, rfl⟩ := List.mem_map.mp h
  obtain ⟨hIn, hParent⟩ := List.mem_filter.mp hRef
  have hRow := ThreadStore.mem_listDescendantRefs (by decide) hIn
  exact ⟨⟨hRow.row, ref.depth, hRow.pos, hRow.le, hRow.climb⟩, of_decide_eq_true hParent ▸ hRow.parent⟩

/-- The walk over the children stays below the subject. -/
theorem below_of_visited {fuel : Nat} {visited : List Nat}
    (h : descendantOrder (descendantRefs order store subject limit) subject fuel = some visited) :
    ∀ id ∈ visited, Below store subject id :=
  forall_walk (fun _ _ _ hChild => (mem_childrenByParent (List.mem_of_mem_take hChild)).1) h
    fun _ hChild => (mem_childrenByParent hChild).1

/-- Unless the subject is its own ancestor, an event is below it at one depth only. -/
theorem depth_unique (hNot : ¬OnShortCycle store subject) {m n : Nat} (hm : m ≤ parentHeightLimit)
    (hn : n ≤ parentHeightLimit) (hFirst : climb store.parentOf m id = some subject)
    (hSecond : climb store.parentOf n id = some subject) : m = n := by
  rcases Nat.lt_trichotomy m n with hLt | hEq | hGt
  · exact absurd ⟨n - m, Nat.sub_pos_of_lt hLt, (Nat.sub_le n m).trans hn,
      climb_sub hFirst hSecond hLt.le⟩ hNot
  · exact hEq
  · exact absurd ⟨m - n, Nat.sub_pos_of_lt hGt, (Nat.sub_le m n).trans hm,
      climb_sub hSecond hFirst hGt.le⟩ hNot

/-- Without a short cycle a child is one deeper than its parent, within the depth of the query. -/
theorem child_depth (hNot : ¬OnShortCycle store subject) {m : Nat} (hLe : m ≤ descendantDepthLimit)
    (hClimb : climb store.parentOf m id = some subject)
    (hChild : child ∈ childrenByParent (descendantRefs order store subject limit) id) :
    m + 1 ≤ descendantDepthLimit ∧ climb store.parentOf (m + 1) child = some subject := by
  obtain ⟨⟨-, n, hPos, hn, hBelow⟩, hParent⟩ := mem_childrenByParent hChild
  have hNext := climb_succ hParent hClimb
  obtain ⟨n, rfl⟩ := Nat.exists_eq_succ_of_ne_zero (Nat.one_le_iff_ne_zero.mp hPos)
  obtain ⟨other, hOther, hRest⟩ := climb_succ_iff.mp hBelow
  cases hOther.symm.trans hParent
  have hEq : m = n := depth_unique hNot hLe ((Nat.le_succ n).trans hn) hClimb hRest
  exact ⟨hEq ▸ hn, hNext⟩

/-- The walk goes down a generation with every step, unless the subject comes up again. -/
theorem walk_below_ends (hNot : ¬OnShortCycle store subject) (n : Nat) :
    ∀ id m, descendantDepthLimit = m + n → climb store.parentOf m id = some subject →
      ∃ fuel visited,
        walk (fun id => (childrenByParent (descendantRefs order store subject limit) id).take branchingFactor)
          fuel [id] = some visited := by
  induction n with
  | zero =>
      intro id m hDepth hClimb
      refine walk_step (walk_ends fun child hChild => ?_)
      obtain ⟨hLe, -⟩ := child_depth hNot hDepth.ge hClimb (List.mem_of_mem_take hChild)
      exact absurd hLe (by omega)
  | succ n ih =>
      intro id m hDepth hClimb
      refine walk_step (walk_ends fun child hChild => ?_)
      obtain ⟨-, hNext⟩ := child_depth hNot (by omega) hClimb (List.mem_of_mem_take hChild)
      exact ih child (m + 1) (by omega) hNext

variable (order limit) in
/-- Without a short cycle the walk over the children ends: the depth bounds every path of it. -/
theorem descendantOrder_ends (hNot : ¬OnShortCycle store subject) : ∃ fuel visited,
    descendantOrder (descendantRefs order store subject limit) subject fuel = some visited := by
  refine walk_ends fun child hChild => ?_
  obtain ⟨hLe, hClimb⟩ := child_depth (m := 0) hNot (Nat.zero_le _) rfl hChild
  exact walk_below_ends hNot (descendantDepthLimit - 1) child 1 (by decide) hClimb

theorem mem_listEventsByIds {ids : List Nat} : id ∈ (store.listEventsByIds ids).map EventRow.id ↔
    id ∈ ids ∧ ∃ row ∈ store.event, row.id = id := by
  unfold ThreadStore.listEventsByIds
  constructor
  · intro hMem
    obtain ⟨row, hRow, rfl⟩ := List.mem_map.mp hMem
    obtain ⟨hIn, hAsked⟩ := List.mem_filter.mp hRow
    exact ⟨by simpa using hAsked, row, hIn, rfl⟩
  · rintro ⟨hAsked, row, hIn, rfl⟩
    exact List.mem_map_of_mem (List.mem_filter.mpr ⟨hIn, by simpa using hAsked⟩)

variable {row : EventRow} {ancestors descendants : List Nat}

/-- What is above the subject in a thread, and what is below. -/
def above (store : ThreadStore) (ancestors descendants : List Nat) : List Nat :=
  (removeAll (store.listEventsByIds (ancestors ++ descendants)) ancestors).1.map EventRow.id

def below (store : ThreadStore) (ancestors descendants : List Nat) : List Nat :=
  (removeAll (removeAll (store.listEventsByIds (ancestors ++ descendants)) ancestors).2
    descendants).1.map EventRow.id

/-- A thread is the ancestors that are stored, the row, and the descendants that are. -/
theorem map_thread : (thread store row ancestors descendants).map EventRow.id =
    above store ancestors descendants ++ row.id :: below store ancestors descendants := by
  show List.map _ (_ ++ row :: _) = _
  rw [List.map_append, List.map_cons]
  rfl

theorem mem_above : id ∈ above store ancestors descendants ↔
    id ∈ ancestors ∧ ∃ row ∈ store.event, row.id = id := by
  unfold above
  rw [mem_removeAll, mem_listEventsByIds, List.mem_append]
  tauto

/-- A descendant that is also an ancestor is listed above only. -/
theorem mem_below : id ∈ below store ancestors descendants ↔
    (id ∈ descendants ∧ id ∉ ancestors) ∧ ∃ row ∈ store.event, row.id = id := by
  unfold below
  rw [mem_removeAll, mem_map_left, mem_listEventsByIds, List.mem_append]
  tauto

/-- The row is listed a second time only if it is its own ancestor or descendant. -/
theorem listedOnce_iff (hRow : row ∈ store.event) : ListedOnce (thread store row ancestors descendants) ↔
    row.id ∉ ancestors ∧ row.id ∉ descendants := by
  unfold ListedOnce
  rw [map_thread, List.nodup_append, List.nodup_cons]
  constructor
  · rintro ⟨-, ⟨hBelow, -⟩, hApart⟩
    have hAbove : row.id ∉ ancestors := by
      intro hMem
      exact hApart row.id (mem_above.mpr ⟨hMem, row, hRow, rfl⟩) row.id List.mem_cons_self rfl
    exact ⟨hAbove, fun hMem => hBelow (mem_below.mpr ⟨⟨hMem, hAbove⟩, row, hRow, rfl⟩)⟩
  · rintro ⟨hAbove, hBelow⟩
    refine ⟨nodup_removeAll _ _, ⟨fun hMem => hBelow (mem_below.mp hMem).1.1, nodup_removeAll _ _⟩, ?_⟩
    intro id hFirst other hRest hEq
    subst hEq
    rcases List.mem_cons.mp hRest with rfl | hLast
    · exact hAbove (mem_above.mp hFirst).1
    · exact (mem_below.mp hLast).1.2 (mem_above.mp hFirst).1

/-- What is not on a cycle is below its own parent among the ancestors. -/
theorem above_in_turn (hParentIn : parent ∈ ancestorIds store subject)
    (hChildIn : child ∈ ancestorIds store subject) (hParent : store.parentOf child = some parent)
    (hNot : ¬OnCycle store.parentOf parent) :
    ∃ front back, ancestorIds store subject = front ++ back ∧ parent ∈ front ∧ child ∉ front ∧
      child ∈ back := by
  have hChildNot : ¬OnCycle store.parentOf child := fun hCycle => hNot (hCycle.parent_of hParent)
  obtain ⟨ref, hFind⟩ : ∃ ref, (store.listAncestorRefs subject parentHeightLimit).find?
      (fun ref => ref.eventId = child) = some ref := by
    obtain ⟨ref, hRef, hId⟩ := List.mem_map.mp hChildIn
    exact Option.isSome_iff_exists.mp (List.find?_isSome.mpr ⟨ref, hRef, decide_eq_true hId⟩)
  obtain ⟨hId, front, back, hRefs, hBefore⟩ := List.find?_eq_some_iff_append.mp hFind
  obtain rfl : ref.eventId = child := of_decide_eq_true hId
  obtain ⟨above, hAbove, rfl⟩ := List.mem_map.mp hParentIn
  -- The parent has the next height, and heights descend.
  have hHeight : above.height = ref.height + 1 := by
    have hRefIn : ref ∈ store.listAncestorRefs subject parentHeightLimit := by
      rw [hRefs]
      exact List.mem_append_right _ List.mem_cons_self
    obtain ⟨m, -, hRefHeight, hRefClimb⟩ := ThreadStore.mem_listAncestorRefs.mp hRefIn
    obtain ⟨n, -, hAboveHeight, hAboveClimb⟩ := ThreadStore.mem_listAncestorRefs.mp hAbove
    have hNext := (climb_succ_last hRefClimb).trans hParent
    have hEq := generation_unique hNot hAboveClimb hNext
    omega
  have hSorted := store.listAncestorRefs_sorted subject parentHeightLimit
  rw [hRefs] at hSorted hAbove
  refine ⟨front.map AncestorRef.eventId, (ref :: back).map AncestorRef.eventId, ?_, ?_, ?_, ?_⟩
  · unfold ancestorIds
    rw [hRefs, List.map_append]
  · rcases List.mem_append.mp hAbove with hFront | hRest
    · exact List.mem_map_of_mem hFront
    · have hLower := (List.pairwise_append.mp hSorted).2.1
      rcases List.mem_cons.mp hRest with rfl | hBack
      · omega
      · have hLe := (List.pairwise_cons.mp hLower).1 above hBack
        omega
  · intro hMem
    obtain ⟨other, hOther, hSame⟩ := List.mem_map.mp hMem
    have hNotChild := hBefore other hOther
    simp [hSame] at hNotChild
  · exact List.mem_cons_self

/-- The parents of the replies that were visited come before them. -/
theorem visited_in_turn {fuel : Nat}
    (hWalk : descendantOrder (descendantRefs order store subject limit) subject fuel = some descendants)
    (hChild : child ∈ descendants) (hParent : store.parentOf child = some parent) :
    parent = subject ∨ ∃ front back, descendants = front ++ back ∧ parent ∈ front ∧ child ∉ front ∧
      child ∈ back := by
  obtain ⟨front, back, hSplit, hFirst⟩ := List.eq_append_cons_of_mem hChild
  have hStack : ∀ id ∈ childrenByParent (descendantRefs order store subject limit) subject,
      ∃ above ∈ [subject], store.parentOf id = some above := fun id hId =>
    ⟨subject, List.mem_singleton_self _, (mem_childrenByParent hId).2⟩
  obtain ⟨above, hAbove, hEq⟩ := walk_parent_first
    (fun _ _ hIn => (mem_childrenByParent (List.mem_of_mem_take hIn)).2) hWalk hStack hSplit
  cases hEq.symm.trans hParent
  rcases List.mem_cons.mp hAbove with rfl | hFront
  · exact Or.inl rfl
  · exact Or.inr ⟨front, child :: back, hSplit, hFront, hFirst, List.mem_cons_self⟩

/-- What is above and below the subject lies on a cycle. -/
theorem onCycle_of_below (hClimb : ∃ n, climb store.parentOf n subject = some id)
    (hBelow : Below store subject id) : OnCycle store.parentOf id := by
  obtain ⟨n, hUp⟩ := hClimb
  obtain ⟨-, m, hPos, -, hDown⟩ := hBelow
  exact ⟨m + n, Nat.le_add_right_of_le hPos, climb_trans hDown hUp⟩

/-- Ancestors come from the top down and children after the parent that the walk visits first. -/
theorem parentsFirst_thread {fuel : Nat}
    (hWalk : descendantOrder (descendantRefs order store row.id limit) row.id fuel = some descendants) :
    ParentsFirst store (thread store row (ancestorIds store row.id) descendants) := by
  intro parent child hParentIn hChildIn hParent hNot
  rw [map_thread] at hParentIn hChildIn ⊢
  have hParentRow := ThreadStore.exists_row_of_parentOf hParent
  rcases List.mem_append.mp hChildIn with hAbove | hRest
  · -- The reply is an ancestor, and then so is its parent, or else it is on a cycle.
    obtain ⟨hChildAncestor, hChildRow⟩ := mem_above.mp hAbove
    obtain ⟨n, hPos, hLe, hClimb⟩ := mem_ancestorIds.mp hChildAncestor
    have hUp : climb store.parentOf (n + 1) row.id = some parent := (climb_succ_last hClimb).trans hParent
    have hParentAncestor : parent ∈ ancestorIds store row.id := by
      rcases List.mem_append.mp hParentIn with hIn | hLower
      · exact (mem_above.mp hIn).1
      · rcases List.mem_cons.mp hLower with rfl | hBelow
        · exact absurd ⟨n + 1, Nat.succ_pos n, hUp⟩ hNot
        · have hVisited := below_of_visited hWalk parent (mem_below.mp hBelow).1.1
          exact absurd (onCycle_of_below ⟨n + 1, hUp⟩ hVisited) hNot
    obtain ⟨front, back, hSplit, hFront, hFirst, hBack⟩ :=
      above_in_turn hParentAncestor hChildAncestor hParent hNot
    refine List.Sublist.trans ?_ (List.sublist_append_left _ _)
    unfold above
    rw [hSplit]
    refine removeAll_in_turn hFront hFirst hBack ?_ ?_
    · exact mem_listEventsByIds.mpr
        ⟨List.mem_append_left _ (List.mem_append_left _ hFront), hParentRow⟩
    · exact mem_listEventsByIds.mpr
        ⟨List.mem_append_left _ (List.mem_append_right _ hBack), hChildRow⟩
  · rcases List.mem_cons.mp hRest with rfl | hBelow
    · -- The reply is the subject.
      have hFirst : parent ∈ ancestorIds store row.id :=
        mem_ancestorIds.mpr ⟨1, Nat.le_refl 1, by decide, (climb_one _).trans hParent⟩
      have hAbove : parent ∈ above store (ancestorIds store row.id) descendants :=
        mem_above.mpr ⟨hFirst, hParentRow⟩
      have hSubject : [row.id].Sublist (row.id :: below store (ancestorIds store row.id) descendants) :=
        List.singleton_sublist.mpr List.mem_cons_self
      exact (List.singleton_sublist.mpr hAbove).append hSubject
    · -- The reply was visited after its parent, which may also be an ancestor.
      obtain ⟨⟨hVisited, hNotAbove⟩, hChildRow⟩ := mem_below.mp hBelow
      have hChildLast : [child].Sublist (below store (ancestorIds store row.id) descendants) :=
        List.singleton_sublist.mpr hBelow
      by_cases hParentAbove : parent ∈ ancestorIds store row.id
      · have hAbove : parent ∈ above store (ancestorIds store row.id) descendants :=
          mem_above.mpr ⟨hParentAbove, hParentRow⟩
        exact (List.singleton_sublist.mpr hAbove).append (hChildLast.cons _)
      refine List.Sublist.trans ?_ (List.sublist_append_right _ _)
      rcases visited_in_turn hWalk hVisited hParent with rfl | ⟨front, back, hSplit, hFront, hFirst, hBack⟩
      · exact hChildLast.cons_cons _
      · refine List.Sublist.trans ?_ (List.sublist_cons_self _ _)
        unfold below
        rw [hSplit]
        refine removeAll_in_turn hFront hFirst hBack ?_ ?_
        · refine mem_map_left.mpr ⟨mem_listEventsByIds.mpr ⟨?_, hParentRow⟩, hParentAbove⟩
          exact List.mem_append_right _ (List.mem_append_left _ hFront)
        · refine mem_map_left.mpr ⟨mem_listEventsByIds.mpr ⟨?_, hChildRow⟩, hNotAbove⟩
          exact List.mem_append_right _ (List.mem_append_right _ hBack)

variable {params : Params}

/-- The thread of an event that is found is put together from the two queries. -/
theorem fetch_found (hFound : store.findEventByKey params.eventKey = some row) (fuel : Nat) :
    fetch order store params fuel =
      (descendantOrder (descendantRefs order store row.id params.descendantsLimit) row.id fuel).map
        fun visited => .ok (thread store row (ancestorIds store row.id) visited) := by
  unfold fetch
  rw [hFound]
  show (descendantOrder (descendantRefs order store row.id params.descendantsLimit) row.id fuel).bind _ = _
  rw [Option.map_eq_bind]
  rfl

theorem row_of_found (hFound : store.findEventByKey params.eventKey = some row) : row ∈ store.event :=
  List.mem_of_find?_eq_some hFound

/-- A post that is its own ancestor is listed as one, and as the subject. -/
theorem not_sound_of_onShortCycle (hFound : store.findEventByKey params.eventKey = some row)
    (hCycle : OnShortCycle store row.id) : ¬Sound order store params := by
  rintro ⟨fuel, result, hFetch, hSound⟩
  rw [fetch_found hFound] at hFetch
  obtain ⟨visited, -, rfl⟩ := Option.map_eq_some_iff.mp hFetch
  have hOnce := (hSound _ rfl).1
  exact ((listedOnce_iff (row_of_found hFound)).mp hOnce).1 (mem_ancestorIds.mpr hCycle)

/-- Without a short cycle the walk ends, and the thread is sound. -/
theorem sound_of_not_onShortCycle (hFound : store.findEventByKey params.eventKey = some row)
    (hNot : ¬OnShortCycle store row.id) : Sound order store params := by
  obtain ⟨fuel, visited, hWalk⟩ := descendantOrder_ends order params.descendantsLimit hNot
  refine ⟨fuel, .ok (thread store row (ancestorIds store row.id) visited), ?_, ?_⟩
  · rw [fetch_found hFound, hWalk]
    rfl
  · intro rows hRows
    cases hRows
    refine ⟨(listedOnce_iff (row_of_found hFound)).mpr ⟨?_, ?_⟩, parentsFirst_thread hWalk⟩
    · exact fun hAbove => hNot (mem_ancestorIds.mp hAbove)
    · intro hBelow
      obtain ⟨-, hCycle⟩ := below_of_visited hWalk row.id hBelow
      exact hNot hCycle

/-- Fetching a thread ends, lists every event once and parents first exactly if the
subject is not its own ancestor within the heights that are looked up. -/
theorem thread_sound_iff (order : DescendantOrder) (store : ThreadStore) (params : Params) :
    Sound order store params ↔
      ∀ subject, store.findEventByKey params.eventKey = some subject → ¬OnShortCycle store subject.id := by
  constructor
  · intro hSound subject hFound hCycle
    exact not_sound_of_onShortCycle hFound hCycle hSound
  · intro hNot
    cases hFound : store.findEventByKey params.eventKey with
    | none =>
        refine ⟨0, .error ⟨"event not found"⟩, ?_, nofun⟩
        unfold fetch
        rw [hFound]
    | some subject => exact sound_of_not_onShortCycle hFound (hNot subject hFound)

end Fetched

/-! ### A post that replies to itself -/

/-- Rows that agree stay in the order in which they are found. -/
def insertionOrder : DescendantOrder where
  sort refs := refs.insertionSort fun a b =>
    a.depth < b.depth ∨ (a.depth = b.depth ∧ b.createdAt ≤ a.createdAt)
  perm refs := List.perm_insertionSort _ refs
  sorted refs :=
    have : Std.Total fun a b : DescendantRef =>
        a.depth < b.depth ∨ (a.depth = b.depth ∧ b.createdAt ≤ a.createdAt) := ⟨by grind⟩
    have : IsTrans DescendantRef fun a b =>
        a.depth < b.depth ∨ (a.depth = b.depth ∧ b.createdAt ≤ a.createdAt) := ⟨by grind⟩
    List.pairwise_insertionSort _ refs

def selfKey : EventKeyParts := ⟨2, "alice", 1, [7], 1⟩

/-- The content names the key of the event that it belongs to. -/
def selfReply : ThreadStore where
  event := [⟨1, selfKey, some ⟨1, [11]⟩, [], [], 0⟩]
  contentPost := [⟨⟨1, [11]⟩, some selfKey⟩]
  ids := by decide
  keys := by decide
  digests := by decide

/-- An event that replies to itself has no sound thread. -/
theorem selfReply_unsound : ¬Sound insertionOrder selfReply ⟨selfKey, 200⟩ := by
  have hFound : selfReply.findEventByKey selfKey = some ⟨1, selfKey, some ⟨1, [11]⟩, [], [], 0⟩ := by
    decide
  exact not_sound_of_onShortCycle hFound ⟨1, by decide, by decide, by decide⟩

end GetPostThread

end Polycentric.Server
