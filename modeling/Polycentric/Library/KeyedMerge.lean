import Mathlib

/-! Deduplicating a list by an optional key. Items with the same key are merged
into the entry of the first one, in order; items without a key are kept as they
are. The rules here describe the entry of one key without the others. -/
namespace KeyedMerge

variable {κ α : Type*} [DecidableEq κ] (key : α → Option κ) (merge : α → α → α)

/-- Merge `x` into the entry of `k`, or open an entry at the end. -/
def absorb (k : κ) (x : α) : List (Option κ × α) → List (Option κ × α)
  | [] => [(some k, x)]
  | entry :: rest =>
      if entry.1 = some k then (entry.1, merge entry.2 x) :: rest else entry :: absorb k x rest

def step (entries : List (Option κ × α)) (x : α) : List (Option κ × α) :=
  match key x with
  | some k => absorb merge k x entries
  | none => entries ++ [(none, x)]

/-- The merged items with the key they are filed under. -/
def entries (items : List α) : List (Option κ × α) := items.foldl (step key merge) []

def mergeByKey (items : List α) : List α := (entries key merge items).map Prod.snd

/-- All items of a non-empty list, merged from the left. -/
def mergeAll : List α → Option α
  | [] => none
  | a :: rest => some (rest.foldl merge a)

/-- The items of one key, in order. -/
def copies (k : κ) (items : List α) : List α := items.filter fun x => key x = some k

variable {key merge}

theorem mergeAll_concat (items : List α) (x : α) :
    mergeAll merge (items ++ [x]) = some (((mergeAll merge items).map (merge · x)).getD x) := by
  cases items <;> simp [mergeAll]

/-- What merging keeps of two items it keeps of all. -/
theorem mergeAll_mem {carrier : α → Prop} (hClosed : ∀ a b, carrier a → carrier b → carrier (merge a b))
    {items : List α} {b : α} (hItems : ∀ x ∈ items, carrier x) (hMerge : mergeAll merge items = some b) :
    carrier b := by
  induction items using List.reverseRecOn generalizing b with
  | nil => cases hMerge
  | append_singleton items x ih =>
      have hLast := hItems x (by simp)
      rw [mergeAll_concat] at hMerge
      obtain rfl := Option.some.inj hMerge
      cases hFirst : mergeAll merge items with
      | none => exact hLast
      | some a => exact hClosed a x (ih (fun y hy => hItems y (by simp [hy])) hFirst) hLast

variable (merge) in
/-- A component that merging takes from the left operand, if it is there, comes
from the first item that has it. -/
theorem mergeAll_bind_eq_findSome? {β : Type*} {f : α → Option β}
    (h : ∀ a b, f (merge a b) = (f a).or (f b)) (items : List α) :
    (mergeAll merge items).bind f = items.findSome? f := by
  induction items using List.reverseRecOn with
  | nil => rfl
  | append_singleton items x ih =>
      rw [mergeAll_concat, List.findSome?_append, ← ih]
      cases mergeAll merge items <;> simp [h]

@[simp] theorem copies_append (k : κ) (items others : List α) :
    copies key k (items ++ others) = copies key k items ++ copies key k others :=
  List.filter_append ..

/-- The first item of a key opens its entry. -/
theorem absorb_new {k : κ} {x : α} {list : List (Option κ × α)}
    (h : ∀ entry ∈ list, entry.1 ≠ some k) : absorb merge k x list = list ++ [(some k, x)] := by
  induction list with
  | nil => rfl
  | cons entry rest ih =>
      rw [absorb, if_neg (h entry List.mem_cons_self),
        ih fun other hOther => h other (List.mem_cons_of_mem _ hOther), List.cons_append]

/-- Items of which no two have the same key are left as they are. -/
theorem mergeByKey_of_nodup {items : List α} (h : (items.filterMap key).Nodup) :
    mergeByKey key merge items = items := by
  have hEntries : entries key merge items = items.map fun x => (key x, x) := by
    induction items using List.reverseRecOn with
    | nil => rfl
    | append_singleton items x ih =>
        rw [List.filterMap_append, List.nodup_append] at h
        obtain ⟨hItems, -, hApart⟩ := h
        rw [entries, List.foldl_concat, ← entries, ih hItems, step, List.map_append, List.map_singleton]
        cases hKey : key x with
        | none => rfl
        | some k =>
            apply absorb_new
            intro entry hEntry hSame
            obtain ⟨y, hy, rfl⟩ := List.mem_map.mp hEntry
            exact hApart k (List.mem_filterMap.mpr ⟨y, hy, hSame⟩) k (by simp [hKey]) rfl
  rw [mergeByKey, hEntries, List.map_map]
  exact List.map_id _

/-- Absorbing an item leaves the entries of the other keys as they are. -/
theorem filter_absorb_of_ne {k : Option κ} {j : κ} {x : α} (h : k ≠ some j)
    (list : List (Option κ × α)) :
    (absorb merge j x list).filter (fun entry => entry.1 = k) =
      list.filter fun entry => entry.1 = k := by
  induction list with
  | nil => simp [absorb, h.symm]
  | cons entry rest ih =>
      by_cases hEntry : entry.1 = some j
      · simp [absorb, hEntry, h.symm]
      · simp [absorb, hEntry, List.filter_cons, ih]

/-- Absorbing an item merges it into the entry of its key, or makes one. -/
theorem filter_absorb_self {k : κ} {x : α} {list : List (Option κ × α)} {found : Option α}
    (h : (list.filter fun entry => entry.1 = some k) = (found.map fun b => (some k, b)).toList) :
    ((absorb merge k x list).filter fun entry => entry.1 = some k) =
      [(some k, (found.map (merge · x)).getD x)] := by
  induction list with
  | nil =>
      cases found with
      | none => simp [absorb]
      | some b => simp at h
  | cons entry rest ih =>
      by_cases hEntry : entry.1 = some k
      · rw [List.filter_cons_of_pos (by simpa using hEntry)] at h
        cases found with
        | none => simp at h
        | some b =>
            simp only [Option.map_some, Option.toList_some, List.cons.injEq] at h
            obtain ⟨rfl, hRest⟩ := h
            simp [absorb, hRest]
      · rw [List.filter_cons_of_neg (by simpa using hEntry)] at h
        rw [absorb, if_neg hEntry, List.filter_cons_of_neg (by simpa using hEntry)]
        exact ih h

/-- The entry of a key is the merge of its copies, and there is only one. -/
theorem filter_entries (items : List α) (k : κ) :
    ((entries key merge items).filter fun entry => entry.1 = some k) =
      ((mergeAll merge (copies key k items)).map fun b => (some k, b)).toList := by
  induction items using List.reverseRecOn with
  | nil => rfl
  | append_singleton items x ih =>
      rw [entries, List.foldl_concat, ← entries, step]
      cases hKey : key x with
      | none =>
          have hCopies : copies key k [x] = [] := by simp [copies, hKey]
          rw [copies_append, hCopies, List.append_nil, ← ih, List.filter_append]
          simp
      | some j =>
          by_cases hj : j = k
          · subst hj
            have hCopies : copies key j [x] = [x] := by simp [copies, hKey]
            rw [copies_append, hCopies, mergeAll_concat]
            exact filter_absorb_self ih
          · have hCopies : copies key k [x] = [] := by simp [copies, hKey, hj]
            rw [copies_append, hCopies, List.append_nil, ← ih]
            exact filter_absorb_of_ne (by simpa using Ne.symm hj) _

/-- Items without a key are kept as they came. -/
theorem filter_entries_none (items : List α) :
    ((entries key merge items).filter fun entry => entry.1 = none) =
      (items.filter fun x => key x = none).map fun x => (none, x) := by
  induction items using List.reverseRecOn with
  | nil => rfl
  | append_singleton items x ih =>
      rw [entries, List.foldl_concat, ← entries, step]
      cases hKey : key x with
      | none => simp [ih, hKey]
      | some j =>
          simp only [List.filter_append, List.map_append, ← ih]
          rw [filter_absorb_of_ne (by simp)]
          simp [hKey]

/-- Membership in the result, key by key. -/
theorem mem_mergeByKey_iff {items : List α} {b : α} :
    b ∈ mergeByKey key merge items ↔
      (b ∈ items ∧ key b = none) ∨ ∃ k, mergeAll merge (copies key k items) = some b := by
  have hEntry : ∀ k : Option κ, (k, b) ∈ entries key merge items ↔
      (k, b) ∈ (entries key merge items).filter fun entry => entry.1 = k := by
    intro k
    simp [List.mem_filter]
  rw [mergeByKey, List.mem_map]
  constructor
  · rintro ⟨⟨k, b'⟩, hMem, rfl⟩
    cases k with
    | none =>
        rw [hEntry, filter_entries_none] at hMem
        exact Or.inl (by simpa using hMem)
    | some k =>
        rw [hEntry, filter_entries] at hMem
        simp only [Option.mem_toList, Option.map_eq_some_iff, Prod.mk.injEq,
          true_and] at hMem
        obtain ⟨b, hMerge, rfl⟩ := hMem
        exact Or.inr ⟨k, hMerge⟩
  · rintro (hNone | ⟨k, hMerge⟩)
    · refine ⟨(none, b), ?_, rfl⟩
      rw [hEntry, filter_entries_none]
      simpa using hNone
    · refine ⟨(some k, b), ?_, rfl⟩
      rw [hEntry, filter_entries, hMerge]
      simp

/-! ### Keys of the merged items -/

section Keys

variable (key merge) in
/-- Merging two copies of a key keeps the key. -/
def KeepsKey : Prop :=
  ∀ a b k, key a = some k → key b = some k → key (merge a b) = some k

omit [DecidableEq κ] in
/-- The merge of items of a key has that key. -/
theorem KeepsKey.mergeAll (hKeeps : KeepsKey key merge) {k : κ} {items : List α} {b : α}
    (hItems : ∀ x ∈ items, key x = some k) (hMerge : mergeAll merge items = some b) :
    key b = some k :=
  mergeAll_mem (fun a b => hKeeps a b k) hItems hMerge

/-- An entry is filed under the key of its item. -/
theorem KeepsKey.entry (hKeeps : KeepsKey key merge) {items : List α} {entry : Option κ × α}
    (hEntry : entry ∈ entries key merge items) : key entry.2 = entry.1 := by
  obtain ⟨k, b⟩ := entry
  have hFiled : (k, b) ∈ (entries key merge items).filter fun entry => entry.1 = k := by
    simpa [List.mem_filter] using hEntry
  cases k with
  | none =>
      rw [filter_entries_none, List.mem_map] at hFiled
      obtain ⟨x, hx, hEq⟩ := hFiled
      obtain rfl := (Prod.mk.inj hEq).2
      simpa using (List.mem_filter.mp hx).2
  | some k =>
      rw [filter_entries, Option.mem_toList, Option.map_eq_some_iff] at hFiled
      obtain ⟨b', hMerge, hEq⟩ := hFiled
      obtain rfl := (Prod.mk.inj hEq).2
      exact hKeeps.mergeAll (fun x hx => by simpa using (List.mem_filter.mp hx).2) hMerge

/-- No key is left twice. -/
theorem KeepsKey.nodup (hKeeps : KeepsKey key merge) (items : List α) :
    ((mergeByKey key merge items).filterMap key).Nodup := by
  have hKeys : (mergeByKey key merge items).filterMap key =
      (entries key merge items).filterMap Prod.fst := by
    rw [mergeByKey, List.filterMap_map]
    exact List.filterMap_congr fun entry hEntry => hKeeps.entry hEntry
  rw [hKeys, List.nodup_iff_count_le_one]
  intro k
  have hCount : (entries key merge items).countP (fun entry => entry.1 == some k) ≤ 1 := by
    have hOne : ((entries key merge items).filter fun entry => entry.1 = some k).length =
        ((KeyedMerge.mergeAll merge (copies key k items)).map fun b => (some k, b)).toList.length :=
      congrArg List.length (filter_entries items k)
    rw [List.countP_eq_length_filter]
    simp only [beq_eq_decide]
    rw [hOne, Option.length_toList]
    split <;> omega
  rwa [List.count_filterMap]

/-- The merged list has one item for each key, the merge of its copies. -/
theorem KeepsKey.copies_mergeByKey (hKeeps : KeepsKey key merge) (items : List α) (k : κ) :
    copies key k (mergeByKey key merge items) =
      (KeyedMerge.mergeAll merge (copies key k items)).toList := by
  have hFiled : copies key k (mergeByKey key merge items) =
      ((entries key merge items).filter fun entry => entry.1 = some k).map Prod.snd := by
    rw [copies, mergeByKey, List.filter_map]
    congr 1
    exact List.filter_congr fun entry hEntry => by simp only [Function.comp, hKeeps.entry hEntry]
  rw [hFiled, filter_entries]
  cases KeyedMerge.mergeAll merge (copies key k items) with
  | none => rfl
  | some b => rfl

/-- Merging in a part that is merged already makes no difference. -/
theorem KeepsKey.mem_mergeByKey_append (hKeeps : KeepsKey key merge) {items others : List α}
    {b : α} : b ∈ mergeByKey key merge (mergeByKey key merge items ++ others) ↔
      b ∈ mergeByKey key merge (items ++ others) := by
  have hNone : (b ∈ mergeByKey key merge items ++ others ∧ key b = none) ↔
      b ∈ items ++ others ∧ key b = none := by
    refine and_congr_left fun hb => ?_
    rw [List.mem_append, List.mem_append, mem_mergeByKey_iff]
    refine or_congr_left ⟨?_, fun hMem => Or.inl ⟨hMem, hb⟩⟩
    rintro (⟨hMem, _⟩ | ⟨k, hMerge⟩)
    · exact hMem
    · have hKey := hKeeps.mergeAll (fun x hx => by simpa using (List.mem_filter.mp hx).2) hMerge
      rw [hb] at hKey
      cases hKey
  have hCopies : ∀ k, KeyedMerge.mergeAll merge
      (copies key k (mergeByKey key merge items ++ others)) =
      KeyedMerge.mergeAll merge (copies key k (items ++ others)) := by
    intro k
    rw [copies_append, copies_append, hKeeps.copies_mergeByKey]
    cases copies key k items with
    | nil => rfl
    | cons first rest => simp [KeyedMerge.mergeAll]
  rw [mem_mergeByKey_iff, mem_mergeByKey_iff, hNone]
  exact or_congr_right (exists_congr fun k => by rw [hCopies])

omit [DecidableEq κ] in
/-- If all items have a key and no key occurs twice, a key determines its item. -/
theorem map_key_nodup {items : List α} (hSome : ∀ x ∈ items, (key x).isSome = true)
    (hKeys : (items.filterMap key).Nodup) : (items.map key).Nodup := by
  have hMap : items.map key = (items.filterMap key).map some := by
    rw [List.map_filterMap, ← List.filterMap_eq_map]
    refine List.filterMap_congr fun x hx => ?_
    obtain ⟨k, hKey⟩ := Option.isSome_iff_exists.mp (hSome x hx)
    simp [hKey]
  rw [hMap]
  exact hKeys.map (Option.some_injective κ)

end Keys

/-! ### The order of the items -/

section Order

/-- Items among which it does not matter in which order they are merged. -/
structure Commutes (merge : α → α → α) (carrier : α → Prop) : Prop where
  closed : ∀ a b, carrier a → carrier b → carrier (merge a b)
  comm : ∀ a b, carrier a → carrier b → merge a b = merge b a
  right_comm : ∀ a b c, carrier a → carrier b → carrier c →
    merge (merge a b) c = merge (merge a c) b

variable {carrier : α → Prop} {items items' : List α}

/-- Items that commute can be merged in any order. -/
theorem Commutes.foldl_perm (h : Commutes merge carrier) (hPerm : items.Perm items')
    (hItems : ∀ x ∈ items, carrier x) {a : α} (ha : carrier a) :
    items.foldl merge a = items'.foldl merge a := by
  induction hPerm generalizing a with
  | nil => rfl
  | @cons x l l' _ ih =>
      exact ih (fun y hy => hItems y (List.mem_cons_of_mem _ hy))
        (h.closed a x ha (hItems x List.mem_cons_self))
  | @swap x y l =>
      rw [List.foldl_cons, List.foldl_cons, List.foldl_cons, List.foldl_cons,
        h.right_comm a y x ha (hItems y List.mem_cons_self) (hItems x (by simp))]
  | @trans l l' l'' hFirst _ ihFirst ihSecond =>
      rw [ihFirst hItems ha, ihSecond (fun x hx => hItems x (hFirst.mem_iff.mpr hx)) ha]

/-- Items that commute have one merge, in whatever order they come. -/
theorem Commutes.mergeAll_perm (h : Commutes merge carrier) (hPerm : items.Perm items')
    (hItems : ∀ x ∈ items, carrier x) : mergeAll merge items = mergeAll merge items' := by
  induction hPerm with
  | nil => rfl
  | cons x hRest _ =>
      exact congrArg some (h.foldl_perm hRest (fun y hy => hItems y (List.mem_cons_of_mem _ hy))
        (hItems x List.mem_cons_self))
  | swap x y l =>
      rw [mergeAll, mergeAll, List.foldl_cons, List.foldl_cons,
        h.comm y x (hItems y List.mem_cons_self) (hItems x (by simp))]
  | trans hFirst _ ihFirst ihSecond =>
      rw [ihFirst hItems, ihSecond fun x hx => hItems x (hFirst.mem_iff.mpr hx)]

/-- If the copies of every key commute, the order of the list does not matter for what is
left of it. -/
theorem mem_mergeByKey_perm (hCopies : ∀ k, ∃ carrier, Commutes merge carrier ∧
      ∀ x ∈ copies key k items, carrier x)
    (hPerm : items.Perm items') {b : α} :
    b ∈ mergeByKey key merge items ↔ b ∈ mergeByKey key merge items' := by
  rw [mem_mergeByKey_iff, mem_mergeByKey_iff, hPerm.mem_iff]
  refine or_congr_right (exists_congr fun k => ?_)
  obtain ⟨carrier, hCommutes, hItems⟩ := hCopies k
  have hSame : (copies key k items).Perm (copies key k items') := hPerm.filter _
  rw [hCommutes.mergeAll_perm hSame hItems]

end Order

/-! ### Merging parts -/

section Parts

variable {items others : List α}

/-- The keys seen so far and those that follow, in the order of their first occurrence. Items
without a key all count. -/
def addKeys (seen keys : List (Option κ)) : List (Option κ) :=
  keys.foldl (fun seen k => if k.isSome ∧ k ∈ seen then seen else seen ++ [k]) seen

def firstKeys (keys : List (Option κ)) : List (Option κ) := addKeys [] keys

theorem addKeys_concat (seen keys : List (Option κ)) (k : Option κ) :
    addKeys seen (keys ++ [k]) =
      if k.isSome ∧ k ∈ addKeys seen keys then addKeys seen keys else addKeys seen keys ++ [k] :=
  List.foldl_concat ..

theorem mem_addKeys {seen keys : List (Option κ)} {k : Option κ} :
    k ∈ addKeys seen keys ↔ k ∈ seen ∨ k ∈ keys := by
  induction keys using List.reverseRecOn with
  | nil => simp [addKeys]
  | append_singleton keys j ih =>
      rw [addKeys_concat]
      split
      · next hSeen =>
          rw [List.mem_append, ih, ← or_assoc, List.mem_singleton]
          refine ⟨Or.inl, ?_⟩
          rintro (hMem | rfl)
          · exact hMem
          · exact ih.mp hSeen.2
      · rw [List.mem_append, ih, List.mem_append, or_assoc]

/-- Only the first occurrences matter. -/
theorem addKeys_firstKeys (seen keys : List (Option κ)) :
    addKeys seen (firstKeys keys) = addKeys seen keys := by
  induction keys using List.reverseRecOn with
  | nil => rfl
  | append_singleton keys k ih =>
      rw [firstKeys, addKeys_concat, addKeys_concat]
      rw [firstKeys] at ih
      split
      · next hFirst =>
          have hSeen : k ∈ addKeys seen keys :=
            mem_addKeys.mpr (Or.inr ((mem_addKeys.mp hFirst.2).resolve_left List.not_mem_nil))
          rw [if_pos ⟨hFirst.1, hSeen⟩, ih]
      · rw [addKeys_concat, ih]

theorem firstKeys_append (keys keys' : List (Option κ)) :
    firstKeys (firstKeys keys ++ firstKeys keys') = firstKeys (keys ++ keys') := by
  have hAppend : ∀ a b : List (Option κ), firstKeys (a ++ b) = addKeys (firstKeys a) b :=
    fun a b => List.foldl_append
  have hSelf : firstKeys (firstKeys keys) = firstKeys keys := addKeys_firstKeys [] keys
  rw [hAppend, hAppend, hSelf, addKeys_firstKeys]

theorem filterMap_firstKeys [BEq κ] [LawfulBEq κ] (keys : List (Option κ)) :
    (firstKeys keys).filterMap id = (keys.filterMap id).eraseDups := by
  induction keys using List.reverseRecOn with
  | nil => rfl
  | append_singleton keys k ih =>
      rw [firstKeys, addKeys_concat, List.filterMap_append]
      rw [firstKeys] at ih
      cases k with
      | none => simpa using ih
      | some k =>
          have hMem : some k ∈ addKeys [] keys ↔ k ∈ keys.filterMap id := by
            rw [mem_addKeys]
            simp
          have hLast : [some k].filterMap id = [k] := rfl
          rw [hLast, List.eraseDups_append, ← ih]
          by_cases hSeen : some k ∈ addKeys [] keys
          · have hOld : [k].removeAll (keys.filterMap id) = [] := by
              simp only [List.removeAll, List.filter_cons, List.elem_eq_mem, hMem.mp hSeen]
              rfl
            rw [if_pos ⟨rfl, hSeen⟩, hOld]
            exact (List.append_nil _).symm
          · have hNew : [k].removeAll (keys.filterMap id) = [k] := by
              simp only [List.removeAll, List.filter_cons, List.elem_eq_mem, mt hMem.mpr hSeen]
              rfl
            rw [if_neg fun h => hSeen h.2, List.filterMap_append, hLast, hNew]
            rfl

theorem map_fst_absorb (k : κ) (x : α) (list : List (Option κ × α)) :
    (absorb merge k x list).map Prod.fst =
      if some k ∈ list.map Prod.fst then list.map Prod.fst else list.map Prod.fst ++ [some k] := by
  induction list with
  | nil => simp [absorb]
  | cons entry rest ih =>
      by_cases hEntry : entry.1 = some k
      · simp [absorb, hEntry]
      · rw [absorb, if_neg hEntry, List.map_cons, ih, List.map_cons]
        simp only [List.mem_cons, Ne.symm hEntry, false_or]
        split <;> rfl

/-- The entries stand in the order in which their keys first occur. -/
theorem map_fst_entries (items : List α) :
    (entries key merge items).map Prod.fst = firstKeys (items.map key) := by
  induction items using List.reverseRecOn with
  | nil => rfl
  | append_singleton items x ih =>
      rw [entries, List.foldl_concat, ← entries, step, List.map_append, List.map_singleton, firstKeys,
        addKeys_concat, ← firstKeys, ← ih]
      cases key x with
      | none => simp
      | some k =>
          rw [map_fst_absorb]
          simp only [Option.isSome_some, true_and]

/-- Entries are determined by their keys in order and by the items of each key. -/
theorem entries_ext {list list' : List (Option κ × α)} (hKeys : list.map Prod.fst = list'.map Prod.fst)
    (hItems : ∀ k, list.filter (fun entry => entry.1 = k) = list'.filter fun entry => entry.1 = k) :
    list = list' := by
  induction list generalizing list' with
  | nil => exact (List.map_eq_nil_iff.mp hKeys.symm).symm
  | cons entry rest ih =>
      cases list' with
      | nil => cases hKeys
      | cons entry' rest' =>
          obtain ⟨hKey, hRest⟩ := List.cons.inj hKeys
          have hFirst := hItems entry.1
          rw [List.filter_cons_of_pos (by simp), List.filter_cons_of_pos (by simp [hKey])] at hFirst
          obtain rfl := (List.cons.inj hFirst).1
          refine congrArg _ (ih hRest fun k => ?_)
          have hBoth := hItems k
          simp only [List.filter_cons] at hBoth
          split at hBoth
          · exact (List.cons.inj hBoth).2
          · exact hBoth

/-- With an associative merge the parts of a list can be merged first. -/
theorem mergeAll_append (hAssoc : ∀ a b c, merge (merge a b) c = merge a (merge b c))
    (items others : List α) :
    mergeAll merge (items ++ others) =
      Option.merge merge (mergeAll merge items) (mergeAll merge others) := by
  induction others using List.reverseRecOn with
  | nil =>
      rw [List.append_nil]
      cases mergeAll merge items <;> rfl
  | append_singleton others x ih =>
      rw [← List.append_assoc, mergeAll_concat, mergeAll_concat, ih]
      cases mergeAll merge items with
      | none => cases mergeAll merge others <;> rfl
      | some a =>
          cases mergeAll merge others with
          | none => rfl
          | some b => exact congrArg some (hAssoc a b x)

/-- The merged list stands in the order in which its keys first occur. -/
theorem KeepsKey.map_mergeByKey (hKeeps : KeepsKey key merge) (items : List α) :
    (mergeByKey key merge items).map key = firstKeys (items.map key) := by
  rw [← @map_fst_entries _ _ _ key merge, mergeByKey, List.map_map]
  exact List.map_congr_left fun entry hEntry => hKeeps.entry hEntry

/-- The first key with a property is not lost. -/
theorem find?_firstKeys (q : Option κ → Bool) (keys : List (Option κ)) :
    (firstKeys keys).find? q = keys.find? q := by
  induction keys using List.reverseRecOn with
  | nil => rfl
  | append_singleton keys k ih =>
      rw [firstKeys, addKeys_concat, ← firstKeys]
      split
      · next hSeen =>
          rw [ih, List.find?_append]
          cases hFind : keys.find? q with
          | some found => rfl
          | none =>
              have hMem : k ∈ keys := by simpa [firstKeys, mem_addKeys] using hSeen.2
              have hNot := List.find?_eq_none.mp hFind k hMem
              simp [hNot]
      · rw [List.find?_append, List.find?_append, ih]

/-- Merging does not change which key with a property comes first. -/
theorem KeepsKey.map_find?_mergeByKey (hKeeps : KeepsKey key merge) (q : Option κ → Bool)
    (items : List α) :
    ((mergeByKey key merge items).find? fun x => q (key x)).map key =
      (items.find? fun x => q (key x)).map key := by
  have hMap : ∀ list : List α, (list.find? fun x => q (key x)).map key = (list.map key).find? q :=
    fun list => List.find?_map.symm
  rw [hMap, hMap, hKeeps.map_mergeByKey, find?_firstKeys]

/-- One item is left of every key, in the order of the first ones. -/
theorem KeepsKey.filterMap_mergeByKey [BEq κ] [LawfulBEq κ] (hKeeps : KeepsKey key merge)
    (items : List α) :
    (mergeByKey key merge items).filterMap key = (items.filterMap key).eraseDups := by
  have hKeys := congrArg (List.filterMap id) (hKeeps.map_mergeByKey items)
  rw [filterMap_firstKeys, List.filterMap_map, List.filterMap_map] at hKeys
  exact hKeys

/-- What has no key is not merged. -/
theorem KeepsKey.filter_none_mergeByKey (hKeeps : KeepsKey key merge) (items : List α) :
    ((mergeByKey key merge items).filter fun x => key x = none) =
      items.filter fun x => key x = none := by
  have hFiled : ((mergeByKey key merge items).filter fun x => key x = none) =
      ((entries key merge items).filter fun entry => entry.1 = none).map Prod.snd := by
    rw [mergeByKey, List.filter_map]
    congr 1
    exact List.filter_congr fun entry hEntry => by simp only [Function.comp, hKeeps.entry hEntry]
  rw [hFiled, filter_entries_none, List.map_map]
  exact List.map_id _

/-- Merging is a homomorphism: merged parts are merged like the whole. -/
theorem KeepsKey.mergeByKey_append (hKeeps : KeepsKey key merge)
    (hAssoc : ∀ a b c, merge (merge a b) c = merge a (merge b c)) (items others : List α) :
    mergeByKey key merge (mergeByKey key merge items ++ mergeByKey key merge others) =
      mergeByKey key merge (items ++ others) := by
  refine congrArg (List.map Prod.snd) (entries_ext ?_ fun k => ?_)
  · rw [map_fst_entries, map_fst_entries, List.map_append, List.map_append, hKeeps.map_mergeByKey,
      hKeeps.map_mergeByKey, firstKeys_append]
  · cases k with
    | none =>
        rw [filter_entries_none, filter_entries_none, List.filter_append, List.filter_append,
          hKeeps.filter_none_mergeByKey, hKeeps.filter_none_mergeByKey]
    | some k =>
        rw [filter_entries, filter_entries, copies_append, copies_append, hKeeps.copies_mergeByKey,
          hKeeps.copies_mergeByKey, mergeAll_append hAssoc (copies key k items)]
        cases KeyedMerge.mergeAll merge (copies key k items) with
        | none => cases KeyedMerge.mergeAll merge (copies key k others) <;> rfl
        | some a => cases KeyedMerge.mergeAll merge (copies key k others) <;> rfl

end Parts

end KeyedMerge
