import Mathlib

/-! Tables of remembered answers. The newest entry of a key is the one that is
read. A table is coherent if every answer it gives is a valid one; what is valid
may change, and then the keys it changed for have to be dropped. -/
namespace Memo

variable {Key Value : Type} [DecidableEq Key]

abbrev Table (Key Value : Type) := List (Key × Value)

namespace Table

def get (table : Table Key Value) (key : Key) : Option Value := table.lookup key

def insert (table : Table Key Value) (key : Key) (value : Value) : Table Key Value :=
  (key, value) :: table

def remove (table : Table Key Value) (key : Key) : Table Key Value :=
  table.filter fun entry => entry.1 ≠ key

/-- Every remembered answer is valid. -/
def Coherent (Valid : Key → Value → Prop) (table : Table Key Value) : Prop :=
  ∀ key value, table.get key = some value → Valid key value

variable {Valid Valid' : Key → Value → Prop} {table : Table Key Value}

theorem get_insert_self (key : Key) (value : Value) :
    (table.insert key value).get key = some value := by
  simp [get, insert]

theorem get_insert_other {key key' : Key} (h : key' ≠ key) (value : Value) :
    (table.insert key value).get key' = table.get key' := by
  have hNe : (key' == key) = false := by simpa using h
  simp only [get, insert, List.lookup_cons, hNe]

theorem get_remove (key key' : Key) :
    (table.remove key).get key' = if key' = key then none else table.get key' := by
  unfold get remove
  induction table with
  | nil => simp
  | cons entry rest ih =>
      obtain ⟨k, value⟩ := entry
      by_cases hEntry : k = key
      · subst hEntry
        rw [List.filter_cons_of_neg (by simp), ih, List.lookup_cons]
        by_cases hKey : key' = k
        · simp [hKey]
        · simp [hKey, beq_false_of_ne hKey]
      · rw [List.filter_cons_of_pos (by simpa using hEntry), List.lookup_cons, List.lookup_cons, ih]
        by_cases hKey : key' = k
        · subst hKey
          simp [hEntry]
        · simp [beq_false_of_ne hKey]

/-- A table whose values are changed key by key. -/
theorem get_map (change : Key → Value → Value) (key : Key) :
    Table.get (table.map fun entry => (entry.1, change entry.1 entry.2)) key =
      (table.get key).map (change key) := by
  unfold get
  induction table with
  | nil => rfl
  | cons entry rest ih =>
      rw [List.map_cons, List.lookup_cons, List.lookup_cons, ih]
      cases hKey : key == entry.1 with
      | true =>
          rw [beq_iff_eq] at hKey
          rw [hKey]
          rfl
      | false => rfl

theorem coherent_nil : Coherent Valid ([] : Table Key Value) := by
  intro key value h
  simp [get] at h

theorem Coherent.insert (h : table.Coherent Valid) {key : Key} {value : Value}
    (hValid : Valid key value) : (table.insert key value).Coherent Valid := by
  intro key' value' hLookup
  by_cases hKey : key' = key
  · subst hKey
    rw [get_insert_self, Option.some.injEq] at hLookup
    exact hLookup ▸ hValid
  · rw [get_insert_other hKey] at hLookup
    exact h key' value' hLookup

/-- Dropping a key is enough if the answers of the other keys stay valid. -/
theorem Coherent.remove (h : table.Coherent Valid) {key : Key}
    (hSame : ∀ key' value, key' ≠ key → Valid key' value → Valid' key' value) :
    (table.remove key).Coherent Valid' := by
  intro key' value hLookup
  rw [get_remove] at hLookup
  split at hLookup
  · cases hLookup
  · next hKey => exact hSame key' value hKey (h key' value hLookup)

theorem Coherent.and (h : table.Coherent Valid) (h' : table.Coherent Valid') :
    table.Coherent fun key value => Valid key value ∧ Valid' key value :=
  fun key value hLookup => ⟨h key value hLookup, h' key value hLookup⟩

theorem Coherent.mono (h : table.Coherent Valid)
    (hSame : ∀ key value, Valid key value → Valid' key value) : table.Coherent Valid' :=
  fun key value hLookup => hSame key value (h key value hLookup)

end Table

end Memo
