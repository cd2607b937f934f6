import SentinelCore.Py.Json

/-!
# Values filed under a text of theirs

The dictionary `{key(value): value for value in values}`: every value is filed under its own key, a
later value takes the place of an earlier one with the same key.
-/

namespace Py

structure Filed {α : Type} (key : α → PyStr) where
  fields : List (PyStr × α)
  distinct : (fields.map Prod.fst).Nodup
  filed : ∀ kv ∈ fields, key kv.2 = kv.1

namespace Filed

variable {α : Type} {key : α → PyStr}

def empty : Filed key := ⟨[], List.nodup_nil, by simp⟩

/-- `fields.get(k)`. -/
def find? (r : Filed key) (k : PyStr) : Option α := getField r.fields k

/-- `fields[key(value)] = value`. -/
def add (r : Filed key) (value : α) : Filed key where
  fields := setField r.fields (key value) value
  distinct := setField_nodup r.distinct
  filed := fun kv hkv => by
    rcases mem_setField hkv with rfl | h
    · rfl
    · exact r.filed kv h

theorem key_of_find? {r : Filed key} {k : PyStr} {value : α} (h : r.find? k = some value) :
    key value = k :=
  r.filed _ (mem_of_getField h)

def ofList (values : List α) : Filed key := values.foldl add empty

theorem find?_add (r : Filed key) (value : α) (k : PyStr) :
    (r.add value).find? k = if key value = k then some value else r.find? k :=
  getField_setField r.fields (key value) k value

theorem find?_foldl_add (values : List α) (r : Filed key) (k : PyStr) :
    (values.foldl add r).find? k = (values.reverse.find? (key · = k)).or (r.find? k) := by
  induction values generalizing r with
  | nil => rfl
  | cons value rest ih =>
    rw [List.foldl_cons, ih, find?_add, List.reverse_cons, List.find?_append, Option.or_assoc]
    congr 1
    by_cases h : key value = k
    · simp [h]
    · simp [h]

/-- The last value with the key counts. -/
theorem find?_ofList (values : List α) (k : PyStr) :
    (ofList values : Filed key).find? k = values.reverse.find? (key · = k) := by
  rw [ofList, find?_foldl_add]
  exact Option.or_none

theorem mem_of_find?_ofList {values : List α} {k : PyStr} {value : α}
    (h : (ofList values : Filed key).find? k = some value) : value ∈ values := by
  rw [find?_ofList] at h
  exact List.mem_reverse.mp (List.mem_of_find?_eq_some h)

end Filed

end Py
