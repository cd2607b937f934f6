import SentinelCore.Py.Base64
import Mathlib.Data.List.Sort
import Mathlib.Data.Nat.Digits.Defs

/-!
# JSON values and `json.dumps`

The values `json.loads` produces. An object keeps its members in insertion order; `wellFormed` says
that no key occurs twice in any object of the value, which holds of every Python `dict`. A float is
named by the text `float.__repr__` gives it.

`dumps` is `json.dumps(value, ensure_ascii=False, sort_keys=True, separators=(",", ":"))`. It fails
on a value nested deeper than the interpreter recurses and on an integer with more digits than the
interpreter prints; otherwise the result is `Json.text`.
-/

namespace Py

/-! ## Values -/

/-- The shapes of `float.__repr__`, with the spellings `json` uses for the special values. -/
def isFloatText (t : PyStr) : Bool :=
  t = lit "NaN" || t = lit "Infinity" || t = lit "-Infinity" ||
    (t.all (fun c => isAsciiDigit c || c = chr '-' || c = chr '+' || c = chr '.' || c = chr 'e') &&
      (t.head?.any fun c => isAsciiDigit c || c = chr '-') &&
      t.any fun c => c = chr '.' || c = chr 'e')

/-- A float, named by its text. -/
structure PyFloat where
  text : PyStr
  shape : isFloatText text = true
  deriving DecidableEq

inductive Json where
  | null
  | bool (b : Bool)
  | int (i : ℤ)
  | float (x : PyFloat)
  | str (s : PyStr)
  | arr (items : List Json)
  | obj (fields : List (PyStr × Json))

namespace Json

theorem induct {P : Json → Prop} (null : P .null) (bool : ∀ b, P (.bool b))
    (int : ∀ i, P (.int i)) (float : ∀ x, P (.float x)) (str : ∀ s, P (.str s))
    (arr : ∀ items, (∀ v ∈ items, P v) → P (.arr items))
    (obj : ∀ fields, (∀ kv ∈ fields, P kv.2) → P (.obj fields)) : ∀ v, P v := by
  intro v
  refine @Json.rec P (fun items => ∀ v ∈ items, P v) (fun fields => ∀ kv ∈ fields, P kv.2)
    (fun kv => P kv.2)
    null bool int float str arr obj ?_ ?_ ?_ ?_ (fun _ _ h => h) v
  · simp
  · intro head tail hh ht
    exact List.forall_mem_cons.mpr ⟨hh, ht⟩
  · simp
  · intro head tail hh ht
    exact List.forall_mem_cons.mpr ⟨hh, ht⟩

mutual

def decEq : (v w : Json) → Decidable (v = w)
  | .null, .null => .isTrue rfl
  | .bool a, .bool b => if h : a = b then .isTrue (by rw [h]) else .isFalse (by simpa using h)
  | .int a, .int b => if h : a = b then .isTrue (by rw [h]) else .isFalse (by simpa using h)
  | .float a, .float b => if h : a = b then .isTrue (by rw [h]) else .isFalse (by simpa using h)
  | .str a, .str b => if h : a = b then .isTrue (by rw [h]) else .isFalse (by simpa using h)
  | .arr a, .arr b =>
    match decEqItems a b with
    | .isTrue h => .isTrue (by rw [h])
    | .isFalse h => .isFalse (by simpa using h)
  | .obj a, .obj b =>
    match decEqFields a b with
    | .isTrue h => .isTrue (by rw [h])
    | .isFalse h => .isFalse (by simpa using h)
  | .null, .bool _ | .null, .int _ | .null, .float _ | .null, .str _ | .null, .arr _
  | .null, .obj _ | .bool _, .null | .bool _, .int _ | .bool _, .float _ | .bool _, .str _
  | .bool _, .arr _ | .bool _, .obj _ | .int _, .null | .int _, .bool _ | .int _, .float _
  | .int _, .str _ | .int _, .arr _ | .int _, .obj _ | .float _, .null | .float _, .bool _
  | .float _, .int _ | .float _, .str _ | .float _, .arr _ | .float _, .obj _ | .str _, .null
  | .str _, .bool _ | .str _, .int _ | .str _, .float _ | .str _, .arr _ | .str _, .obj _
  | .arr _, .null | .arr _, .bool _ | .arr _, .int _ | .arr _, .float _ | .arr _, .str _
  | .arr _, .obj _ | .obj _, .null | .obj _, .bool _ | .obj _, .int _ | .obj _, .float _
  | .obj _, .str _ | .obj _, .arr _ => .isFalse (by simp)

def decEqItems : (v w : List Json) → Decidable (v = w)
  | [], [] => .isTrue rfl
  | [], _ :: _ => .isFalse (by simp)
  | _ :: _, [] => .isFalse (by simp)
  | v :: vs, w :: ws =>
    match decEq v w, decEqItems vs ws with
    | .isTrue h, .isTrue h' => .isTrue (by rw [h, h'])
    | .isFalse h, _ => .isFalse (by simp [h])
    | _, .isFalse h => .isFalse (by simp [h])

def decEqFields : (v w : List (PyStr × Json)) → Decidable (v = w)
  | [], [] => .isTrue rfl
  | [], _ :: _ => .isFalse (by simp)
  | _ :: _, [] => .isFalse (by simp)
  | (k, v) :: vs, (l, w) :: ws =>
    match decEq v w, decEqFields vs ws with
    | .isTrue h, .isTrue h' =>
      if hk : k = l then .isTrue (by rw [hk, h, h']) else .isFalse (by simp [hk])
    | .isFalse h, _ => .isFalse (by simp [h])
    | _, .isFalse h => .isFalse (by simp [h])

end

instance : DecidableEq Json := decEq

mutual

/-- How deep the containers of a value nest. -/
def depth : Json → ℕ
  | .arr items => depthItems items + 1
  | .obj fields => depthFields fields + 1
  | .null | .bool _ | .int _ | .float _ | .str _ => 0

def depthItems : List Json → ℕ
  | [] => 0
  | v :: rest => max (depth v) (depthItems rest)

def depthFields : List (PyStr × Json) → ℕ
  | [] => 0
  | (_, v) :: rest => max (depth v) (depthFields rest)

end

mutual

/-- No object of the value has a key twice. -/
def wellFormed : Json → Bool
  | .arr items => wellFormedItems items
  | .obj fields => decide (fields.map Prod.fst).Nodup && wellFormedFields fields
  | .null | .bool _ | .int _ | .float _ | .str _ => true

def wellFormedItems : List Json → Bool
  | [] => true
  | v :: rest => wellFormed v && wellFormedItems rest

def wellFormedFields : List (PyStr × Json) → Bool
  | [] => true
  | (_, v) :: rest => wellFormed v && wellFormedFields rest

end

/-- The interpreter converts integers of at most 4300 digits from and to text. -/
def intDigitsLimit : ℕ := 4300

def isPrintable (i : ℤ) : Bool := i.natAbs < 10 ^ intDigitsLimit

mutual

/-- Every integer of the value can be printed. -/
def intsPrintable : Json → Bool
  | .int i => isPrintable i
  | .arr items => intsPrintableItems items
  | .obj fields => intsPrintableFields fields
  | .null | .bool _ | .float _ | .str _ => true

def intsPrintableItems : List Json → Bool
  | [] => true
  | v :: rest => intsPrintable v && intsPrintableItems rest

def intsPrintableFields : List (PyStr × Json) → Bool
  | [] => true
  | (_, v) :: rest => intsPrintable v && intsPrintableFields rest

end

theorem depthItems_le {items : List Json} {n : ℕ} :
    depthItems items ≤ n ↔ ∀ v ∈ items, v.depth ≤ n := by
  induction items with
  | nil => simp [depthItems]
  | cons v rest ih => simp [depthItems, ih]

theorem depthFields_le {fields : List (PyStr × Json)} {n : ℕ} :
    depthFields fields ≤ n ↔ ∀ kv ∈ fields, kv.2.depth ≤ n := by
  induction fields with
  | nil => simp [depthFields]
  | cons kv rest ih => simp [depthFields, ih]

theorem wellFormedItems_iff {items : List Json} :
    wellFormedItems items = true ↔ ∀ v ∈ items, v.wellFormed = true := by
  induction items with
  | nil => simp [wellFormedItems]
  | cons v rest ih => simp [wellFormedItems, ih]

theorem wellFormedFields_iff {fields : List (PyStr × Json)} :
    wellFormedFields fields = true ↔ ∀ kv ∈ fields, kv.2.wellFormed = true := by
  induction fields with
  | nil => simp [wellFormedFields]
  | cons kv rest ih => simp [wellFormedFields, ih]

theorem wellFormed_str (s : PyStr) : (str s).wellFormed = true := by rw [wellFormed]

theorem wellFormed_arr {items : List Json} :
    (arr items).wellFormed = true ↔ ∀ v ∈ items, v.wellFormed = true := by
  rw [wellFormed, wellFormedItems_iff]

theorem wellFormed_obj {fields : List (PyStr × Json)} :
    (obj fields).wellFormed = true ↔
      (fields.map Prod.fst).Nodup ∧ ∀ kv ∈ fields, kv.2.wellFormed = true := by
  rw [wellFormed, Bool.and_eq_true, decide_eq_true_eq, wellFormedFields_iff]

theorem intsPrintableItems_iff {items : List Json} :
    intsPrintableItems items = true ↔ ∀ v ∈ items, v.intsPrintable = true := by
  induction items with
  | nil => simp [intsPrintableItems]
  | cons v rest ih => simp [intsPrintableItems, ih]

theorem intsPrintableFields_iff {fields : List (PyStr × Json)} :
    intsPrintableFields fields = true ↔ ∀ kv ∈ fields, kv.2.intsPrintable = true := by
  induction fields with
  | nil => simp [intsPrintableFields]
  | cons kv rest ih => simp [intsPrintableFields, ih]

end Json

/-! ## Dictionaries -/

section Fields

variable {α : Type}

/-- The value of a key in the members of an object. -/
def getField : List (PyStr × α) → PyStr → Option α
  | [], _ => none
  | (k, v) :: rest, key => if k = key then some v else getField rest key

/-- `fields[key] = value`: the position of an old key is kept, a new key goes last. -/
def setField : List (PyStr × α) → PyStr → α → List (PyStr × α)
  | [], key, value => [(key, value)]
  | (k, v) :: rest, key, value =>
    if k = key then (key, value) :: rest else (k, v) :: setField rest key value

theorem mem_of_getField {fields : List (PyStr × α)} {key : PyStr} {v : α}
    (h : getField fields key = some v) : (key, v) ∈ fields := by
  induction fields with
  | nil => cases h
  | cons kv rest ih =>
    rw [getField] at h
    split_ifs at h with hk
    · cases h; exact List.mem_cons.mpr (.inl (Prod.ext hk.symm rfl))
    · exact List.mem_cons_of_mem _ (ih h)

theorem getField_of_mem {fields : List (PyStr × α)} {key : PyStr} {v : α}
    (hn : (fields.map Prod.fst).Nodup) (h : (key, v) ∈ fields) :
    getField fields key = some v := by
  induction fields with
  | nil => cases h
  | cons kv rest ih =>
    rw [List.map_cons, List.nodup_cons] at hn
    rw [getField]
    rcases List.mem_cons.mp h with rfl | h
    · rw [if_pos rfl]
    · have hk : kv.1 ≠ key := by
        rintro rfl
        exact hn.1 (List.mem_map.mpr ⟨_, h, rfl⟩)
      rw [if_neg hk, ih hn.2 h]

theorem getField_eq_none {fields : List (PyStr × α)} {key : PyStr} :
    getField fields key = none ↔ key ∉ fields.map Prod.fst := by
  induction fields with
  | nil => simp [getField]
  | cons kv rest ih =>
    rw [getField, List.map_cons, List.mem_cons, not_or]
    by_cases hk : kv.1 = key
    · simp [hk]
    · rw [if_neg hk, ih]
      exact ⟨fun h => ⟨fun e => hk e.symm, h⟩, fun h => h.2⟩

theorem getField_setField (fields : List (PyStr × α)) (key k : PyStr) (v : α) :
    getField (setField fields key v) k = if key = k then some v else getField fields k := by
  induction fields with
  | nil => simp [setField, getField]
  | cons kv rest ih =>
    rw [setField]
    by_cases hk : kv.1 = key
    · rw [if_pos hk]
      simp only [getField, hk]
      split_ifs <;> rfl
    · rw [if_neg hk]
      simp only [getField, ih]
      by_cases hk' : kv.1 = k
      · have : key ≠ k := fun e => hk (hk'.trans e.symm)
        simp [hk', this]
      · simp [hk']

theorem setField_keys_subset (fields : List (PyStr × α)) (key : PyStr) (v : α) {k : PyStr}
    (h : k ∈ (setField fields key v).map Prod.fst) : k = key ∨ k ∈ fields.map Prod.fst := by
  by_contra hk
  rw [not_or] at hk
  have := getField_setField fields key k v
  rw [if_neg (fun e => hk.1 e.symm), getField_eq_none.mpr hk.2, getField_eq_none] at this
  exact this h

theorem setField_nodup {fields : List (PyStr × α)} {key : PyStr} {v : α}
    (hn : (fields.map Prod.fst).Nodup) : ((setField fields key v).map Prod.fst).Nodup := by
  induction fields with
  | nil => simp [setField]
  | cons kv rest ih =>
    rw [List.map_cons, List.nodup_cons] at hn
    rw [setField]
    by_cases hk : kv.1 = key
    · rw [if_pos hk, List.map_cons, List.nodup_cons, ← hk]
      exact hn
    · rw [if_neg hk, List.map_cons, List.nodup_cons]
      refine ⟨fun h => ?_, ih hn.2⟩
      rcases setField_keys_subset rest key v h with h | h
      · exact hk h
      · exact hn.1 h

theorem mem_setField {fields : List (PyStr × α)} {key : PyStr} {v : α} {kv : PyStr × α}
    (h : kv ∈ setField fields key v) : kv = (key, v) ∨ kv ∈ fields := by
  induction fields with
  | nil => exact .inl (List.mem_singleton.mp h)
  | cons kv' rest ih =>
    rw [setField] at h
    split_ifs at h with hk
    · rcases List.mem_cons.mp h with h | h
      · exact .inl h
      · exact .inr (List.mem_cons_of_mem _ h)
    · rcases List.mem_cons.mp h with h | h
      · exact .inr (List.mem_cons.mpr (.inl h))
      · exact (ih h).imp_right (List.mem_cons_of_mem _)

end Fields

theorem wellFormed_setField {fields : List (PyStr × Json)} {key : PyStr} {v : Json}
    (hf : (Json.obj fields).wellFormed = true) (hv : v.wellFormed = true) :
    (Json.obj (setField fields key v)).wellFormed = true := by
  rw [Json.wellFormed_obj] at hf ⊢
  refine ⟨setField_nodup hf.1, fun kv hkv => ?_⟩
  rcases mem_setField hkv with rfl | h
  · exact hv
  · exact hf.2 kv h

theorem Json.depth_setField {fields : List (PyStr × Json)} {key : PyStr} {v : Json} {n : ℕ}
    (hf : (Json.obj fields).depth ≤ n) (hv : v.depth + 1 ≤ n) :
    (Json.obj (setField fields key v)).depth ≤ n := by
  cases n with
  | zero => omega
  | succ n =>
    rw [Json.depth, Nat.succ_le_succ_iff, Json.depthFields_le] at hf ⊢
    intro kv hkv
    rcases mem_setField hkv with rfl | h
    · exact Nat.le_of_succ_le_succ hv
    · exact hf kv h

theorem Json.intsPrintable_setField {fields : List (PyStr × Json)} {key : PyStr} {v : Json}
    (hf : (Json.obj fields).intsPrintable = true) (hv : v.intsPrintable = true) :
    (Json.obj (setField fields key v)).intsPrintable = true := by
  rw [Json.intsPrintable, Json.intsPrintableFields_iff] at hf ⊢
  intro kv hkv
  rcases mem_setField hkv with rfl | h
  · exact hv
  · exact hf kv h

/-- A `dict` with string keys. -/
structure Dict where
  fields : List (PyStr × Json)
  wf : (Json.obj fields).wellFormed = true
  deriving DecidableEq

namespace Dict

def toJson (d : Dict) : Json := .obj d.fields

theorem toJson_wellFormed (d : Dict) : d.toJson.wellFormed = true := d.wf

/-- `d.get(key)`, with `none` for a missing key. -/
def get? (d : Dict) (key : PyStr) : Option Json := getField d.fields key

/-- `d.get(key)`. -/
def get (d : Dict) (key : PyStr) : Json := (d.get? key).getD .null

/-- The empty dictionary. -/
def empty : Dict := ⟨[], rfl⟩

/-- The dictionary with one item set. -/
def set (d : Dict) (key : PyStr) (v : Json) (hv : v.wellFormed = true) : Dict :=
  ⟨setField d.fields key v, wellFormed_setField d.wf hv⟩

theorem get?_set (d : Dict) (key k : PyStr) (v : Json) (hv : v.wellFormed = true) :
    (d.set key v hv).get? k = if key = k then some v else d.get? k :=
  getField_setField d.fields key k v

theorem get_set (d : Dict) (key k : PyStr) (v : Json) (hv : v.wellFormed = true) :
    (d.set key v hv).get k = if key = k then v else d.get k := by
  rw [get, get?_set]
  split_ifs <;> rfl

theorem get?_wellFormed {d : Dict} {key : PyStr} {v : Json} (h : d.get? key = some v) :
    v.wellFormed = true :=
  (Json.wellFormed_obj.mp d.wf).2 _ (mem_of_getField h)

theorem get_wellFormed (d : Dict) (key : PyStr) : (d.get key).wellFormed = true := by
  rw [get]
  cases h : d.get? key with
  | none => rfl
  | some v => exact get?_wellFormed h

theorem depth_get_lt (d : Dict) (key : PyStr) : (d.get key).depth < d.toJson.depth := by
  unfold toJson get
  rw [Json.depth, Nat.lt_succ_iff]
  cases h : d.get? key with
  | none => exact Nat.zero_le _
  | some v => exact Json.depthFields_le.mp le_rfl _ (mem_of_getField h)

theorem get_intsPrintable {d : Dict} (h : d.toJson.intsPrintable = true) (key : PyStr) :
    (d.get key).intsPrintable = true := by
  unfold toJson at h
  rw [Json.intsPrintable, Json.intsPrintableFields_iff] at h
  unfold get
  cases hget : d.get? key with
  | none => rfl
  | some v => exact h _ (mem_of_getField hget)

theorem keys_nodup (d : Dict) : (d.fields.map Prod.fst).Nodup := (Json.wellFormed_obj.mp d.wf).1

theorem get?_eq_some {d : Dict} {key : PyStr} {v : Json} :
    d.get? key = some v ↔ (key, v) ∈ d.fields :=
  ⟨mem_of_getField, getField_of_mem d.keys_nodup⟩

/-- Two dictionaries have the same items, in whatever order. -/
theorem perm_iff {d e : Dict} : d.fields.Perm e.fields ↔ ∀ key, d.get? key = e.get? key := by
  rw [List.perm_ext_iff_of_nodup d.keys_nodup.of_map e.keys_nodup.of_map]
  constructor
  · intro h key
    exact Option.ext fun v => by rw [get?_eq_some, get?_eq_some, h]
  · rintro h ⟨key, v⟩
    rw [← get?_eq_some, ← get?_eq_some, h]

end Dict

/-- The value as a `dict`, if it is one. Values of a program are well-formed, so every object is. -/
def Json.toDict? : Json → Option Dict
  | .obj fields => if h : (Json.obj fields).wellFormed = true then some ⟨fields, h⟩ else none
  | .null | .bool _ | .int _ | .float _ | .str _ | .arr _ => none

/-- `value if isinstance(value, dict) else {}`. -/
def Json.dictOrEmpty (v : Json) : Dict := v.toDict?.getD .empty

namespace Dict

theorem toDict?_toJson (d : Dict) : d.toJson.toDict? = some d := dif_pos d.wf

theorem toJson_injective : Function.Injective toJson := by
  rintro ⟨a, ha⟩ ⟨b, hb⟩ h
  obtain rfl := Json.obj.inj h
  rfl

@[simp] theorem get?_empty (key : PyStr) : empty.get? key = none := rfl

@[simp] theorem get_empty (key : PyStr) : empty.get key = .null := rfl

end Dict

namespace Json

theorem toDict?_eq_some {v : Json} {d : Dict} : v.toDict? = some d ↔ v = d.toJson := by
  constructor
  · intro h
    cases v with
    | obj fields =>
      rw [toDict?] at h
      split_ifs at h
      rw [← Option.some.inj h]
      rfl
    | _ => cases h
  · rintro rfl
    exact d.toDict?_toJson

theorem toDict?_eq_none {v : Json} (hv : v.wellFormed = true) :
    v.toDict? = none ↔ ∀ fields, v ≠ .obj fields := by
  cases v with
  | obj fields => simp [toDict?, hv]
  | _ => simp [toDict?]

theorem dictOrEmpty_toJson (d : Dict) : d.toJson.dictOrEmpty = d := by
  unfold dictOrEmpty
  rw [d.toDict?_toJson]
  rfl

end Json

namespace Json

/-- `value if isinstance(value, str) else None`. -/
def str? : Json → Option PyStr
  | .str s => some s
  | _ => none

/-- `bool(value)`. -/
def isTruthy : Json → Bool
  | .null => false
  | .bool b => b
  | .int i => i ≠ 0
  | .float x => x.text ≠ lit "0.0" && x.text ≠ lit "-0.0"
  | .str s => s ≠ []
  | .arr items => items ≠ []
  | .obj fields => fields ≠ []

/-- A string that is not empty. -/
def nonEmptyStr? : Json → Option PyStr
  | .str s => if s = [] then none else some s
  | _ => none

@[simp] theorem str?_eq_some {v : Json} {s : PyStr} : v.str? = some s ↔ v = .str s := by
  cases v <;> simp [str?]

theorem nonEmptyStr?_eq_some {v : Json} {s : PyStr} :
    v.nonEmptyStr? = some s ↔ v = .str s ∧ s ≠ [] := by
  cases v with
  | str t =>
    unfold nonEmptyStr?
    by_cases ht : t = []
    · simp only [ht, if_true, reduceCtorEq, Json.str.injEq, false_iff, not_and, not_not]
      exact Eq.symm
    · simp only [ht, if_false, Option.some.injEq, Json.str.injEq]
      refine ⟨?_, And.left⟩
      rintro rfl
      exact ⟨rfl, ht⟩
  | _ => simp [nonEmptyStr?]

/-- `value if isinstance(value, list) else None`. -/
def items? : Json → Option (List Json)
  | .arr items => some items
  | _ => none

@[simp] theorem items?_eq_some {v : Json} {items : List Json} :
    v.items? = some items ↔ v = .arr items := by
  cases v <;> simp [items?]

/-- `value == d` for a dictionary whose values are strings. -/
def equalsDict (v : Json) (d : Dict) : Bool :=
  match v.toDict? with
  | some e => e.fields.length = d.fields.length &&
      e.fields.all fun kv => d.get? kv.1 = some kv.2
  | none => false

theorem equalsDict_iff {v : Json} {d : Dict} :
    v.equalsDict d = true ↔ ∃ e : Dict, v = e.toJson ∧ ∀ key, e.get? key = d.get? key := by
  simp only [← toDict?_eq_some, ← Dict.perm_iff]
  unfold equalsDict
  cases v.toDict? with
  | none => simp
  | some e =>
    simp only [Bool.and_eq_true, decide_eq_true_eq, List.all_eq_true, Option.some.injEq,
      exists_eq_left']
    constructor
    · rintro ⟨hlength, hall⟩
      refine (List.subperm_of_subset e.keys_nodup.of_map fun kv hkv => ?_).perm_of_length_le
        hlength.ge
      exact Dict.get?_eq_some.mp (hall kv hkv)
    · intro hperm
      exact ⟨hperm.length_eq, fun kv hkv => Dict.get?_eq_some.mpr (hperm.mem_iff.mp hkv)⟩

/-- The items as texts, if every item is a string. -/
def strItems? (items : List Json) : Option (List PyStr) := items.mapM str?

theorem strItems?_eq_some {items : List Json} {texts : List PyStr} :
    strItems? items = some texts ↔ items = texts.map .str := by
  unfold strItems?
  induction items generalizing texts with
  | nil => cases texts <;> simp
  | cons item items ih =>
    rw [List.mapM_cons]
    simp only [Option.bind_eq_bind, Option.bind_eq_some_iff, str?_eq_some, ih, Option.pure_def,
      Option.some.injEq]
    constructor
    · rintro ⟨text, rfl, rest, rfl, rfl⟩
      rfl
    · intro h
      cases texts with
      | nil => cases h
      | cons text rest =>
        obtain ⟨hitem, hrest⟩ := List.cons.inj h
        exact ⟨text, hitem, rest, hrest, rfl⟩

end Json

/-- `value in {…}` for a set of strings. A list or a `dict` cannot be looked up in a set. -/
def Json.inSet (v : Json) (names : List PyStr) : Except PyExc Bool :=
  match v with
  | .str s => .ok (names.contains s)
  | .null | .bool _ | .int _ | .float _ => .ok false
  | .arr _ | .obj _ => .error (.std .typeError .unhashable)

/-- The value used as a `dict`: any other has no attribute `get`. -/
def Json.asDict (v : Json) : Except PyExc Dict :=
  match v.toDict? with
  | some d => .ok d
  | none => .error (.std .attributeError (.noAttribute (lit "get")))

/-- `d[key]`. -/
def Dict.getItem (d : Dict) (key : PyStr) : Except PyExc Json :=
  match d.get? key with
  | some v => .ok v
  | none => .error (.std .keyError (.missingKey key))

/-! ## Text -/

def digitsText (n : ℕ) : PyStr := (Nat.toDigits 10 n).map chr

/-- `int.__repr__`. -/
def intText (i : ℤ) : PyStr :=
  if i < 0 then chr '-' :: digitsText i.natAbs else digitsText i.natAbs

/-- A lowercase hexadecimal digit. -/
def hexDigit (n : ℕ) : CodePoint := if n < 10 then point (0x30 + n) else point (0x61 + (n - 10))

/-- How `json.dumps` writes one character of a string when `ensure_ascii` is off. -/
def escapeChar (c : CodePoint) : PyStr :=
  if c = chr '"' then [chr '\\', chr '"']
  else if c = chr '\\' then [chr '\\', chr '\\']
  else if c = chr '\n' then [chr '\\', chr 'n']
  else if c = chr '\r' then [chr '\\', chr 'r']
  else if c = chr '\t' then [chr '\\', chr 't']
  else if c.val = 0x0C then [chr '\\', chr 'f']
  else if c.val = 0x08 then [chr '\\', chr 'b']
  else if c.val < 0x20 then
    [chr '\\', chr 'u', chr '0', chr '0', hexDigit (c.val / 16), hexDigit (c.val % 16)]
  else [c]

def quoteTail (s : PyStr) : PyStr := s.flatMap escapeChar ++ [chr '"']

/-- A string in quotes. -/
def quote (s : PyStr) : PyStr := chr '"' :: quoteTail s

/-- The texts with `,` between them. -/
def joinComma : List PyStr → PyStr
  | [] => []
  | [t] => t
  | t :: u :: rest => t ++ chr ',' :: joinComma (u :: rest)

/-- `sorted(fields.items())`; the keys are distinct, so the order is that of the keys. -/
def sortFields {α : Type} (fields : List (PyStr × α)) : List (PyStr × α) :=
  fields.insertionSort fun a b => a.1 ≤ b.1

/-- A member of an object. -/
def memberText (kt : PyStr × PyStr) : PyStr := quote kt.1 ++ chr ':' :: kt.2

namespace Json

mutual

/-- The canonical text of a value. -/
def text : Json → PyStr
  | .null => lit "null"
  | .bool true => lit "true"
  | .bool false => lit "false"
  | .int i => intText i
  | .float x => x.text
  | .str s => quote s
  | .arr items => chr '[' :: joinComma (itemTexts items) ++ [chr ']']
  | .obj fields =>
    chr '{' :: joinComma ((sortFields (fieldTexts fields)).map memberText) ++ [chr '}']

def itemTexts : List Json → List PyStr
  | [] => []
  | v :: rest => text v :: itemTexts rest

def fieldTexts : List (PyStr × Json) → List (PyStr × PyStr)
  | [] => []
  | (k, v) :: rest => (k, text v) :: fieldTexts rest

end

theorem itemTexts_eq (items : List Json) : itemTexts items = items.map text := by
  induction items with
  | nil => rfl
  | cons v rest ih => rw [itemTexts, ih, List.map_cons]

theorem fieldTexts_eq (fields : List (PyStr × Json)) :
    fieldTexts fields = fields.map fun kv => (kv.1, kv.2.text) := by
  induction fields with
  | nil => rfl
  | cons kv rest ih => rw [fieldTexts, ih, List.map_cons]

end Json

/-! ## The interpreter -/

/-- What the program sees of the interpreter it runs on. `maxDepth`, `maxDumpDepth`, `maxReprDepth` and
`maxCopyDepth` are how deep `json.loads`, `json.dumps`, `repr` and `copy.deepcopy` recurse into nested
containers before the interpreter stops them; the program writes in deeper frames than its input is read
in. `floatOfText` converts the text of a number; `repr` is `repr` on values that are not strings;
`excText` gives the texts of the library's own exceptions. `nfkc` and `isIpv6` are
`unicodedata.normalize("NFKC", _)` and the address test of `ipaddress`. -/
structure Runtime where
  maxDepth : ℕ
  maxDumpDepth : ℕ
  two_le_maxDumpDepth : 2 ≤ maxDumpDepth
  maxDumpDepth_le : maxDumpDepth ≤ maxDepth
  maxReprDepth : ℕ
  maxCopyDepth : ℕ
  floatOfText : PyStr → PyFloat
  repr : Json → PyStr
  excText : StdCall → PyStr
  nfkc : PyStr → PyStr
  isIpv6 : PyStr → Bool

/-- A float text for sample interpreters. -/
theorem isFloatText_half : isFloatText (lit "0.5") = true := by decide

/-- The nesting that sample interpreters write, and read. -/
theorem two_le_sampleDepth : 2 ≤ 990 := by decide

theorem sampleDepth_le : 990 ≤ 994 := by decide

namespace Runtime

variable (rt : Runtime)

/-- `str(exc)`. -/
def strExc (e : PyExc) : PyStr :=
  match e.text with
  | .text message => message
  | .std call => rt.excText call

/-- The failures of writing a value out that nests to at most `limit`: the recursion limit, and an
integer too long to print. -/
def limitsOf (limit : ℕ) (call : StdCall) (v : Json) : Except PyExc Unit :=
  if limit < v.depth then .error (.std .recursionError call)
  else if v.intsPrintable then .ok ()
  else .error (.std .valueError .strOfInt)

/-- The failures of `json.dumps`. -/
def checkLimits (v : Json) : Except PyExc Unit := limitsOf rt.maxDumpDepth .jsonDumps v

/-- `str(value)`. -/
def strJson (v : Json) : Except PyExc PyStr :=
  match v with
  | .str s => .ok s
  | .null | .bool _ | .int _ | .float _ | .arr _ | .obj _ => do
    limitsOf rt.maxReprDepth .repr v
    return rt.repr v

/-- `json.dumps(value, ensure_ascii=False, sort_keys=True, separators=(",", ":"))`. -/
def dumps (v : Json) : Except PyExc PyStr := do
  rt.checkLimits v
  return v.text

/-- The values `json.loads` can produce. -/
def Loadable (v : Json) : Prop :=
  v.wellFormed = true ∧ v.depth ≤ rt.maxDepth ∧ v.intsPrintable = true

instance (v : Json) : Decidable (rt.Loadable v) := by unfold Loadable; infer_instance

theorem limitsOf_ok {limit : ℕ} {call : StdCall} {v : Json} :
    limitsOf limit call v = .ok () ↔ v.depth ≤ limit ∧ v.intsPrintable = true := by
  unfold limitsOf
  split_ifs with h1 h2
  · simp; omega
  · simp [h2]; omega
  · simp [h2]

theorem checkLimits_ok {v : Json} :
    rt.checkLimits v = .ok () ↔ v.depth ≤ rt.maxDumpDepth ∧ v.intsPrintable = true := limitsOf_ok

theorem dumps_ok {v : Json} {t : PyStr} :
    rt.dumps v = .ok t ↔ rt.checkLimits v = .ok () ∧ v.text = t := by
  unfold dumps
  cases rt.checkLimits v with
  | error e => simp [bind, Except.bind]
  | ok u => simp [bind, Except.bind, pure, Except.pure]

end Runtime

end Py
