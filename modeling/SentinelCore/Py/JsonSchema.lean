import SentinelCore.Py.Json

/-!
# JSON Schema

The part of JSON Schema (draft 2020-12) that schemas for flat records use. A schema has assertions
about the value itself and schemas for members of an object; `Valid` says which values conform. `format`
is an annotation and not checked. Patterns are those of `re`, as in the package `jsonschema`.

`violations` lists what a value violates, and `violations_eq_nil` says that it is empty for exactly the
values that conform.
-/

namespace Py

inductive TypeName where
  | string
  | object
  deriving DecidableEq

/-- The pattern `^head[class]{count}$`. -/
structure Pattern where
  head : PyStr
  isMember : CodePoint → Bool
  count : ℕ

/-- The text as a whole has the form. -/
def Pattern.fullmatch (p : Pattern) (text : PyStr) : Bool :=
  startsWith text p.head && (text.drop p.head.length).length = p.count &&
    (text.drop p.head.length).all p.isMember

/-- `re.search(pattern, text)`; `$` also matches before a line break that ends the text. -/
def Pattern.search (p : Pattern) (text : PyStr) : Bool :=
  p.fullmatch text || (text.getLast? = some (chr '\n') && p.fullmatch text.dropLast)

/-- What a schema asserts of a value. `required` is about one key, and `noAdditional` names the
keys that `additionalProperties: false` leaves. -/
inductive Assertion where
  | type (name : TypeName)
  | const (value : PyStr)
  | enum (values : List PyStr)
  | minLength (length : ℕ)
  | pattern (p : Pattern)
  | required (key : PyStr)
  | noAdditional (known : List PyStr)

/-- Only `type` fits values of every type; the others ask nothing of a value of another type. -/
def Assertion.holds : Assertion → Json → Bool
  | .type .string, .str _ | .type .object, .obj _ => true
  | .type _, _ => false
  | .const value, v => v = .str value
  | .enum values, v => values.any fun value => v = .str value
  | .minLength length, .str s => length ≤ s.length
  | .pattern p, .str s => p.search s
  | .required key, .obj fields => (getField fields key).isSome
  | .noAdditional known, .obj fields => fields.all fun kv => known.contains kv.1
  | _, _ => true

/-- The assertions come before those of the members. -/
inductive Schema where
  | mk (assertions : List Assertion) (properties : List (PyStr × Schema))

/-- An error of a validator: where it is, and what it says. -/
structure SchemaError where
  path : List PyStr
  message : PyStr

/-- The error seen from the object that has the value as a member. -/
def SchemaError.under (name : PyStr) (e : SchemaError) : SchemaError :=
  { e with path := name :: e.path }

/-- The errors of the value itself, with their messages. -/
def ownErrors (message : Assertion → Json → PyStr) (assertions : List Assertion) (v : Json) : List SchemaError :=
  (assertions.filter fun a => !a.holds v).map fun a => ⟨[], message a v⟩

/-- The value of a key, if the value is an object that has it. -/
def Json.member? : Json → PyStr → Option Json
  | .obj fields, key => getField fields key
  | _, _ => none

namespace Schema

variable (message : Assertion → Json → PyStr)

mutual

/-- What the value violates, each with its message. -/
def violations : Schema → Json → List SchemaError
  | .mk assertions properties, v => ownErrors message assertions v ++ propertyErrors properties v

def propertyErrors : List (PyStr × Schema) → Json → List SchemaError
  | [], _ => []
  | (name, schema) :: rest, v =>
    (match v.member? name with
      | some w => (violations schema w).map (SchemaError.under name)
      | none => []) ++ propertyErrors rest v

end

variable {message}

theorem induct {P : Schema → Prop} (mk : ∀ assertions properties,
    (∀ kv ∈ properties, P kv.2) → P (.mk assertions properties)) : ∀ s, P s := by
  intro s
  refine @Schema.rec P (fun properties => ∀ kv ∈ properties, P kv.2) (fun kv => P kv.2) mk ?_ ?_ (fun _ _ h => h) s
  · simp
  · intro head tail hh ht
    exact List.forall_mem_cons.mpr ⟨hh, ht⟩

theorem mem_propertyErrors {properties : List (PyStr × Schema)} {v : Json} {e : SchemaError} :
    e ∈ propertyErrors message properties v ↔
      ∃ kv ∈ properties, ∃ w, v.member? kv.1 = some w ∧
        ∃ e' ∈ kv.2.violations message w, e'.under kv.1 = e := by
  induction properties with
  | nil => simp [propertyErrors]
  | cons kv rest ih =>
    rw [propertyErrors, List.mem_append, ih, List.exists_mem_cons_iff]
    refine or_congr ?_ Iff.rfl
    cases v.member? kv.1 with
    | none => simp
    | some w => simp

/-- The value conforms to the schema. -/
inductive Valid : Schema → Json → Prop
  | mk {assertions : List Assertion} {properties : List (PyStr × Schema)} {v : Json}
      (own : ∀ a ∈ assertions, a.holds v = true)
      (members : ∀ kv ∈ properties, ∀ w, v.member? kv.1 = some w → Valid kv.2 w) :
      Valid (.mk assertions properties) v

theorem valid_mk {assertions : List Assertion} {properties : List (PyStr × Schema)} {v : Json} :
    Valid (.mk assertions properties) v ↔
      (∀ a ∈ assertions, a.holds v = true) ∧
        ∀ kv ∈ properties, ∀ w, v.member? kv.1 = some w → Valid kv.2 w := by
  constructor
  · rintro ⟨own, members⟩
    exact ⟨own, members⟩
  · rintro ⟨own, members⟩
    exact .mk own members

theorem ownErrors_eq_nil {assertions : List Assertion} {v : Json} :
    ownErrors message assertions v = [] ↔ ∀ a ∈ assertions, a.holds v = true := by
  simp [ownErrors]

theorem propertyErrors_eq_nil {properties : List (PyStr × Schema)} {v : Json} :
    propertyErrors message properties v = [] ↔
      ∀ kv ∈ properties, ∀ w, v.member? kv.1 = some w → kv.2.violations message w = [] := by
  simp only [List.eq_nil_iff_forall_not_mem, mem_propertyErrors]
  constructor
  · intro h kv hkv w hw e he
    exact h (e.under kv.1) ⟨kv, hkv, w, hw, e, he, rfl⟩
  · rintro h e ⟨kv, hkv, w, hw, e', he', -⟩
    exact h kv hkv w hw e' he'

/-- **A value has no errors exactly when it conforms.** -/
theorem violations_eq_nil {schema : Schema} {v : Json} :
    schema.violations message v = [] ↔ schema.Valid v := by
  induction schema using Schema.induct generalizing v with
  | mk assertions properties ih =>
    rw [violations, List.append_eq_nil_iff, ownErrors_eq_nil, propertyErrors_eq_nil, valid_mk]
    refine and_congr_right fun _ => ?_
    constructor
    · intro h kv hkv w hw
      exact (ih kv hkv).mp (h kv hkv w hw)
    · intro h kv hkv w hw
      exact (ih kv hkv).mpr (h kv hkv w hw)

/-- A string with further assertions. -/
def string (assertions : List Assertion) : Schema := .mk (.type .string :: assertions) []

/-- An object with exactly the given members. -/
def record (properties : List (PyStr × Schema)) : Schema :=
  .mk (.type .object :: .noAdditional (properties.map Prod.fst) ::
    properties.map fun kv => .required kv.1) properties

theorem valid_string {assertions : List Assertion} {v : Json} :
    (string assertions).Valid v ↔ ∃ s, v = .str s ∧ ∀ a ∈ assertions, a.holds v = true := by
  rw [string, valid_mk]
  simp only [List.forall_mem_cons, List.not_mem_nil, false_implies, implies_true, and_true]
  cases v <;> simp [Assertion.holds]

theorem valid_record {properties : List (PyStr × Schema)} {v : Json} :
    (record properties).Valid v ↔ ∃ fields, v = .obj fields ∧
      (∀ kv ∈ fields, kv.1 ∈ properties.map Prod.fst) ∧
      ∀ kv ∈ properties, ∃ w, getField fields kv.1 = some w ∧ kv.2.Valid w := by
  rw [record, valid_mk]
  simp only [List.forall_mem_cons, List.forall_mem_map]
  cases v with
  | obj fields =>
    simp only [Assertion.holds, Json.member?, true_and, List.all_eq_true, List.contains_iff_mem,
      Option.isSome_iff_exists, Json.obj.injEq, exists_eq_left', and_assoc]
    refine and_congr_right fun _ => ?_
    constructor
    · rintro ⟨hrequired, hmembers⟩ kv hkv
      obtain ⟨w, hw⟩ := hrequired kv hkv
      exact ⟨w, hw, hmembers kv hkv w hw⟩
    · intro h
      refine ⟨fun kv hkv => (h kv hkv).imp fun w hw => hw.1, fun kv hkv w hw => ?_⟩
      obtain ⟨w', hw', hvalid⟩ := h kv hkv
      rwa [Option.some.inj (hw.symm.trans hw')]
  | _ => simp [Assertion.holds]

end Schema

end Py
