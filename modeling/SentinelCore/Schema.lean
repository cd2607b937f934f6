import SentinelCore.Hashchain

/-!
# The schema of evidence records

`sentinel_core/schema.py` with `schemas/evidence.schema.json`. A record that does not conform is
refused with the first of its errors in the order of their paths.
-/

namespace Sentinel

open Py Lib

/-- `^sha256:[a-f0-9]{64}$`. -/
def digestPattern : Pattern := ⟨lit "sha256:", isLowerHex, 64⟩

def signatureSchema : Schema := .record [
  (lit "alg", .string [.enum [lit "ES256", lit "EdDSA"]]),
  (lit "key_id", .string [.minLength 1]),
  (lit "value", .string [.minLength 16])]

/-- `evidence.schema.json`. -/
def evidenceSchema : Schema := .record [
  (lit "schema_version", .string [.const (lit "0.1.0")]),
  (lit "evidence_id", .string [.minLength 8]),
  (lit "issued_at", .string []),
  (lit "source", .string [.minLength 1]),
  (lit "artifact_hash", .string [.pattern digestPattern]),
  (lit "previous_hash", .string [.pattern digestPattern]),
  (lit "policy_id", .string [.minLength 1]),
  (lit "decision", .string
    [.enum [lit "allow", lit "deny", lit "review", lit "quarantine"]]),
  (lit "signature", signatureSchema)]

/-- The record conforms to the schema. -/
def Conforms (record : Dict) : Prop := evidenceSchema.Valid record.toJson

/-- `sorted(errors, key=lambda error: list(error.path))`. -/
def sortErrors (errors : List SchemaError) : List SchemaError :=
  errors.insertionSort fun a b => a.path ≤ b.path

/-- `"/".join(str(part) for part in first.path) or "<root>"`. -/
def location (first : SchemaError) : PyStr :=
  if first.path = [] then lit "<root>" else (lit "/").intercalate first.path

variable (env : Env)

def validateEvidenceSchema (record : Dict) : Except PyExc Unit := do
  let errors ← env.iterErrors evidenceSchema record.toJson
  match sortErrors errors with
  | [] => return ()
  | first :: _ =>
    .error (.raised (.derived "SchemaValidationError")
      (lit "Schema validation failed at " ++ location first ++ lit ": " ++ first.message))

/-! ## Conforming records -/

/-- A record that conforms has a signature value. -/
theorem Conforms.signature {record : Dict} (h : Conforms record) :
    ∃ (signature : Dict) (value : PyStr), record.get (lit "signature") = signature.toJson ∧
      signature.get (lit "value") = .str value ∧ 16 ≤ value.length := by
  obtain ⟨fields, hrecord, -, hmembers⟩ := Schema.valid_record.mp h
  obtain rfl := Json.obj.inj hrecord
  obtain ⟨w, hw, hvalid⟩ := hmembers (lit "signature", signatureSchema) (by simp)
  obtain ⟨signatureFields, rfl, -, hparts⟩ := Schema.valid_record.mp hvalid
  obtain ⟨v, hv, hvalid⟩ := hparts (lit "value", .string [.minLength 16]) (by simp)
  obtain ⟨value, rfl, hlength⟩ := Schema.valid_string.mp hvalid
  have hlength : 16 ≤ value.length := by
    simpa [Assertion.holds] using hlength
  have hwf : (Json.obj signatureFields).wellFormed = true := Dict.get?_wellFormed hw
  refine ⟨⟨signatureFields, hwf⟩, value, ?_, ?_, hlength⟩
  · unfold Dict.get Dict.get?
    rw [hw]
    rfl
  · unfold Dict.get Dict.get?
    rw [hv]
    rfl

variable {env}

theorem sortErrors_eq_nil {errors : List SchemaError} : sortErrors errors = [] ↔ errors = [] := by
  rw [← List.length_eq_zero_iff, sortErrors, List.length_insertionSort, List.length_eq_zero_iff]

theorem validateEvidenceSchema_ok {record : Dict} :
    validateEvidenceSchema env record = .ok () ↔ Conforms record := by
  unfold validateEvidenceSchema Conforms
  rw [← env.iterErrors_ok_nil, bind_eq_ok]
  constructor
  · rintro ⟨errors, herrors, h⟩
    cases hs : sortErrors errors with
    | nil => rw [herrors, sortErrors_eq_nil.mp hs]
    | cons first rest => rw [hs] at h; cases h
  · intro h
    exact ⟨[], h, rfl⟩

/-- The errors that are listed are reported; what cannot be listed escapes. -/
theorem validateEvidenceSchema_escapes_iff {record : Dict} :
    (∃ e, validateEvidenceSchema env record = .error e ∧ e.cls ≠ .derived "SchemaValidationError") ↔
      ¬∃ errors, env.iterErrors evidenceSchema record.toJson = .ok errors := by
  unfold validateEvidenceSchema
  constructor
  · rintro ⟨e, he, hother⟩ ⟨errors, herrors⟩
    rw [herrors] at he
    rcases bind_eq_error.mp he with he | ⟨_, hok, he⟩
    · cases he
    obtain rfl := Except.ok.inj hok
    cases hs : sortErrors errors with
    | nil => rw [hs] at he; cases he
    | cons first rest =>
      rw [hs] at he
      obtain rfl := Except.error.inj he
      exact hother rfl
  · intro hnone
    cases hi : env.iterErrors evidenceSchema record.toJson with
    | ok errors => exact absurd ⟨errors, hi⟩ hnone
    | error e => exact ⟨e, rfl, env.iterErrors_raises hi _⟩

end Sentinel
