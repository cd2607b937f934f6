import SentinelCore.ReceiptGuarantees

/-!
# When receipt verification raises

`verifyReceipt` turns most malformed input into issues, but six kinds of input escape as an
exception: a release class that cannot be looked up in a set, a payload with a lone surrogate, one
nested too deep for the JSON encoder, a `created_at` or a key bound whose conversion to UTC leaves the
supported years, and a protected header nested too deep for the JSON decoder.
`verifyReceipt_returns_iff` says that, over well-formed keys, there is no other.
-/

namespace Sentinel.Receipt

open Py Lib

variable {env : Env}

/-! ## Where the exceptions come from -/

theorem parseRfc3339Utc_leavesYears {text : PyStr} :
    (∃ e, parseRfc3339Utc text = .error e ∧ e.cls.isValueError = false) ↔ LeavesYears text := by
  unfold parseRfc3339Utc LeavesYears
  cases hd : fromisoformat (replaceZulu text) with
  | error e =>
    refine ⟨?_, ?_⟩
    · rintro ⟨e', he', hv⟩
      obtain rfl := Except.error.inj he'
      rw [fromisoformat_error hd] at hv
      cases hv
    · rintro ⟨d, offset, h, -⟩
      cases h
  | ok d =>
    simp only [Except.ok.injEq, exists_and_left, exists_eq_left', bind, Except.bind]
    cases ho : d.offset with
    | none =>
      refine ⟨?_, ?_⟩
      · rintro ⟨e', he', hv⟩
        obtain rfl := Except.error.inj he'
        cases hv
      · rintro ⟨offset, h, -⟩
        cases h
    | some offset =>
      simp only [Option.some.injEq, exists_eq_left']
      unfold astimezoneUtc
      cases Instant.ofMicros? (d.wall.micros - offset) with
      | none => simp [PyExc.std, ExcClass.isValueError]
      | some t => simp

/-- The protected header is a text that nests deeper than the JSON decoder recurses. -/
def TooDeep (env : Env) (protectedText : PyStr) : Prop :=
  ∃ data text e, b64urlDecode protectedText = .ok data ∧ decodeUtf8 data = .ok text ∧
    loads env.toRuntime text = .error e ∧ e.cls = .recursionError

/-- A bound of the key, looked at in turn, leaves the supported years. -/
def WindowLeavesYears (trustKey : Dict) (createdAt : Instant) : Prop :=
  (∃ text, trustKey.get (lit "not_before") = .str text ∧ LeavesYears text) ∨
    Permits (trustKey.get (lit "not_before")) (fun notBefore => ¬createdAt < notBefore) ∧
      ∃ text, trustKey.get (lit "not_after") = .str text ∧ LeavesYears text

/-- `created_at` is a UTC timestamp that parses to the moment. -/
def ReadsCreatedAt (receipt : Dict) (t : Instant) : Prop :=
  ∃ text, receipt.get (lit "created_at") = .str text ∧ endsWith text (lit "Z") = true ∧
    parseRfc3339Utc text = .ok t

/-- The entry meets one of the two failures that no `except` clause catches. -/
def EntryRaises (env : Env) (receipt registry : Dict) (signature : Dict) : Prop :=
  ∃ trustKey kid signerRole, Registered registry signature trustKey kid signerRole ∧
    ((∃ t, ReadsCreatedAt receipt t ∧ WindowLeavesYears trustKey t) ∨
      (∀ t, ReadsCreatedAt receipt t → WindowPermits trustKey t) ∧
        ∃ protectedText payload value, HasParts signature protectedText payload value ∧
          TooDeep env protectedText)

/-- The canonical payload. -/
def payloadText (receipt : Dict) : PyStr := (unsignedReceipt receipt).text

/-- Whether a value can be looked up in a set. -/
def isHashable : Json → Bool
  | .arr _ | .obj _ => false
  | .null | .bool _ | .int _ | .float _ | .str _ => true

/-- `created_at` ends in `Z`, and is a timestamp that leaves the supported years. -/
def CreatedAtLeavesYears (receipt : Dict) : Prop :=
  ∃ text, receipt.get (lit "created_at") = .str text ∧ endsWith text (lit "Z") = true ∧
    LeavesYears text

theorem checkCreatedAt_returns_iff (env : Env) (receipt : Dict) :
    (∃ createdAt issues, checkCreatedAt env (receipt.get (lit "created_at")) = .ok (createdAt, issues)) ↔
      ¬CreatedAtLeavesYears receipt := by
  unfold CreatedAtLeavesYears
  cases hv : receipt.get (lit "created_at") with
  | str text =>
    simp only [Json.str.injEq, exists_eq_left', ← parseRfc3339Utc_leavesYears]
    unfold checkCreatedAt
    dsimp only
    by_cases hz : endsWith text (lit "Z") = true
    · rw [if_pos hz, and_iff_right hz]
      cases hp : parseRfc3339Utc text with
      | ok t => exact iff_of_true ⟨some t, [], rfl⟩ (by rintro ⟨e, he, -⟩; cases he)
      | error e =>
        by_cases hvalue : e.cls.isValueError = true
        · refine iff_of_true ⟨none, [errorIssue "CREATED_AT_INVALID" (env.strExc e)], if_pos hvalue⟩ ?_
          rintro ⟨e', he, hother⟩
          obtain rfl := Except.error.inj he
          rw [hvalue] at hother
          cases hother
        · refine iff_of_false ?_ (not_not.mpr ⟨e, rfl, eq_false_of_ne_true hvalue⟩)
          rintro ⟨createdAt, issues, h⟩
          cases (if_neg hvalue).symm.trans h
    · rw [if_neg hz]
      exact iff_of_true ⟨none, _, rfl⟩ fun h => hz h.1
  | _ => exact iff_of_true ⟨none, _, rfl⟩ (by rintro ⟨text, h, -⟩; cases h)

theorem checkCreatedAt_reads {receipt : Dict} {createdAt : Option Instant}
    {issues : List ReceiptVerificationIssue}
    (h : checkCreatedAt env (receipt.get (lit "created_at")) = .ok (createdAt, issues)) (t : Instant) :
    createdAt = some t ↔ ReadsCreatedAt receipt t := by
  unfold ReadsCreatedAt
  obtain ⟨text, t', ⟨hv, hz, hp⟩, rfl, -⟩ | ⟨rfl, message, hissues⟩ := checkCreatedAt_cases h
  · simp [hv, hz, hp]
  · refine iff_of_false (fun h => by cases h) ?_
    rintro ⟨text, hv, hz, hp⟩
    rw [hv] at h
    unfold checkCreatedAt at h
    dsimp only at h
    rw [if_pos hz, hp] at h
    cases h

/-- The receipt stays clear of the inputs on which verification raises. -/
structure Handled (env : Env) (receipt registry : Dict) : Prop where
  releaseClass : isHashable (receipt.get (lit "release_class")) = true
  createdAt : registry.fields ≠ [] → ¬CreatedAtLeavesYears receipt
  depth : registry.fields ≠ [] → (unsignedReceipt receipt).depth ≤ env.maxDumpDepth
  payload : registry.fields ≠ [] → isEncodable (payloadText receipt) = true
  entries : registry.fields ≠ [] → ∀ signature : Dict, signature.toJson ∈ signaturesOf receipt →
    ¬EntryRaises env receipt registry signature

end Sentinel.Receipt
