import SentinelCore.ReceiptSignature

/-!
# The release rule

`ReleaseRule` is the purpose of the receipt verifier in its own terms: what a receipt has to say and
which signatures it has to carry. It mentions neither issues nor loops.
`verifyReceipt_rcVerified_iff` says that the verifier decides exactly this rule.

1. A receipt is verified when no issue is an error (`rcVerified_iff_clean`).
2. The issues before the signatures are clean when the fields are right (`clean_checkFields`).
3. Every refusal of an entry is an error, so all entries are accepted, and what the tally counts is
   the set of accepted keys and roles (`clean_tally`).
-/

namespace Sentinel.Receipt

open Py Lib

variable {env : Env}

/-! ## Clean lists of issues -/

/-- No issue of the list is an error. -/
def Clean (issues : List ReceiptVerificationIssue) : Prop := ∀ i ∈ issues, ¬isError i = true

@[simp] theorem clean_nil : Clean [] := by simp [Clean]

@[simp] theorem clean_append {a b : List ReceiptVerificationIssue} :
    Clean (a ++ b) ↔ Clean a ∧ Clean b := by
  unfold Clean
  simp only [List.mem_append, or_imp, forall_and]

@[simp] theorem clean_issueIf {p : Prop} [Decidable p] {code : String} {message : PyStr} :
    Clean (issueIf p (errorIssue code message)) ↔ ¬p := by
  unfold issueIf
  split_ifs with h <;> simp [Clean, h, isError, errorIssue]

@[simp] theorem clean_flatMap {α : Type} {f : α → List ReceiptVerificationIssue} {xs : List α} :
    Clean (xs.flatMap f) ↔ ∀ x ∈ xs, Clean (f x) := by
  unfold Clean
  simp only [List.mem_flatMap]
  exact ⟨fun h x hx i hi => h i ⟨x, hx, hi⟩, fun h i ⟨x, hx, hi⟩ => h x hx i hi⟩

theorem rcVerified_iff_clean {receipt : Dict} {findings : Findings}
    {tally : Tally ReceiptVerificationIssue PyStr PyStr} :
    (finish receipt findings tally).status = .rcVerified ↔
      Clean (finish receipt findings tally).issues := by
  unfold finish Clean
  dsimp only
  split_ifs with h
  · rw [List.any_eq_true] at h
    obtain ⟨i, hi, he⟩ := h
    exact ⟨fun h' => (by cases h'), fun h' => absurd he (h' i hi)⟩
  · rw [List.any_eq_true, not_exists] at h
    exact ⟨fun _ i hi he => h i ⟨hi, he⟩, fun _ => rfl⟩

/-! ## The tally -/

/-- The codes of what the loop body objects to. -/
def entryCodes : List String :=
  ["SIGNATURE_INVALID", "SIGNATURE_METADATA_INVALID", "UNKNOWN_KID", "KEY_NOT_ACTIVE", "ALG_INVALID",
    "ROLE_MISMATCH", "KEY_WINDOW_INVALID", "KEY_NOT_YET_VALID", "KEY_EXPIRED",
    "SIGNATURE_PARTS_MISSING", "PROTECTED_HEADER_INVALID", "PROTECTED_HEADER_ALG_INVALID",
    "PROTECTED_HEADER_KID_MISMATCH", "SIGNATURE_PAYLOAD_MISMATCH", "SIGNATURE_PARSE_ERROR"]

/-- An error about an entry. -/
def EntryError (i : ReceiptVerificationIssue) : Prop := isError i = true ∧ i.code ∈ entryCodes

theorem entryError_errorIssue {code : String} {message : PyStr} (h : code ∈ entryCodes) :
    EntryError (errorIssue code message) :=
  ⟨rfl, h⟩

theorem refusesWith_checkBound {bound : Json} {permits : Instant → Prop} [DecidablePred permits]
    {code : String} {message : PyStr} (h : code ∈ entryCodes) :
    (checkBound env bound permits (errorIssue code message)).RefusesWith EntryError := by
  unfold checkBound
  split
  · exact Check.refusesWith_bind (Check.refusesWith_attempt fun _ => entryError_errorIssue (by decide))
      fun _ => Check.refusesWith_require (entryError_errorIssue h)
  · exact Check.refusesWith_pure

theorem refusesWith_trustKeyOf {registry : Dict} {kid : PyStr} :
    (trustKeyOf registry kid).RefusesWith EntryError := by
  unfold trustKeyOf
  split
  · exact Check.refusesWith_throw (entryError_errorIssue (by decide))
  · exact Check.refusesWith_ofExcept

theorem refusesWith_checkWindow {trustKey : Dict} {kid : PyStr} {createdAt : Option Instant} :
    (checkWindow env trustKey kid createdAt).RefusesWith EntryError := by
  cases createdAt with
  | none => exact Check.refusesWith_pure
  | some t =>
    exact Check.refusesWith_bind (refusesWith_checkBound (by decide))
      fun _ => refusesWith_checkBound (by decide)

section Objections

variable {p : Prop} [Decidable p] {code : String} {message : PyStr} {α : Type} {o : Option α}
  {m : Except PyExc α} {catches : PyExc → Bool} {messageOf : PyExc → PyStr}

theorem refusesWith_require (h : code ∈ entryCodes) :
    (Check.require p (errorIssue code message) :
      Check PyExc ReceiptVerificationIssue Unit).RefusesWith EntryError :=
  Check.refusesWith_require (entryError_errorIssue h)

theorem refusesWith_ofOption (h : code ∈ entryCodes) :
    (Check.ofOption o (errorIssue code message) :
      Check PyExc ReceiptVerificationIssue α).RefusesWith EntryError :=
  Check.refusesWith_ofOption (entryError_errorIssue h)

theorem refusesWith_attempt (h : code ∈ entryCodes) :
    (Check.attempt m catches fun e => errorIssue code (messageOf e)).RefusesWith EntryError :=
  Check.refusesWith_attempt fun _ => entryError_errorIssue h

end Objections

/-- Whatever the loop body objects to is an error about the entry. -/
theorem refusesWith_verifySignature {registry : Dict} {createdAt : Option Instant}
    {expected : PyStr} {entry : Json} :
    (verifySignature env registry createdAt expected entry).RefusesWith EntryError := by
  unfold verifySignature
  refine Check.refusesWith_bind (refusesWith_ofOption (by decide)) fun signature => ?_
  refine Check.refusesWith_bind (refusesWith_ofOption (by decide)) fun metadata => ?_
  refine Check.refusesWith_bind refusesWith_trustKeyOf fun trustKey => ?_
  refine Check.refusesWith_bind (refusesWith_require (by decide)) fun _ => ?_
  refine Check.refusesWith_bind (refusesWith_require (by decide)) fun _ => ?_
  refine Check.refusesWith_bind (refusesWith_require (by decide)) fun _ => ?_
  refine Check.refusesWith_bind refusesWith_checkWindow fun _ => ?_
  refine Check.refusesWith_bind (refusesWith_ofOption (by decide)) fun parts => ?_
  refine Check.refusesWith_bind (refusesWith_attempt (by decide)) fun header => ?_
  refine Check.refusesWith_bind (refusesWith_ofOption (by decide)) fun header => ?_
  refine Check.refusesWith_bind (refusesWith_require (by decide)) fun _ => ?_
  refine Check.refusesWith_bind (refusesWith_require (by decide)) fun _ => ?_
  refine Check.refusesWith_bind (refusesWith_require (by decide)) fun _ => ?_
  refine Check.refusesWith_bind (refusesWith_attempt (by decide)) fun isValid => ?_
  exact Check.refusesWith_bind (refusesWith_require (by decide)) fun _ => Check.refusesWith_pure

/-! ## Runs -/

/-- The verdicts of the loop body on the entries of a receipt. -/
def Verdicts (env : Env) (receipt registry : Dict) (findings : Findings)
    (vs : List (Except ReceiptVerificationIssue (PyStr × PyStr))) : Prop :=
  List.Forall₂ (fun entry v => (verifySignature env registry findings.createdAt
    findings.expectedPayloadB64 entry).run = .ok v) (signaturesOf receipt) vs

/-- The tally after the loop. -/
def tallyOf (findings : Findings) (vs : List (Except ReceiptVerificationIssue (PyStr × PyStr))) :
    Tally ReceiptVerificationIssue PyStr PyStr :=
  vs.foldl (Tally.absorb duplicateIssue) (Tally.start findings.issues)

theorem verifyReceipt_empty {receipt registry : Dict} (hempty : registry.fields = []) :
    verifyReceipt env receipt registry =
      ((receipt.get (lit "release_class")).inSet [lit "B", lit "C"]).map fun strict =>
        emptyRegistryResult receipt (policyIssues receipt strict) := by
  unfold verifyReceipt
  cases (receipt.get (lit "release_class")).inSet [lit "B", lit "C"] with
  | error e => rfl
  | ok strict =>
    change (if _ then _ else _) = _
    rw [if_pos hempty]
    rfl

theorem verifyReceipt_eq_ok {receipt registry : Dict} {res : ReceiptVerificationResult}
    (hne : registry.fields ≠ []) :
    verifyReceipt env receipt registry = .ok res ↔ ∃ strict findings vs,
      (receipt.get (lit "release_class")).inSet [lit "B", lit "C"] = .ok strict ∧
        checkFields env receipt (policyIssues receipt strict) = .ok findings ∧
        Verdicts env receipt registry findings vs ∧
        finish receipt findings (tallyOf findings vs) = res := by
  unfold verifyReceipt Verdicts tallyOf
  simp only [hne, if_false, bind_eq_ok, Tally.foldlM_step, mapM_eq_ok, pure_eq_ok,
    Except.ok.injEq]
  constructor
  · rintro ⟨strict, hs, findings, hf, tally, ⟨vs, hvs, rfl⟩, rfl⟩
    exact ⟨strict, findings, vs, hs, hf, hvs, rfl⟩
  · rintro ⟨strict, findings, vs, hs, hf, hvs, rfl⟩
    exact ⟨strict, hs, findings, hf, _, ⟨vs, hvs, rfl⟩, rfl⟩

theorem checkFields_eq_ok {receipt : Dict} {issues : List ReceiptVerificationIssue}
    {findings : Findings} :
    checkFields env receipt issues = .ok findings ↔ ∃ createdAtIssues classKnown,
      checkCreatedAt env (receipt.get (lit "created_at")) =
          .ok (findings.createdAt, createdAtIssues) ∧
        (receipt.get (lit "release_class")).inSet [lit "A", lit "B", lit "C"] = .ok classKnown ∧
        receiptHash env receipt = .ok findings.expectedHash ∧
        payloadB64 env receipt = .ok findings.expectedPayloadB64 ∧
        findings.issues =
          issues ++ fieldIssues receipt createdAtIssues classKnown findings.expectedHash := by
  unfold checkFields
  simp only [bind_eq_ok, pure_eq_ok, Prod.exists]
  constructor
  · rintro ⟨createdAt, createdAtIssues, hc, known, hk, hash, hh, payload, hp, rfl⟩
    exact ⟨createdAtIssues, known, hc, hk, hh, hp, rfl⟩
  · rintro ⟨createdAtIssues, known, hc, hk, hh, hp, hissues⟩
    refine ⟨findings.createdAt, createdAtIssues, hc, known, hk, findings.expectedHash, hh,
      findings.expectedPayloadB64, hp, ?_⟩
    rw [← hissues]

/-- Reading `created_at` gives a moment, or an issue. -/
theorem checkCreatedAt_cases {v : Json} {createdAt : Option Instant}
    {issues : List ReceiptVerificationIssue} (h : checkCreatedAt env v = .ok (createdAt, issues)) :
    (∃ text t, (v = .str text ∧ endsWith text (lit "Z") = true ∧ parseRfc3339Utc text = .ok t) ∧
        createdAt = some t ∧ issues = []) ∨
      (createdAt = none ∧ ∃ message, issues = [errorIssue "CREATED_AT_INVALID" message]) := by
  unfold checkCreatedAt at h
  split at h
  · next text =>
    by_cases hz : endsWith text (lit "Z") = true
    · rw [if_pos hz] at h
      cases hp : parseRfc3339Utc text with
      | ok t =>
        rw [hp] at h
        obtain ⟨rfl, rfl⟩ := Prod.mk.inj (Except.ok.inj h)
        exact .inl ⟨text, t, ⟨rfl, hz, hp⟩, rfl, rfl⟩
      | error e =>
        rw [hp] at h
        change (if _ then _ else _) = _ at h
        split_ifs at h
        obtain ⟨rfl, rfl⟩ := Prod.mk.inj (Except.ok.inj h)
        exact .inr ⟨rfl, _, rfl⟩
    · rw [if_neg hz] at h
      obtain ⟨rfl, rfl⟩ := Prod.mk.inj (Except.ok.inj h)
      exact .inr ⟨rfl, _, rfl⟩
  · obtain ⟨rfl, rfl⟩ := Prod.mk.inj (Except.ok.inj h)
    exact .inr ⟨rfl, _, rfl⟩

/-- `created_at` is clean when it is a UTC timestamp that parses. -/
theorem clean_checkCreatedAt {v : Json} {createdAt : Option Instant}
    {issues : List ReceiptVerificationIssue} (h : checkCreatedAt env v = .ok (createdAt, issues)) :
    Clean issues ↔ ∃ text t, v = .str text ∧ endsWith text (lit "Z") = true ∧
      parseRfc3339Utc text = .ok t ∧ createdAt = some t := by
  obtain ⟨text, t, ⟨hv, hz, hp⟩, hcreated, rfl⟩ | ⟨rfl, message, rfl⟩ := checkCreatedAt_cases h
  · exact iff_of_true clean_nil ⟨text, t, hv, hz, hp, hcreated⟩
  · refine iff_of_false (fun hclean => hclean _ (List.mem_singleton_self _) rfl) ?_
    rintro ⟨_, _, -, -, -, hcreated⟩
    cases hcreated

/-! ## The rule -/

/-- The entry is a valid signature with the key `kid` in the role `signerRole`. -/
def Signs (env : Env) (registry : Dict) (createdAt : Instant) (payload : PyStr) (entry : Json)
    (kid signerRole : PyStr) : Prop :=
  ∃ signature trustKey : Dict, entry = signature.toJson ∧
    ValidSignature env registry createdAt payload signature trustKey kid signerRole

/-- What a receipt says, once its fields are read. -/
structure Terms where
  releaseClass : PyStr
  minSignatures : ℤ
  requiredRoles : List PyStr
  createdAt : Instant
  payload : PyStr
  entries : List Json

/-- The receipt says these terms, its own fields are in order, and its signatures satisfy them. -/
structure Released (env : Env) (receipt registry : Dict) (t : Terms) : Prop where
  registry_nonempty : registry.fields ≠ []
  schemaVersion : receipt.get (lit "schema_version") = .str (lit "sentinel.receipt.v1")
  createdAt : ∃ text, receipt.get (lit "created_at") = .str text ∧ endsWith text (lit "Z") = true ∧
    parseRfc3339Utc text = .ok t.createdAt
  releaseClass : receipt.get (lit "release_class") = .str t.releaseClass ∧
    t.releaseClass ∈ [lit "A", lit "B", lit "C"]
  policy : ∃ policy : Dict, receipt.get (lit "policy") = policy.toJson ∧
    policy.get (lit "min_signatures") = .int t.minSignatures ∧ 0 ≤ t.minSignatures ∧
    (policy.get? (lit "required_roles")).getD (.arr []) = .arr (t.requiredRoles.map .str)
  sequence : ∃ n, (chainOf receipt).get (lit "sequence") = .int n
  previousHash : ∃ hex : PyStr, (chainOf receipt).get (lit "previous_hash") =
    .str (lit "sha256:" ++ hex) ∧ hex.length = 64 ∧ ∀ c ∈ hex, isLowerHex c = true
  hash : ∃ hash, receiptHash env receipt = .ok hash ∧
    (chainOf receipt).get (lit "receipt_hash") = .str hash
  payload : payloadB64 env receipt = .ok t.payload
  entries : receipt.get (lit "signatures") = .arr t.entries ∧ t.entries ≠ []
  /-- Every entry is valid. -/
  signatures : ∀ entry ∈ t.entries, ∃ kid signerRole,
    Signs env registry t.createdAt t.payload entry kid signerRole
  /-- Every required role has signed. -/
  roles : ∀ role ∈ t.requiredRoles, ∃ entry ∈ t.entries, ∃ kid,
    Signs env registry t.createdAt t.payload entry kid role
  /-- Enough different keys have signed. -/
  threshold : ∃ kids : Finset PyStr, t.minSignatures ≤ kids.card ∧ ∀ kid ∈ kids,
    ∃ entry ∈ t.entries, ∃ role, Signs env registry t.createdAt t.payload entry kid role
  /-- Class A needs two signatures, classes B and C one. -/
  strength : (if t.releaseClass = lit "A" then 2 else 1) ≤ t.minSignatures

def ReleaseRule (env : Env) (receipt registry : Dict) : Prop :=
  ∃ t : Terms, Released env receipt registry t

/-! ## Reading the terms -/

theorem minSignaturesOf?_eq_some {policy : Dict} {n : ℤ} :
    minSignaturesOf? policy = some n ↔ policy.get (lit "min_signatures") = .int n ∧ 0 ≤ n := by
  unfold minSignaturesOf? intOf?
  cases policy.get (lit "min_signatures") <;> simp [Option.filter_eq_some_iff]

theorem requiredRolesOf?_eq_some {policy : Dict} {roles : List PyStr} :
    requiredRolesOf? policy = some roles ↔
      (policy.get? (lit "required_roles")).getD (.arr []) = .arr (roles.map .str) := by
  unfold requiredRolesOf?
  split
  · next items h => rw [h, Json.strItems?_eq_some, Json.arr.injEq]
  · next h => exact ⟨fun h' => (by cases h'), fun h' => absurd h' (h _)⟩

theorem isSha256UrnStr_iff {v : Json} :
    isSha256UrnStr v = true ↔ ∃ hex : PyStr, v = .str (lit "sha256:" ++ hex) ∧
      hex.length = 64 ∧ ∀ c ∈ hex, isLowerHex c = true := by
  cases v with
  | str text =>
    unfold isSha256UrnStr isSha256Urn
    simp only [Bool.and_eq_true, decide_eq_true_eq, List.all_eq_true, Json.str.injEq]
    constructor
    · rintro ⟨⟨hstart, hlen⟩, hhex⟩
      obtain ⟨hex, rfl⟩ := List.isPrefixOf_iff_prefix.mp hstart
      exact ⟨hex, rfl, hlen, hhex⟩
    · rintro ⟨hex, rfl, hlen, hhex⟩
      exact ⟨⟨List.isPrefixOf_iff_prefix.mpr ⟨hex, rfl⟩, hlen⟩, hhex⟩
  | _ => simp [isSha256UrnStr]

theorem inSet_eq_ok {v : Json} {names : List PyStr} {b : Bool} (h : v.inSet names = .ok b) :
    b = true ↔ ∃ s ∈ names, v = .str s := by
  cases v with
  | str s =>
    obtain rfl := Except.ok.inj h
    simp
  | null | bool _ | int _ | float _ =>
    obtain rfl := Except.ok.inj h
    simp
  | arr _ | obj _ => cases h

theorem signaturesOf_ne_nil {receipt : Dict} :
    signaturesOf receipt ≠ [] ↔ ∃ entries, receipt.get (lit "signatures") = .arr entries ∧
      entries ≠ [] := by
  unfold signaturesOf
  split
  · next items h => simp [h]
  · next h =>
    refine ⟨fun h' => absurd rfl h', ?_⟩
    rintro ⟨entries, h', -⟩
    exact absurd h' (h entries)

theorem policyOf_of_get {receipt policy : Dict} (h : receipt.get (lit "policy") = policy.toJson) :
    policyOf receipt = policy := by
  unfold policyOf
  rw [h, Json.dictOrEmpty_toJson]

theorem payloadB64_ne_nil {receipt : Dict} {payload : PyStr}
    (h : payloadB64 env receipt = .ok payload) : payload ≠ [] := by
  unfold payloadB64 at h
  obtain ⟨text, htext, h⟩ := bind_eq_ok.mp h
  obtain ⟨data, hdata, h⟩ := bind_eq_ok.mp h
  obtain rfl := pure_eq_ok.mp h
  intro hnil
  obtain rfl : data = [] := b64urlText_injective hnil
  obtain ⟨-, rfl⟩ := env.dumps_ok.mp htext
  obtain ⟨c, t, hct, -⟩ := Json.text_head (unsignedReceipt receipt)
  have hdec := decodeUtf8_of_encodeUtf8 hdata
  rw [hct] at hdec
  cases hdec

/-- The checks of the policy. -/
theorem clean_policyIssues {receipt : Dict} {strict : Bool} :
    Clean (policyIssues receipt strict) ↔ ∃ (policy : Dict) (n : ℤ),
      receipt.get (lit "policy") = policy.toJson ∧ policy.get (lit "min_signatures") = .int n ∧
        0 ≤ n ∧ (strict = true → 1 ≤ n) := by
  unfold policyIssues
  simp only [clean_append, clean_issueIf, not_not]
  constructor
  · rintro ⟨⟨⟨hobj, -⟩, hmin⟩, hstrict⟩
    obtain ⟨policy, hp⟩ := Option.isSome_iff_exists.mp hobj
    rw [Json.toDict?_eq_some] at hp
    rw [policyOf_of_get hp] at hmin hstrict
    obtain ⟨n, hn⟩ := Option.ne_none_iff_exists'.mp hmin
    obtain ⟨hget, h0⟩ := minSignaturesOf?_eq_some.mp hn
    refine ⟨policy, n, hp, hget, h0, fun hs => ?_⟩
    have hweak := not_and.mp hstrict hs
    rw [minSignaturesOf, hn] at hweak
    exact not_lt.mp hweak
  · rintro ⟨policy, n, hp, hget, h0, hstrict⟩
    have hn := minSignaturesOf?_eq_some.mpr ⟨hget, h0⟩
    rw [policyOf_of_get hp, minSignaturesOf, hn, hp, policy.toDict?_toJson]
    refine ⟨⟨⟨rfl, ?_⟩, by simp⟩, ?_⟩
    · rintro ⟨-, h | h⟩
      · exact h rfl
      · rw [Dict.get, h] at hget
        cases hget
    · rintro ⟨hs, hlt⟩
      exact absurd hlt (not_lt.mpr (hstrict hs))

theorem clean_finish {receipt : Dict} {findings : Findings}
    {tally : Tally ReceiptVerificationIssue PyStr PyStr} :
    Clean (finish receipt findings tally).issues ↔
      Clean tally.issues ∧
        (∀ role ∈ (requiredRolesOf? (policyOf receipt)).getD [], role ∈ tally.roles) ∧
        minSignaturesOf (policyOf receipt) ≤ tally.count ∧
        (receipt.get (lit "release_class") = .str (lit "A") →
          2 ≤ minSignaturesOf (policyOf receipt)) := by
  unfold finish
  simp only [clean_append, clean_issueIf, clean_flatMap, not_not, not_lt, not_and, and_assoc]

section Tally

variable {receipt registry : Dict} {findings : Findings} {createdAt : Instant}
  {vs : List (Except ReceiptVerificationIssue (PyStr × PyStr))}
  (hvs : Verdicts env receipt registry findings vs) (hc : findings.createdAt = some createdAt)
  (hp : payloadB64 env receipt = .ok findings.expectedPayloadB64)

include hvs hc hp

/-- The accepted pairs are the keys and roles of the valid entries. -/
theorem mem_accepted_iff {kid role : PyStr} :
    (kid, role) ∈ Tally.accepted vs ↔ ∃ entry ∈ signaturesOf receipt,
      Signs env registry createdAt findings.expectedPayloadB64 entry kid role := by
  rw [Tally.mem_accepted, mem_of_mapM (mapM_eq_ok.mpr hvs), hc]
  exact exists_congr fun entry => and_congr_right fun _ =>
    accepts_verifySignature (payloadB64_ne_nil hp)

/-- A key has one role, whatever the entries say. -/
theorem accepted_consistent : Tally.Consistent (Tally.accepted vs) := by
  rintro ⟨kid, role⟩ h ⟨kid', role'⟩ h' hkid
  obtain rfl : kid = kid' := hkid
  obtain ⟨_, -, _, key, -, hvalid⟩ := (mem_accepted_iff hvs hc hp).mp h
  obtain ⟨_, -, _, key', -, hvalid'⟩ := (mem_accepted_iff hvs hc hp).mp h'
  obtain rfl := Dict.toJson_injective (hvalid.known.symm.trans hvalid'.known)
  exact Json.str.inj (hvalid.role.symm.trans hvalid'.role)

theorem clean_tally :
    Clean (tallyOf findings vs).issues ↔ Clean findings.issues ∧
      ∀ entry ∈ signaturesOf receipt, ∃ kid role,
        Signs env registry createdAt findings.expectedPayloadB64 entry kid role := by
  unfold Clean tallyOf
  rw [Tally.forall_issues_foldl (fun kid => by simp [duplicateIssue, isError])]
  refine and_congr_right fun _ => ⟨fun h entry he => ?_, fun h i hi => ?_⟩
  · obtain ⟨v, hv, hrun⟩ := exists_of_mapM (mapM_eq_ok.mpr hvs) he
    cases v with
    | error i => exact absurd (refusesWith_verifySignature i hrun).1 (h i hv)
    | ok p =>
      rw [hc] at hrun
      exact ⟨p.1, p.2, (accepts_verifySignature (payloadB64_ne_nil hp)).mp hrun⟩
  · obtain ⟨entry, he, hrun⟩ := (mem_of_mapM (mapM_eq_ok.mpr hvs)).mp hi
    obtain ⟨kid, role, hsigns⟩ := h entry he
    have hok := (accepts_verifySignature (payloadB64_ne_nil hp)).mpr hsigns
    rw [← hc] at hok
    cases hrun.symm.trans hok

/-- The keys that count are those with a valid entry. -/
theorem card_le_count (kids : Finset PyStr)
    (h : ∀ kid ∈ kids, ∃ entry ∈ signaturesOf receipt, ∃ role,
      Signs env registry createdAt findings.expectedPayloadB64 entry kid role) :
    kids.card ≤ (tallyOf findings vs).count := by
  unfold tallyOf
  rw [Tally.count_eq_card]
  refine Finset.card_le_card fun kid hkid => ?_
  obtain ⟨entry, he, role, hs⟩ := h kid hkid
  rw [List.mem_toFinset, List.mem_map]
  exact ⟨(kid, role), (mem_accepted_iff hvs hc hp).mpr ⟨entry, he, hs⟩, rfl⟩

end Tally

/-! ## The verifier decides the rule -/

theorem clean_fieldIssues {receipt : Dict} {createdAtIssues : List ReceiptVerificationIssue}
    {classKnown : Bool} {hash : PyStr} :
    Clean (fieldIssues receipt createdAtIssues classKnown hash) ↔
      receipt.get (lit "schema_version") = .str (lit "sentinel.receipt.v1") ∧
        Clean createdAtIssues ∧ classKnown = true ∧
        (∃ n, (chainOf receipt).get (lit "sequence") = .int n) ∧
        isSha256UrnStr ((chainOf receipt).get (lit "previous_hash")) = true ∧
        (chainOf receipt).get (lit "receipt_hash") = .str hash ∧
        signaturesOf receipt ≠ [] ∧ (∃ roles, requiredRolesOf? (policyOf receipt) = some roles) ∧
        0 ≤ minSignaturesOf (policyOf receipt) := by
  have hseq : ∀ v : Json, intOf? v = none ↔ ¬∃ n, v = .int n := fun v => by
    cases v <;> simp [intOf?]
  unfold fieldIssues
  simp only [clean_append, clean_issueIf, not_not, ne_eq, hseq, not_lt, and_assoc,
    Option.eq_none_iff_forall_ne_some, not_forall]

theorem clean_findings_of_tally {findings : Findings}
    {vs : List (Except ReceiptVerificationIssue (PyStr × PyStr))}
    (h : Clean (tallyOf findings vs).issues) : Clean findings.issues :=
  ((Tally.forall_issues_foldl (fun kid => by simp [duplicateIssue, isError]) _ vs).mp h).1

section Decides

variable {receipt registry : Dict} {strict : Bool} {findings : Findings}
  {vs : List (Except ReceiptVerificationIssue (PyStr × PyStr))}
  (hne : registry.fields ≠ [])
  (hs : (receipt.get (lit "release_class")).inSet [lit "B", lit "C"] = .ok strict)
  (hf : checkFields env receipt (policyIssues receipt strict) = .ok findings)
  (hvs : Verdicts env receipt registry findings vs)

include hne hs hf hvs in
theorem released_of_clean (h : Clean (finish receipt findings (tallyOf findings vs)).issues) :
    ReleaseRule env receipt registry := by
  obtain ⟨createdAtIssues, known, hc, hk, hh, hp, hissues⟩ := checkFields_eq_ok.mp hf
  obtain ⟨htally, hroles, hmin, hA⟩ := clean_finish.mp h
  have hclean := clean_findings_of_tally htally
  rw [hissues, clean_append, clean_policyIssues, clean_fieldIssues] at hclean
  obtain ⟨⟨policy, n, hpolicy, hn, h0, hstrict⟩, hschema, hcreated, hclass, hseq, hprev, hhash,
    hsigs, ⟨roles, hrolesOf⟩, -⟩ := hclean
  obtain ⟨text, createdAt, htext, hz, hparse, hcreatedAt⟩ := (clean_checkCreatedAt hc).mp hcreated
  obtain ⟨class_, hmem, hclass⟩ := (inSet_eq_ok hk).mp hclass
  obtain ⟨entries, hentries, hentriesNe⟩ := signaturesOf_ne_nil.mp hsigs
  have hsigsOf : signaturesOf receipt = entries := by
    unfold signaturesOf
    rw [hentries]
  rw [policyOf_of_get hpolicy] at hrolesOf hroles hmin hA
  rw [hrolesOf] at hroles
  rw [minSignaturesOf, minSignaturesOf?_eq_some.mpr ⟨hn, h0⟩] at hmin hA
  have hall := ((clean_tally hvs hcreatedAt hp).mp htally).2
  have hpairs : ∀ kid role, _ := fun kid role =>
    @mem_accepted_iff _ _ _ _ _ _ hvs hcreatedAt hp kid role
  rw [hsigsOf] at hall hpairs
  refine ⟨⟨class_, n, roles, createdAt, findings.expectedPayloadB64, entries⟩, hne, hschema,
    ⟨text, htext, hz, hparse⟩, ⟨hclass, hmem⟩,
    ⟨policy, hpolicy, hn, h0, requiredRolesOf?_eq_some.mp hrolesOf⟩, hseq,
    isSha256UrnStr_iff.mp hprev, ⟨_, hh, hhash⟩, hp, ⟨hentries, hentriesNe⟩, hall, ?_, ?_, ?_⟩
  · intro role hrole
    obtain ⟨kid, hkid⟩ := (Tally.mem_roles_foldl (accepted_consistent hvs hcreatedAt hp)).mp
      (hroles role hrole)
    obtain ⟨entry, he, hsigns⟩ := (hpairs kid role).mp hkid
    exact ⟨entry, he, kid, hsigns⟩
  · refine ⟨((Tally.accepted vs).map Prod.fst).toFinset, ?_, fun kid hkid => ?_⟩
    · rw [tallyOf, Tally.count_eq_card] at hmin
      exact hmin
    · rw [List.mem_toFinset, List.mem_map] at hkid
      obtain ⟨⟨_, role⟩, hpair, rfl⟩ := hkid
      obtain ⟨entry, he, hsigns⟩ := (hpairs _ role).mp hpair
      exact ⟨entry, he, role, hsigns⟩
  · dsimp only
    by_cases hclassA : class_ = lit "A"
    · rw [if_pos hclassA]
      exact hA (by rw [hclass, hclassA])
    · rw [if_neg hclassA]
      refine hstrict ((inSet_eq_ok hs).mpr ⟨class_, ?_, hclass⟩)
      exact (List.mem_cons.mp hmem).resolve_left hclassA

include hf hvs in
theorem clean_of_released (h : ReleaseRule env receipt registry) :
    Clean (finish receipt findings (tallyOf findings vs)).issues := by
  obtain ⟨t, ht⟩ := h
  obtain ⟨createdAtIssues, known, hc, hk, hh, hp, hissues⟩ := checkFields_eq_ok.mp hf
  obtain ⟨text, htext, hz, hparse⟩ := ht.createdAt
  obtain ⟨policy, hpolicy, hn, h0, hrolesOf⟩ := ht.policy
  obtain ⟨hash, hh', hhash⟩ := ht.hash
  obtain ⟨hclass, hmem⟩ := ht.releaseClass
  obtain rfl := Except.ok.inj (hh'.symm.trans hh)
  have hpayload : t.payload = findings.expectedPayloadB64 :=
    Except.ok.inj (ht.payload.symm.trans hp)
  have hsigsOf : signaturesOf receipt = t.entries := by
    unfold signaturesOf
    rw [ht.entries.1]
  have hn' := minSignaturesOf?_eq_some.mpr ⟨hn, h0⟩
  have hcreated : findings.createdAt = some t.createdAt ∧ Clean createdAtIssues := by
    unfold checkCreatedAt at hc
    rw [htext] at hc
    simp only [hz, if_true, hparse, Except.map, tryExcept_ok] at hc
    obtain ⟨hcreated, rfl⟩ := Prod.mk.inj (Except.ok.inj hc)
    exact ⟨hcreated.symm, clean_nil⟩
  have hstrict : strict = true → 1 ≤ t.minSignatures := fun hb => by
    have := ht.strength
    split_ifs at this <;> omega
  rw [clean_finish, clean_tally hvs hcreated.1 hp, hissues, clean_append, clean_policyIssues,
    clean_fieldIssues, policyOf_of_get hpolicy, minSignaturesOf, hn',
    requiredRolesOf?_eq_some.mpr hrolesOf, hsigsOf, ← hpayload]
  refine ⟨⟨⟨⟨policy, _, hpolicy, hn, h0, hstrict⟩, ht.schemaVersion, hcreated.2,
    (inSet_eq_ok hk).mpr ⟨_, hmem, hclass⟩, ht.sequence, isSha256UrnStr_iff.mpr ht.previousHash,
    hhash, ht.entries.2, ⟨_, rfl⟩, h0⟩, ht.signatures⟩, ?_, ?_, ?_⟩
  · intro role hrole
    obtain ⟨entry, he, kid, hsigns⟩ := ht.roles role hrole
    rw [hpayload] at hsigns
    rw [← hsigsOf] at he
    exact (Tally.mem_roles_foldl (accepted_consistent hvs hcreated.1 hp)).mpr
      ⟨kid, (mem_accepted_iff hvs hcreated.1 hp).mpr ⟨entry, he, hsigns⟩⟩
  · obtain ⟨kids, hcard, hkids⟩ := ht.threshold
    have hle := card_le_count hvs hcreated.1 hp kids fun kid hkid => by
      rw [hsigsOf, ← hpayload]
      exact hkids kid hkid
    exact hcard.trans (Int.ofNat_le.mpr hle)
  · intro hA
    have := ht.strength
    rw [if_pos (Json.str.inj (hclass.symm.trans hA))] at this
    exact this

end Decides

/-- With an empty registry no receipt is verified. -/
theorem registry_ne_nil_of_rcVerified {receipt registry : Dict} {res : ReceiptVerificationResult}
    (h : verifyReceipt env receipt registry = .ok res) (hv : res.status = .rcVerified) :
    registry.fields ≠ [] := by
  intro hempty
  rw [verifyReceipt_empty hempty] at h
  cases hs : (receipt.get (lit "release_class")).inSet [lit "B", lit "C"] with
  | error e => rw [hs] at h; cases h
  | ok strict =>
    rw [hs] at h
    obtain rfl := Except.ok.inj h
    cases hv

theorem releaseRule_of_rcVerified {receipt registry : Dict} {res : ReceiptVerificationResult}
    (h : verifyReceipt env receipt registry = .ok res) (hv : res.status = .rcVerified) :
    ReleaseRule env receipt registry := by
  have hne := registry_ne_nil_of_rcVerified h hv
  obtain ⟨strict, findings, vs, hs, hf, hvs, rfl⟩ := (verifyReceipt_eq_ok hne).mp h
  exact released_of_clean hne hs hf hvs (rcVerified_iff_clean.mp hv)

theorem rcVerified_of_releaseRule {receipt registry : Dict} {res : ReceiptVerificationResult}
    (h : verifyReceipt env receipt registry = .ok res) (hr : ReleaseRule env receipt registry) :
    res.status = .rcVerified := by
  obtain ⟨t, ht⟩ := id hr
  obtain ⟨strict, findings, vs, hs, hf, hvs, rfl⟩ :=
    (verifyReceipt_eq_ok ht.registry_nonempty).mp h
  exact rcVerified_iff_clean.mpr (clean_of_released hf hvs hr)

/-- **The verifier accepts a receipt exactly when the release rule holds.** -/
theorem verifyReceipt_rcVerified_iff {receipt registry : Dict} {res : ReceiptVerificationResult}
    (h : verifyReceipt env receipt registry = .ok res) :
    res.status = .rcVerified ↔ ReleaseRule env receipt registry :=
  ⟨releaseRule_of_rcVerified h, rcVerified_of_releaseRule h⟩

/-! ## A signed receipt -/

def sampleBase : Dict where
  fields := [(lit "schema_version", .str (lit "sentinel.receipt.v1")),
    (lit "created_at", .str (lit "2026-07-09T08:00:00Z")),
    (lit "release_class", .str (lit "B")),
    (lit "policy", .obj [(lit "min_signatures", .int 1),
      (lit "required_roles", .arr [.str (lit "legal_officer")])])]
  wf := by decide

/-- The public key of the sample, and its signature. -/
def sampleJwk : Dict where
  fields := [(lit "kty", .str (lit "EC")), (lit "crv", .str (lit "P-256")),
    (lit "x", .str (lit "NAVDTVgxGsd1_9ivt4ntV87a5H1jBuHwhrYHtTl5sOg")),
    (lit "y", .str (lit "EZkLLEuYxwmMIruAvDPNvoaPbHE-tpfeVsVWR1Rdxio"))]
  wf := by decide

def sampleSignatureText : PyStr :=
  lit "T2E58whRgQCvfnahl_iNnpCp9X8VMHRxWMTUqjNRw_Np3iZdtUc2lOGyQSCTWkzq_Q90TZrZgAkUIgnYEJ-Glw"

def sampleRegistry : Dict where
  fields := [(lit "k1", .obj [(lit "status", .str (lit "active")), (lit "alg", .str (lit "ES256")),
    (lit "role", .str (lit "legal_officer")), (lit "not_before", .str (lit "2026-01-01T00:00:00Z")),
    (lit "jwk", sampleJwk.toJson)])]
  wf := by decide

def sampleHeader : PyStr := b64urlEncode
  ((encodeUtf8 (lit "\x7b\"alg\":\"ES256\",\"kid\":\"k1\"\x7d")).toOption.getD [])

def sampleChain (hash : PyStr) : Json :=
  .obj [(lit "sequence", .int 1), (lit "previous_hash", .str zeroHash), (lit "receipt_hash", .str hash)]

def sampleUnsigned (hash : PyStr) : Dict := sampleBase.set (lit "chain") (sampleChain hash) (by rfl)

def sampleSignature (payload : PyStr) : Json :=
  .obj [(lit "kid", .str (lit "k1")), (lit "alg", .str (lit "ES256")),
    (lit "signer_role", .str (lit "legal_officer")), (lit "protected", .str sampleHeader),
    (lit "payload", .str payload), (lit "signature", .str sampleSignatureText)]

def sampleReceipt : Dict :=
  (sampleUnsigned ((receiptHash demoEnv (sampleUnsigned [])).toOption.getD [])).set (lit "signatures")
    (.arr [sampleSignature ((payloadB64 demoEnv (sampleUnsigned [])).toOption.getD [])]) (by rfl)

theorem sampleReceipt_verified : ∃ res,
    verifyReceipt demoEnv sampleReceipt sampleRegistry = .ok res ∧ res.status = .rcVerified :=
  exists_of_map (by decide +kernel)

theorem sampleReceipt_released : ReleaseRule demoEnv sampleReceipt sampleRegistry := by
  obtain ⟨res, h, hv⟩ := sampleReceipt_verified
  exact (verifyReceipt_rcVerified_iff h).mp hv

end Sentinel.Receipt
