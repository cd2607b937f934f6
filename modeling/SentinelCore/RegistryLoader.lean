import SentinelCore.Trust
import SentinelCore.Policy
import SentinelCore.Py.JsonDecoder

/-!
# Registry files

`sentinel_core/registry_loader.py`. A registry is read from the bytes of a JSON file. Whatever is
loaded is well-formed: `LoadedKey` and `LoadedRule` say what that means for a key of a trust
registry and a rule of a policy registry.
-/

namespace Sentinel

open Py Lib

def allowedRoles : List PyStr := [lit "sensor", lit "auditor", lit "authority", lit "admin"]

def allowedDecisions : List PyStr := [lit "allow", lit "deny", lit "review", lit "quarantine"]

def allowedKeyStatus : List PyStr := [lit "active", lit "revoked", lit "expired"]

def allowedTrustAlgorithms : List PyStr := [lit "EdDSA"]

def registryLoaderError (message : PyStr) : PyExc := .raised (.derived "RegistryLoaderError") message

/-- The value, if there is one; else an error with the message. -/
def orLoaderError {α : Type} (o : Option α) (message : PyStr) : Except PyExc α :=
  match o with
  | some a => .ok a
  | none => .error (registryLoaderError message)

def requireLoader (p : Prop) [Decidable p] (message : PyStr) : Except PyExc Unit :=
  raiseUnless p (registryLoaderError message)

/-- `_required_str`. -/
def requiredStr (value : Json) (field : PyStr) : Except PyExc PyStr :=
  orLoaderError value.nonEmptyStr? (field ++ lit " must be a non-empty string")

/-- `f"{list}[{index}]"`. -/
def itemField (list : String) (index : ℕ) : PyStr :=
  lit list ++ lit "[" ++ digitsText index ++ lit "]"

/-- The error for a value outside a fixed set. -/
def requireAllowed (value : PyStr) (allowed : List PyStr) (what : String) : Except PyExc Unit :=
  requireLoader (value ∈ allowed) (lit "unsupported " ++ lit what ++ lit ": " ++ value)

variable (env : Env)

/-- `_load_json_object` for a file with the given path and content. -/
def loadJsonObject (path : PyStr) (file : Bytes) : Except PyExc Dict := do
  let text ← decodeUtf8 file
  let data ← loads env.toRuntime text
  orLoaderError data.toDict? (lit "registry root must be an object: " ++ path)

/-- `_optional_time`. -/
def optionalTime (value : Json) (field : PyStr) : Except PyExc (Option PyStr) :=
  match value with
  | .null => .ok none
  | value => do
    let text ← orLoaderError value.nonEmptyStr?
      (field ++ lit " must be null or a non-empty RFC3339 string")
    let _ ← tryExcept (TrustRegistry.parseRfc3339Utc text) ExcClass.isValueError
      fun e => .error (registryLoaderError (env.strExc e))
    return some text

/-! ## Trust registry -/

/-- The body of the loop over the keys. -/
def loadTrustKey (index : ℕ) (raw : Json) : Except PyExc TrustKey := do
  let rawKey ← orLoaderError raw.toDict? (itemField "keys" index ++ lit " must be an object")
  let field (name : String) : PyStr := itemField "keys" index ++ lit "." ++ lit name
  let keyId ← requiredStr (rawKey.get (lit "key_id")) (field "key_id")
  let alg ← requiredStr (rawKey.get (lit "alg")) (field "alg")
  let publicKey ← requiredStr (rawKey.get (lit "public_key")) (field "public_key")
  let role ← requiredStr (rawKey.get (lit "role")) (field "role")
  let status ← requiredStr ((rawKey.get? (lit "status")).getD (.str (lit "active")))
    (field "status")
  requireAllowed alg allowedTrustAlgorithms "trust key algorithm"
  requireAllowed role allowedRoles "trust key role"
  requireAllowed status allowedKeyStatus "trust key status"
  let notBefore ← optionalTime env (rawKey.get (lit "not_before")) (lit "not_before")
  let notAfter ← optionalTime env (rawKey.get (lit "not_after")) (lit "not_after")
  return {
    keyId := keyId
    alg := alg
    publicKey := publicKey
    role := role
    status := status
    notBefore := notBefore
    notAfter := notAfter }

def loadTrustRegistry (path : PyStr) (file : Bytes) : Except PyExc TrustRegistry := do
  let data ← loadJsonObject env path file
  let keysData ← orLoaderError (data.get (lit "keys")).items?
    (lit "trust registry requires a keys array")
  let keys ← keysData.zipIdx.mapM fun (raw, index) => loadTrustKey env index raw
  return .ofList keys

/-! ## Policy registry -/

/-- The decisions that are not known, in order. -/
def invalidDecisions (decisions : List PyStr) : List PyStr :=
  (decisions.filter (· ∉ allowedDecisions)).dedup.insertionSort (· ≤ ·)

/-- The body of the loop over the rules of a policy. -/
def loadPolicyRule (index : ℕ) (raw : Json) : Except PyExc PolicyRule := do
  let rawRule ← orLoaderError raw.toDict? (itemField "rules" index ++ lit " must be an object")
  let role ← requiredStr (rawRule.get (lit "role")) (itemField "rules" index ++ lit ".role")
  requireAllowed role allowedRoles "policy role"
  let items ← orLoaderError ((rawRule.get (lit "allowed_decisions")).items?.filter (· ≠ []))
    (lit "allowed_decisions must be a non-empty array")
  let decisions ← orLoaderError (Json.strItems? items)
    (lit "allowed_decisions must contain only strings")
  requireLoader (invalidDecisions decisions = [])
    (lit "unsupported policy decisions: " ++ env.repr (.arr ((invalidDecisions decisions).map .str)))
  let sourceItems ← orLoaderError
    ((rawRule.get? (lit "allowed_sources")).getD (.arr [])).items?
    (lit "allowed_sources must be an array when provided")
  let sources ← orLoaderError (Json.strItems? sourceItems)
    (lit "allowed_sources must contain only strings")
  return {
    role := role
    allowedDecisions := decisions.toFinset
    allowedSources := sources.toFinset }

/-- The body of the loop over the policies. -/
def loadPolicy (index : ℕ) (raw : Json) : Except PyExc PolicyVersion := do
  let rawPolicy ← orLoaderError raw.toDict?
    (itemField "policies" index ++ lit " must be an object")
  let policyId ← requiredStr (rawPolicy.get (lit "policy_id")) (lit "policy_id")
  let version ← requiredStr (rawPolicy.get (lit "version")) (lit "version")
  let rulesData ← orLoaderError (rawPolicy.get (lit "rules")).items?
    (lit "policy " ++ policyId ++ lit " requires a rules array")
  let rules ← rulesData.zipIdx.mapM fun (raw, index) => loadPolicyRule env index raw
  return { policyId := policyId, version := version, rules := rules }

def loadPolicyRegistry (path : PyStr) (file : Bytes) : Except PyExc PolicyRegistry := do
  let data ← loadJsonObject env path file
  let policiesData ← orLoaderError (data.get (lit "policies")).items?
    (lit "policy registry requires a policies array")
  let policies ← policiesData.zipIdx.mapM fun (raw, index) => loadPolicy env index raw
  return .ofList policies

/-! ## What is loaded -/

/-- The bound is not given, or it is a time. -/
def IsTimed (bound : Option PyStr) : Prop := ∀ text, bound = some text → ∃ t, IsTimeOf text t

/-- A key of a registry file. -/
structure LoadedKey (key : TrustKey) : Prop where
  alg : key.alg = lit "EdDSA"
  role : key.role ∈ allowedRoles
  status : key.status ∈ allowedKeyStatus
  notBefore : IsTimed key.notBefore
  notAfter : IsTimed key.notAfter

/-- A rule of a registry file. -/
structure LoadedRule (rule : PolicyRule) : Prop where
  role : rule.role ∈ allowedRoles
  some_decision : rule.allowedDecisions.Nonempty
  decisions : ∀ decision ∈ rule.allowedDecisions, decision ∈ allowedDecisions

variable {env}

theorem orLoaderError_eq_ok {α : Type} {o : Option α} {message : PyStr} {a : α} :
    orLoaderError o message = .ok a ↔ o = some a := by
  cases o <;> simp [orLoaderError]

theorem requireLoader_eq_ok {p : Prop} [Decidable p] {message : PyStr} {u : Unit} :
    requireLoader p message = .ok u ↔ p := raiseUnless_eq_ok

theorem requireAllowed_eq_ok {value : PyStr} {allowed : List PyStr} {what : String} {u : Unit} :
    requireAllowed value allowed what = .ok u ↔ value ∈ allowed := requireLoader_eq_ok

theorem optionalTime_timed {value : Json} {field : PyStr} {bound : Option PyStr}
    (h : optionalTime env value field = .ok bound) : IsTimed bound := by
  unfold optionalTime at h
  split at h
  · obtain rfl := Except.ok.inj h
    rintro text ⟨⟩
  · obtain ⟨text, -, h⟩ := bind_eq_ok.mp h
    obtain ⟨t, ht, h⟩ := bind_eq_ok.mp h
    obtain rfl := Except.ok.inj h
    rintro _ ⟨⟩
    exact ⟨t, TrustRegistry.parseRfc3339Utc_eq_ok.mp (tryExcept_eq_ok.mp ht)⟩

theorem loadTrustKey_loaded {index : ℕ} {raw : Json} {key : TrustKey}
    (h : loadTrustKey env index raw = .ok key) : LoadedKey key := by
  unfold loadTrustKey at h
  simp only [bind_eq_ok, pure_eq_ok, requireAllowed_eq_ok] at h
  obtain ⟨rawKey, -, keyId, -, alg, -, publicKey, -, role, -, status, -, -, halg, -, hrole, -,
    hstatus, notBefore, hbefore, notAfter, hafter, rfl⟩ := h
  exact ⟨List.mem_singleton.mp halg, hrole, hstatus, optionalTime_timed hbefore,
    optionalTime_timed hafter⟩

/-- **The keys of a loaded trust registry are well-formed.** -/
theorem loadTrustRegistry_loaded {path : PyStr} {file : Bytes} {registry : TrustRegistry}
    (h : loadTrustRegistry env path file = .ok registry) {keyId : PyStr} {key : TrustKey}
    (hkey : registry.find? keyId = some key) : LoadedKey key := by
  unfold loadTrustRegistry at h
  simp only [bind_eq_ok, pure_eq_ok] at h
  obtain ⟨data, -, keysData, -, keys, hkeys, rfl⟩ := h
  obtain ⟨⟨raw, index⟩, -, hload⟩ := (mem_of_mapM hkeys).mp (Filed.mem_of_find?_ofList hkey)
  exact loadTrustKey_loaded hload

theorem invalidDecisions_eq_nil {decisions : List PyStr} :
    invalidDecisions decisions = [] ↔ ∀ decision ∈ decisions, decision ∈ allowedDecisions := by
  unfold invalidDecisions
  rw [← List.length_eq_zero_iff, List.length_insertionSort, List.length_eq_zero_iff,
    List.dedup_eq_nil, List.filter_eq_nil_iff]
  simp

theorem loadPolicyRule_loaded {index : ℕ} {raw : Json} {rule : PolicyRule}
    (h : loadPolicyRule env index raw = .ok rule) : LoadedRule rule := by
  unfold loadPolicyRule at h
  simp only [bind_eq_ok, pure_eq_ok, requireAllowed_eq_ok, requireLoader_eq_ok,
    orLoaderError_eq_ok, invalidDecisions_eq_nil, Json.strItems?_eq_some,
    Option.filter_eq_some_iff] at h
  obtain ⟨rawRule, -, role, -, -, hrole, items, ⟨-, hne⟩, decisions, rfl, -, hallowed,
    sourceItems, -, sources, -, rfl⟩ := h
  refine ⟨hrole, ?_, fun decision hmem => hallowed decision (List.mem_toFinset.mp hmem)⟩
  rw [List.toFinset_nonempty_iff]
  rintro rfl
  simp at hne

/-- **The rules of a loaded policy registry are well-formed.** -/
theorem loadPolicyRegistry_loaded {path : PyStr} {file : Bytes} {registry : PolicyRegistry}
    (h : loadPolicyRegistry env path file = .ok registry) {policyId : PyStr}
    {policy : PolicyVersion} (hpolicy : registry.find? policyId = some policy) :
    ∀ rule ∈ policy.rules, LoadedRule rule := by
  unfold loadPolicyRegistry at h
  simp only [bind_eq_ok, pure_eq_ok] at h
  obtain ⟨data, -, policiesData, -, policies, hpolicies, rfl⟩ := h
  obtain ⟨⟨raw, index⟩, -, hload⟩ :=
    (mem_of_mapM hpolicies).mp (Filed.mem_of_find?_ofList hpolicy)
  unfold loadPolicy at hload
  simp only [bind_eq_ok, pure_eq_ok] at hload
  obtain ⟨_, -, _, -, _, -, rulesData, -, rules, hrules, rfl⟩ := hload
  intro rule hrule
  obtain ⟨⟨rawRule, ruleIndex⟩, -, hrule⟩ := (mem_of_mapM hrules).mp hrule
  exact loadPolicyRule_loaded hrule

end Sentinel
