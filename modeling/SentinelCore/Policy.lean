import SentinelCore.Hashchain
import SentinelCore.Py.Filed
import Mathlib.Data.Finset.Basic

/-!
# Policies

`sentinel_core/policy.py`. A record names its policy; the first rule the policy has for a role says
which decisions the role may take, and from which sources (`Authorized`).
-/

namespace Sentinel

open Py Lib

/-- The decisions of a role, from the given sources or, if none is given, from all. -/
structure PolicyRule where
  role : PyStr
  allowedDecisions : Finset PyStr
  allowedSources : Finset PyStr

def PolicyRule.allows (rule : PolicyRule) (decision source : PyStr) : Prop :=
  decision ∈ rule.allowedDecisions ∧ (rule.allowedSources = ∅ ∨ source ∈ rule.allowedSources)

instance (rule : PolicyRule) (decision source : PyStr) : Decidable (rule.allows decision source) := by
  unfold PolicyRule.allows
  infer_instance

def policyError (message : PyStr) : PyExc := .raised (.derived "PolicyError") message

/-- `except PolicyError`. -/
def isPolicyError (e : PyExc) : Bool := e.cls = .derived "PolicyError"

structure PolicyVersion where
  policyId : PyStr
  version : PyStr
  rules : List PolicyRule

def PolicyVersion.ruleForRole (policy : PolicyVersion) (role : PyStr) : Except PyExc PolicyRule :=
  match policy.rules.find? fun rule => rule.role = role with
  | some rule => .ok rule
  | none => .error (policyError
      (lit "role is not authorized by policy " ++ policy.policyId ++ lit ": " ++ role))

/-- The policies, each under its `policy_id`. -/
abbrev PolicyRegistry := Filed PolicyVersion.policyId

def PolicyRegistry.resolve (registry : PolicyRegistry) (policyId : PyStr) :
    Except PyExc PolicyVersion :=
  match registry.find? policyId with
  | some policy => .ok policy
  | none => .error (policyError (lit "unknown policy_id: " ++ policyId))

/-- A rule without a restriction on the source. -/
def openRule (role : String) (decisions : List String) : PolicyRule :=
  ⟨lit role, (decisions.map lit).toFinset, ∅⟩

def defaultBootstrapPolicy : PolicyVersion where
  policyId := lit "policy.bootstrap"
  version := lit "0.1.0"
  rules := [
    openRule "sensor" ["review", "quarantine"],
    openRule "auditor" ["review", "allow", "deny"],
    openRule "authority" ["review", "allow", "deny", "quarantine"],
    openRule "admin" ["review", "allow", "deny", "quarantine"]]

/-- A field of the record that has to be a non-empty string. -/
def requiredField (record : Dict) (name : String) : Except PyExc PyStr :=
  match (record.get (lit name)).nonEmptyStr? with
  | some text => .ok text
  | none => .error (policyError (lit "record." ++ lit name ++ lit " is required"))

def authorizeRecord (record : Dict) (role : PyStr) (registry : PolicyRegistry) :
    Except PyExc Unit := do
  let policyId ← requiredField record "policy_id"
  let decision ← requiredField record "decision"
  let source ← requiredField record "source"
  let policy ← registry.resolve policyId
  let rule ← policy.ruleForRole role
  if rule.allows decision source then .ok ()
  else .error (policyError (lit "role " ++ role ++ lit " is not allowed to issue decision " ++
    decision ++ lit " under " ++ policyId))

/-! ## Authorization -/

/-- The field is a non-empty string. -/
def HasText (record : Dict) (name : String) (text : PyStr) : Prop :=
  record.get (lit name) = .str text ∧ text ≠ []

/-- The policy the record names lets the role take the decision from the source. -/
structure Authorized (record : Dict) (role : PyStr) (registry : PolicyRegistry) : Prop where
  rule_allows : ∃ policyId decision source policy rule,
    HasText record "policy_id" policyId ∧ HasText record "decision" decision ∧
      HasText record "source" source ∧ registry.find? policyId = some policy ∧
      policy.rules.find? (fun rule => rule.role = role) = some rule ∧ rule.allows decision source

theorem requiredField_eq_ok {record : Dict} {name : String} {text : PyStr} :
    requiredField record name = .ok text ↔ HasText record name text := by
  unfold requiredField HasText
  rw [← Json.nonEmptyStr?_eq_some]
  cases (record.get (lit name)).nonEmptyStr? <;> simp

theorem resolve_eq_ok {registry : PolicyRegistry} {policyId : PyStr} {policy : PolicyVersion} :
    registry.resolve policyId = .ok policy ↔ registry.find? policyId = some policy := by
  unfold PolicyRegistry.resolve
  cases registry.find? policyId <;> simp

theorem ruleForRole_eq_ok {policy : PolicyVersion} {role : PyStr} {rule : PolicyRule} :
    policy.ruleForRole role = .ok rule ↔
      policy.rules.find? (fun rule => rule.role = role) = some rule := by
  unfold PolicyVersion.ruleForRole
  cases policy.rules.find? fun rule => rule.role = role <;> simp

/-- **A record is authorized exactly when the first rule for the role allows it.** -/
theorem authorizeRecord_eq_ok {record : Dict} {role : PyStr} {registry : PolicyRegistry} :
    authorizeRecord record role registry = .ok () ↔ Authorized record role registry := by
  unfold authorizeRecord
  simp only [bind_eq_ok, requiredField_eq_ok, resolve_eq_ok, ruleForRole_eq_ok]
  constructor
  · rintro ⟨policyId, hid, decision, hdec, source, hsrc, policy, hpolicy, rule, hrule, h⟩
    split_ifs at h with hallows
    exact ⟨policyId, decision, source, policy, rule, hid, hdec, hsrc, hpolicy, hrule, hallows⟩
  · rintro ⟨policyId, decision, source, policy, rule, hid, hdec, hsrc, hpolicy, hrule, hallows⟩
    exact ⟨policyId, hid, decision, hdec, source, hsrc, policy, hpolicy, rule, hrule,
      if_pos hallows⟩

/-- A `PolicyError` of this module; its messages begin in one of two ways. -/
def IsRefusal (e : PyExc) : Prop :=
  ∃ message, e = policyError message ∧
    (message.head? = some (chr 'r') ∨ message.head? = some (chr 'u'))

theorem IsRefusal.isPolicyError {e : PyExc} (h : IsRefusal e) : isPolicyError e = true := by
  obtain ⟨message, rfl, -⟩ := h
  rfl

theorem requiredField_raises (record : Dict) (name : String) :
    Raises (requiredField record name) IsRefusal := by
  intro e h
  unfold requiredField at h
  cases hf : (record.get (lit name)).nonEmptyStr? with
  | none =>
    rw [hf] at h
    exact ⟨_, (Except.error.inj h).symm, .inl rfl⟩
  | some text => rw [hf] at h; cases h

theorem resolve_raises (registry : PolicyRegistry) (policyId : PyStr) :
    Raises (registry.resolve policyId) IsRefusal := by
  intro e h
  unfold PolicyRegistry.resolve at h
  cases hf : registry.find? policyId with
  | none =>
    rw [hf] at h
    exact ⟨_, (Except.error.inj h).symm, .inr rfl⟩
  | some policy => rw [hf] at h; cases h

theorem ruleForRole_raises (policy : PolicyVersion) (role : PyStr) :
    Raises (policy.ruleForRole role) IsRefusal := by
  intro e h
  unfold PolicyVersion.ruleForRole at h
  cases hf : policy.rules.find? fun rule => rule.role = role with
  | none =>
    rw [hf] at h
    exact ⟨_, (Except.error.inj h).symm, .inl rfl⟩
  | some rule => rw [hf] at h; cases h

theorem authorizeRecord_raises (record : Dict) (role : PyStr) (registry : PolicyRegistry) :
    Raises (authorizeRecord record role registry) IsRefusal := by
  refine raises_bind (requiredField_raises _ _) fun policyId _ =>
    raises_bind (requiredField_raises _ _) fun decision _ =>
    raises_bind (requiredField_raises _ _) fun source _ =>
    raises_bind (resolve_raises _ _) fun policy _ =>
    raises_bind (ruleForRole_raises _ _) fun rule _ e h => ?_
  split_ifs at h
  exact ⟨_, (Except.error.inj h).symm, .inl rfl⟩

end Sentinel
