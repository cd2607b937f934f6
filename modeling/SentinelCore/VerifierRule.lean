import SentinelCore.Verifier

/-!
# What the verifier accepts

`Accepted` is the rule for an evidence record under given options, and `verifyEvidenceRecord_ok_iff`
says that the verifier applies exactly this rule. Each stage has one lemma that says when it adds no
error:

1. the schema (`accepts_checkSchema`), the previous hash, the digest;
2. the key the record names (`accepts_resolveSigner`) and its signature (`accepts_checkSignature`),
   put together in `checkTrust_errors`;
3. the policy (`checkPolicy_errors`), for the role of that key, or the given one if there is no
   trust registry.

The last section is about the role that is authorized when no key resolves.
-/

namespace Sentinel

open Py Lib

variable {env : Env} {record : Dict} {opts : Options} {res : VerificationResult}

/-! ## The rule -/

/-- The record's signature names an active key, valid at the time of the record. -/
def NamesKey (record : Dict) (registry : TrustRegistry) (key : TrustKey) : Prop :=
  ∃ (signature : Dict) (keyId alg issuedAt : PyStr),
    record.get (lit "signature") = signature.toJson ∧
    signature.get (lit "key_id") = .str keyId ∧ signature.get (lit "alg") = .str alg ∧
    record.get (lit "issued_at") = .str issuedAt ∧
    TrustRegistry.ActiveAt registry keyId alg issuedAt key

/-- The record is signed with a key of the registry. -/
structure SignedBy (env : Env) (record : Dict) (registry : TrustRegistry) (key : TrustKey) :
    Prop where
  names : NamesKey record registry key
  eddsa : key.alg = lit "EdDSA"
  verifies : EddsaVerifies env record key.publicKey

/-- The role in which the record was issued: that of its key or, without a trust registry, the one
the caller gives. -/
def IssuedAs (record : Dict) (opts : Options) (role : PyStr) : Prop :=
  match opts.trustRegistry with
  | some registry => ∃ key, NamesKey record registry key ∧ key.role = role
  | none => opts.actorRole = some role

/-- The record passes every stage that is configured. -/
structure Accepted (env : Env) (record : Dict) (opts : Options) : Prop where
  conforms : Conforms record
  previousHash : record.get (lit "previous_hash") = .str opts.expectedPreviousHash
  digest : ∃ link, computeChainLink env record = .ok link ∧
    ∀ expected, opts.expectedDigest = some expected → link.digest = expected
  signatureValue : opts.requireSignatureValue = true →
    ∃ value, signatureValue record = .str value ∧ value ≠ []
  trustPresent : opts.requireTrustedSignature = true → opts.trustRegistry ≠ none
  trusted : ∀ registry, opts.trustRegistry = some registry → ∃ key, SignedBy env record registry key
  policyPresent : opts.requirePolicyAuthorization = true → opts.policyRegistry ≠ none
  authorized : ∀ policies, opts.policyRegistry = some policies →
    ∃ role, IssuedAs record opts role ∧ Authorized record role policies

theorem NamesKey.unique {registry : TrustRegistry} {key key' : TrustKey}
    (h : NamesKey record registry key) (h' : NamesKey record registry key') : key = key' := by
  obtain ⟨signature, keyId, alg, issuedAt, hsig, hkey, halg, hissued, hactive⟩ := h
  obtain ⟨signature', keyId', alg', issuedAt', hsig', hkey', halg', hissued', hactive'⟩ := h'
  obtain rfl := Dict.toJson_injective (hsig.symm.trans hsig')
  obtain rfl := Json.str.inj (hkey.symm.trans hkey')
  obtain rfl := Json.str.inj (halg.symm.trans halg')
  obtain rfl := Json.str.inj (hissued.symm.trans hissued')
  exact hactive.unique hactive'

/-! ## Structure and digest -/

theorem accepts_checkSchema : (checkSchema env record).Accepts () ↔ Conforms record := by
  unfold checkSchema
  rw [Check.accepts_attempt, validateEvidenceSchema_ok]

theorem accepts_checkPreviousHash {expected : PyStr} :
    (checkPreviousHash env record expected).Accepts () ↔
      record.get (lit "previous_hash") = .str expected := by
  unfold checkPreviousHash
  split_ifs with h
  · simp [h]
  · simp [h, Check.accepts_bind]

/-- The chain digest is there and is the expected one, if one is expected. -/
theorem digest_errors {expected : Option PyStr} :
    (computeDigest env record).2 = [] ∧ digestErrors (computeDigest env record).1 expected = [] ↔
      ∃ link, computeChainLink env record = .ok link ∧
        ∀ e, expected = some e → link.digest = e := by
  unfold computeDigest digestErrors
  cases computeChainLink env record with
  | error e => simp
  | ok link => cases expected <;> simp

/-- A record that conforms has a signature value. -/
theorem Conforms.signatureValue (h : Conforms record) :
    ∃ value, signatureValue record = .str value ∧ value ≠ [] := by
  obtain ⟨signature, value, hsig, hvalue, hlength⟩ := h.signature
  refine ⟨value, ?_, ?_⟩
  · unfold Sentinel.signatureValue
    rw [hsig, Json.dictOrEmpty_toJson, hvalue]
  · rintro rfl
    cases hlength

theorem signatureValueErrors_eq_nil {required : Bool} {value : PyStr}
    (h : signatureValue record = .str value) :
    signatureValueErrors record required = [] ↔ (required = true → value ≠ []) := by
  unfold signatureValueErrors
  rw [h]
  simp [Json.isTruthy]

/-! ## Trusted signature -/

theorem keyReference_eq_some {signature : Dict} {keyId alg : PyStr} :
    keyReference signature = some (keyId, alg) ↔
      signature.get (lit "key_id") = .str keyId ∧ signature.get (lit "alg") = .str alg := by
  unfold keyReference
  simp only [Option.bind_eq_bind, Option.bind_eq_some_iff, Json.str?_eq_some, Option.pure_def,
    Option.some.injEq, Prod.mk.injEq]
  constructor
  · rintro ⟨a, ha, b, hb, rfl, rfl⟩
    exact ⟨ha, hb⟩
  · rintro ⟨ha, hb⟩
    exact ⟨keyId, ha, alg, hb, rfl, rfl⟩

theorem accepts_resolveSigner {registry : TrustRegistry} {key : TrustKey} :
    (resolveSigner env record registry).Accepts key ↔ NamesKey record registry key := by
  unfold resolveSigner NamesKey
  simp only [Check.accepts_bind, Check.accepts_ofOption, Check.accepts_attempt, Prod.exists,
    keyReference_eq_some, Json.toDict?_eq_some, Json.str?_eq_some,
    TrustRegistry.resolveActiveKeyAt_eq_ok, and_assoc, exists_and_left]

theorem accepts_checkSignature {key : TrustKey} :
    (checkSignature env record key).Accepts () ↔
      key.alg = lit "EdDSA" ∧ EddsaVerifies env record key.publicKey := by
  unfold checkSignature
  split_ifs with h
  · rw [Check.accepts_attempt, verifyEddsaRecord_eq_ok, and_iff_right h]
  · simp [h]

theorem checkTrust_none {required : Bool} {t : Stage TrustKey}
    (h : checkTrust env record none required = .ok t) :
    t.value = none ∧ (t.errors = [] ↔ ¬required = true) := by
  unfold checkTrust at h
  cases required <;> (obtain rfl := Except.ok.inj h; simp)

/-- With a registry, the stage passes on the key the record names, and adds no error if the record
is signed with it. -/
theorem checkTrust_some {registry : TrustRegistry} {required : Bool} {t : Stage TrustKey}
    (h : checkTrust env record (some registry) required = .ok t) :
    (∀ key, t.value = some key ↔ NamesKey record registry key) ∧
      (t.errors = [] ↔ ∃ key, SignedBy env record registry key) := by
  unfold checkTrust at h
  obtain ⟨outcome, hrun, h⟩ := bind_eq_ok.mp h
  cases outcome with
  | error issue =>
    obtain rfl := Except.ok.inj h
    have hnone : ∀ key, ¬NamesKey record registry key := fun key hkey => by
      have hacc : (resolveSigner env record registry).run = .ok (.ok key) :=
        accepts_resolveSigner.mpr hkey
      rw [hacc] at hrun
      cases hrun
    refine ⟨fun key => iff_of_false (by simp) (hnone key), iff_of_false (by simp) ?_⟩
    rintro ⟨key, hkey⟩
    exact hnone key hkey.names
  | ok key =>
    obtain ⟨errors, herrors, h⟩ := bind_eq_ok.mp h
    obtain rfl := Except.ok.inj h
    have hkey : NamesKey record registry key := accepts_resolveSigner.mp hrun
    refine ⟨fun key' => ⟨?_, fun hkey' => congrArg some (hkey.unique hkey')⟩, ?_⟩
    · rintro ⟨⟩
      exact hkey
    · rw [Check.issues_eq_ok herrors, accepts_checkSignature]
      constructor
      · rintro ⟨halg, hverifies⟩
        exact ⟨key, hkey, halg, hverifies⟩
      · rintro ⟨key', hkey', halg, hverifies⟩
        obtain rfl := hkey.unique hkey'
        exact ⟨halg, hverifies⟩

/-! ## Policy -/

theorem checkPolicy_none {role : Option PyStr} {required : Bool} {p : Stage PyStr}
    (h : checkPolicy env record none role required = .ok p) :
    p.value = none ∧ (p.errors = [] ↔ ¬required = true) := by
  unfold checkPolicy at h
  cases required <;> (obtain rfl := Except.ok.inj h; simp)

/-- With a registry, the stage passes on the role if it is authorized, and adds an error if not. -/
theorem checkPolicy_some {policies : PolicyRegistry} {role : Option PyStr} {required : Bool}
    {p : Stage PyStr} (h : checkPolicy env record (some policies) role required = .ok p) :
    (∀ r, p.value = some r ↔ role = some r ∧ Authorized record r policies) ∧
      (p.errors = [] ↔ ∃ r, role = some r ∧ Authorized record r policies) := by
  unfold checkPolicy at h
  cases role with
  | none =>
    obtain rfl := Except.ok.inj h
    simp
  | some role =>
    obtain ⟨outcome, hrun, h⟩ := bind_eq_ok.mp h
    have hauth : (Check.attempt (authorizeRecord record role policies) isPolicyError
        env.strExc).Accepts () ↔ Authorized record role policies := by
      rw [Check.accepts_attempt, authorizeRecord_eq_ok]
    rw [Check.Accepts, hrun, Except.ok.injEq] at hauth
    cases outcome with
    | error issue =>
      obtain rfl := Except.ok.inj h
      have hnot : ¬Authorized record role policies := fun ha => by cases hauth.mpr ha
      simp [hnot]
    | ok u =>
      obtain rfl := Except.ok.inj h
      have ha := hauth.mp rfl
      simp only [Option.some.injEq, exists_eq_left', true_iff]
      refine ⟨fun r => ⟨?_, And.left⟩, ha⟩
      rintro rfl
      exact ⟨rfl, ha⟩

/-! ## The whole verification -/

theorem verifyEvidenceRecord_eq_ok :
    verifyEvidenceRecord env record opts = .ok res ↔ ∃ schemaErrors previousErrors trust policy,
      (checkSchema env record).issues = .ok schemaErrors ∧
      (checkPreviousHash env record opts.expectedPreviousHash).issues = .ok previousErrors ∧
      checkTrust env record opts.trustRegistry opts.requireTrustedSignature = .ok trust ∧
      checkPolicy env record opts.policyRegistry (policyRoleOf trust.value opts.actorRole)
        opts.requirePolicyAuthorization = .ok policy ∧
      conclude env record opts schemaErrors previousErrors trust policy = res := by
  unfold verifyEvidenceRecord
  simp only [bind_eq_ok, pure_eq_ok, exists_and_left]

theorem conclude_ok {schemaErrors previousErrors : List PyStr} {trust : Stage TrustKey}
    {policy : Stage PyStr} :
    (conclude env record opts schemaErrors previousErrors trust policy).ok = true ↔
      schemaErrors = [] ∧ previousErrors = [] ∧
      ((computeDigest env record).2 = [] ∧
        digestErrors (computeDigest env record).1 opts.expectedDigest = []) ∧
      signatureValueErrors record opts.requireSignatureValue = [] ∧ trust.errors = [] ∧
      policy.errors = [] := by
  unfold conclude
  simp only [List.isEmpty_iff, List.append_eq_nil_iff, and_assoc]

theorem checkTrust_errors {trustRegistry : Option TrustRegistry} {required : Bool}
    {t : Stage TrustKey} (h : checkTrust env record trustRegistry required = .ok t) :
    t.errors = [] ↔ (required = true → trustRegistry ≠ none) ∧
      ∀ registry, trustRegistry = some registry → ∃ key, SignedBy env record registry key := by
  cases trustRegistry with
  | none => simp [(checkTrust_none h).2]
  | some registry => simp [(checkTrust_some h).2]

/-- Once the trust stage is passed, the policy is asked about the role of the record. -/
theorem policyRoleOf_eq_some {t : Stage TrustKey}
    (h : checkTrust env record opts.trustRegistry opts.requireTrustedSignature = .ok t)
    (herrors : t.errors = []) {role : PyStr} :
    policyRoleOf t.value opts.actorRole = some role ↔ IssuedAs record opts role := by
  unfold IssuedAs
  cases hreg : opts.trustRegistry with
  | none =>
    rw [hreg] at h
    rw [(checkTrust_none h).1]
    rfl
  | some registry =>
    rw [hreg] at h
    obtain ⟨hvalue, hsigned⟩ := checkTrust_some h
    obtain ⟨key, hkey⟩ := hsigned.mp herrors
    rw [(hvalue key).mpr hkey.names]
    constructor
    · rintro ⟨⟩
      exact ⟨key, hkey.names, rfl⟩
    · rintro ⟨key', hkey', rfl⟩
      obtain rfl := hkey.names.unique hkey'
      rfl

theorem checkPolicy_errors {policyRegistry : Option PolicyRegistry} {role : Option PyStr}
    {required : Bool} {p : Stage PyStr}
    (h : checkPolicy env record policyRegistry role required = .ok p) :
    p.errors = [] ↔ (required = true → policyRegistry ≠ none) ∧
      ∀ policies, policyRegistry = some policies →
        ∃ r, role = some r ∧ Authorized record r policies := by
  cases policyRegistry with
  | none => simp [(checkPolicy_none h).2]
  | some policies => simp [(checkPolicy_some h).2]

/-- Only the role the policy was asked about can be passed on. -/
theorem checkPolicy_value {policyRegistry : Option PolicyRegistry} {role : Option PyStr}
    {required : Bool} {p : Stage PyStr}
    (h : checkPolicy env record policyRegistry role required = .ok p) :
    p.value = none ∨ p.value = role := by
  cases policyRegistry with
  | none => exact .inl (checkPolicy_none h).1
  | some policies =>
    cases hvalue : p.value with
    | none => exact .inl rfl
    | some r => exact .inr (((checkPolicy_some h).1 r).mp hvalue).1.symm

/-- With a resolved key, its role is reported. -/
theorem reportedRole_of_key {key : TrustKey} {actorRole : Option PyStr}
    {policyRegistry : Option PolicyRegistry} {required : Bool} {p : Stage PyStr}
    (hp : checkPolicy env record policyRegistry (policyRoleOf (some key) actorRole) required = .ok p) :
    p.value.or ((some key).map TrustKey.role) = some key.role := by
  rcases checkPolicy_value hp with h | h
  · rw [h]
    rfl
  · rw [h]
    rfl

/-- **A record is accepted exactly under the rule**, and with a trust registry it is reported with
the key that signed it and the role of that key. -/
theorem verifyEvidenceRecord_ok_iff (h : verifyEvidenceRecord env record opts = .ok res) :
    (res.ok = true ↔ Accepted env record opts) ∧
      (res.ok = true → ∀ registry, opts.trustRegistry = some registry →
        ∃ key, SignedBy env record registry key ∧ res.keyId = some key.keyId ∧
          res.actorRole = some key.role) := by
  obtain ⟨schemaErrors, previousErrors, trust, policy, hs, hprev, ht, hp, rfl⟩ :=
    verifyEvidenceRecord_eq_ok.mp h
  rw [conclude_ok, Check.issues_eq_ok hs, accepts_checkSchema, Check.issues_eq_ok hprev,
    accepts_checkPreviousHash, digest_errors, checkPolicy_errors hp]
  refine ⟨⟨?_, fun ha => ?_⟩, ?_⟩
  · rintro ⟨hconforms, hprevious, hdigest, -, htrust, hrequired, hpolicies⟩
    obtain ⟨hpresent, htrusted⟩ := (checkTrust_errors ht).mp htrust
    refine ⟨hconforms, hprevious, hdigest, fun _ => hconforms.signatureValue, hpresent, htrusted,
      hrequired, fun policies hpol => ?_⟩
    obtain ⟨role, hrole, hauth⟩ := hpolicies policies hpol
    exact ⟨role, (policyRoleOf_eq_some ht htrust).mp hrole, hauth⟩
  · obtain ⟨value, hvalue, hne⟩ := ha.conforms.signatureValue
    have htrust : trust.errors = [] := (checkTrust_errors ht).mpr ⟨ha.trustPresent, ha.trusted⟩
    refine ⟨ha.conforms, ha.previousHash, ha.digest,
      (signatureValueErrors_eq_nil hvalue).mpr fun _ => hne, htrust, ha.policyPresent,
      fun policies hpol => ?_⟩
    obtain ⟨role, hrole, hauth⟩ := ha.authorized policies hpol
    exact ⟨role, (policyRoleOf_eq_some ht htrust).mpr hrole, hauth⟩
  · rintro ⟨-, -, -, -, htrust, -⟩ registry hreg
    rw [hreg] at ht
    obtain ⟨hvalue, hsigned⟩ := checkTrust_some ht
    obtain ⟨key, hkey⟩ := hsigned.mp htrust
    have hkeyValue := (hvalue key).mpr hkey.names
    rw [hkeyValue] at hp
    refine ⟨key, hkey, ?_, ?_⟩
    · unfold conclude
      rw [hkeyValue]
      rfl
    · unfold conclude
      rw [hkeyValue]
      exact reportedRole_of_key hp

def sampleRecordSignature : PyStr :=
  lit "cydwt5oT5t03VxZ1J9o4Ud-uW1fCfeA13ScPN1KfM57Y85ZibfWLSn5KroV4IwqGtx6UoCoy1J2VlfuvqD4xBg"

/-- A record with a signature by the key `k1`. -/
def sampleRecord : Dict where
  fields := [
    (lit "schema_version", .str (lit "0.1.0")), (lit "evidence_id", .str (lit "ev-00001")),
    (lit "issued_at", .str (lit "2026-07-05T00:00:00Z")), (lit "source", .str (lit "sensor-1")),
    (lit "artifact_hash", .str zeroHash), (lit "previous_hash", .str zeroHash),
    (lit "policy_id", .str (lit "policy.bootstrap")), (lit "decision", .str (lit "allow")),
    (lit "signature", .obj [(lit "alg", .str (lit "EdDSA")), (lit "key_id", .str (lit "k1")),
      (lit "value", .str sampleRecordSignature)])]
  wf := by decide

def sampleKey : TrustKey where
  keyId := lit "k1"
  alg := lit "EdDSA"
  publicKey := lit "5cPmFWrYp4BKIcnhWkF3AeqOQspiiIhQ-zLYLdRrvew"
  role := lit "auditor"
  status := lit "active"
  notBefore := some (lit "2026-01-01T00:00:00Z")
  notAfter := none

/-- Both registries, a key and a policy required. -/
def sampleOptions : Options where
  trustRegistry := some (.ofList [sampleKey])
  requireTrustedSignature := true
  policyRegistry := some (.ofList [defaultBootstrapPolicy])
  requirePolicyAuthorization := true

theorem sampleRecord_accepted : Accepted demoEnv sampleRecord sampleOptions := by
  obtain ⟨res, h, hok⟩ : ∃ res, verifyEvidenceRecord demoEnv sampleRecord sampleOptions = .ok res ∧
      res.ok = true := exists_of_map (by decide +kernel)
  exact (verifyEvidenceRecord_ok_iff h).1.mp hok

/-! ## The role when no key resolves -/

/-- The role the caller gives makes no difference, and a role that is reported is that of the key
the record names. -/
structure FollowsRegistry (env : Env) (record : Dict) (opts : Options) (registry : TrustRegistry) :
    Prop where
  same : ∀ a b res res', verifyEvidenceRecord env record { opts with actorRole := a } = .ok res →
    verifyEvidenceRecord env record { opts with actorRole := b } = .ok res' → res = res'
  own : ∀ a res role, verifyEvidenceRecord env record { opts with actorRole := a } = .ok res →
    res.actorRole = some role → ∃ key, NamesKey record registry key ∧ key.role = role

/-- With a policy and a role, the stage always returns, and asks for no role. -/
theorem checkPolicy_asked (policies : PolicyRegistry) (role : PyStr) (required : Bool) :
    ∃ p, checkPolicy env record (some policies) (some role) required = .ok p ∧
      p.errors ≠ [roleRequired] := by
  unfold checkPolicy
  dsimp only
  cases ha : authorizeRecord record role policies with
  | ok u =>
    refine ⟨⟨[], [], some role⟩, ?_, by simp⟩
    rw [Check.run_attempt_ok rfl]
    rfl
  | error e =>
    have hrefusal := authorizeRecord_raises record role policies e ha
    refine ⟨⟨[env.strExc e], [], none⟩, ?_, fun h => ?_⟩
    · rw [Check.run_attempt_error rfl hrefusal.isPolicyError]
      rfl
    · obtain ⟨message, rfl, hhead⟩ := hrefusal
      obtain rfl : message = roleRequired := (List.cons.inj h).1
      exact absurd hhead (by decide)

theorem checkPolicy_none_congr {role role' : Option PyStr} {required : Bool} :
    checkPolicy env record none role required = checkPolicy env record none role' required := rfl

/-- **The given role is ignored exactly when there is no policy to ask or the key resolves.** -/
theorem followsRegistry_iff {registry : TrustRegistry} (hreg : opts.trustRegistry = some registry)
    (hret : verifyEvidenceRecord env record opts = .ok res) :
    FollowsRegistry env record opts registry ↔
      opts.policyRegistry = none ∨ ∃ key, NamesKey record registry key := by
  obtain ⟨schemaErrors, previousErrors, trust, policy, hs, hprev, ht, -, -⟩ :=
    verifyEvidenceRecord_eq_ok.mp hret
  have hvalue := (checkTrust_some (hreg ▸ ht)).1
  have hstages : ∀ a res, verifyEvidenceRecord env record { opts with actorRole := a } = .ok res ↔
      ∃ policy, checkPolicy env record opts.policyRegistry (policyRoleOf trust.value a)
        opts.requirePolicyAuthorization = .ok policy ∧
        conclude env record opts schemaErrors previousErrors trust policy = res := by
    intro a res
    rw [verifyEvidenceRecord_eq_ok]
    constructor
    · rintro ⟨_, _, _, policy, hs', hprev', ht', hp, rfl⟩
      obtain rfl := Except.ok.inj (hs.symm.trans hs')
      obtain rfl := Except.ok.inj (hprev.symm.trans hprev')
      obtain rfl := Except.ok.inj (ht.symm.trans ht')
      exact ⟨policy, hp, rfl⟩
    · rintro ⟨policy, hp, rfl⟩
      exact ⟨_, _, _, policy, hs, hprev, ht, hp, rfl⟩
  constructor
  · intro h
    by_contra hnot
    rw [not_or, not_exists] at hnot
    obtain ⟨policies, hpol⟩ := Option.ne_none_iff_exists'.mp hnot.1
    have hnone : trust.value = none := Option.eq_none_iff_forall_ne_some.mpr fun key hkey =>
      hnot.2 key ((hvalue key).mp hkey)
    obtain ⟨p, hp, hasked⟩ := @checkPolicy_asked env record policies []
      opts.requirePolicyAuthorization
    have hsame := h.same none (some []) _ _
      ((hstages _ _).mpr ⟨⟨[roleRequired], [], none⟩, by rw [hnone, hpol]; rfl, rfl⟩)
      ((hstages _ _).mpr ⟨p, by rw [hnone, hpol]; exact hp, rfl⟩)
    have herrors := congrArg VerificationResult.errors hsame
    exact hasked (List.append_cancel_left herrors).symm
  · intro h
    have hrole : ∀ a b, checkPolicy env record opts.policyRegistry (policyRoleOf trust.value a)
        opts.requirePolicyAuthorization = checkPolicy env record opts.policyRegistry
        (policyRoleOf trust.value b) opts.requirePolicyAuthorization := by
      intro a b
      rcases h with hnone | ⟨key, hkey⟩
      · rw [hnone]
        exact checkPolicy_none_congr
      · rw [(hvalue key).mpr hkey]
        rfl
    refine ⟨fun a b res res' hres hres' => ?_, fun a res role hres hr => ?_⟩
    · obtain ⟨p, hp, rfl⟩ := (hstages _ _).mp hres
      obtain ⟨p', hp', rfl⟩ := (hstages _ _).mp hres'
      obtain rfl := Except.ok.inj (hp.symm.trans ((hrole a b).trans hp'))
      rfl
    · obtain ⟨p, hp, rfl⟩ := (hstages _ _).mp hres
      unfold conclude at hr
      dsimp only at hr
      rcases h with hnone | ⟨key, hkey⟩
      · rw [hnone] at hp
        rw [(checkPolicy_none hp).1, Option.none_or] at hr
        obtain ⟨key, hkey, rfl⟩ := Option.map_eq_some_iff.mp hr
        exact ⟨key, (hvalue key).mp hkey, rfl⟩
      · rw [(hvalue key).mpr hkey] at hp hr
        rw [reportedRole_of_key hp] at hr
        exact ⟨key, hkey, Option.some.inj hr⟩

theorem followsRegistry_iff_sample :
    FollowsRegistry demoEnv sampleRecord sampleOptions (.ofList [sampleKey]) ↔
      sampleOptions.policyRegistry = none ∨
        ∃ key, NamesKey sampleRecord (.ofList [sampleKey]) key := by
  obtain ⟨res, h, -⟩ : ∃ res, verifyEvidenceRecord demoEnv sampleRecord sampleOptions = .ok res ∧
      res.ok = true := exists_of_map (by decide +kernel)
  exact followsRegistry_iff rfl h

/-- A registry that does not know the key of the record. -/
def keylessOptions : Options := { sampleOptions with trustRegistry := some .empty }

/-- The caller's role is authorized and reported. -/
theorem keylessOptions_followCaller : ∃ res,
    verifyEvidenceRecord demoEnv sampleRecord
      { keylessOptions with actorRole := some (lit "admin") } = .ok res ∧
    res.actorRole = some (lit "admin") ∧
    ¬FollowsRegistry demoEnv sampleRecord keylessOptions .empty := by
  obtain ⟨res, h, hrole⟩ : ∃ res, verifyEvidenceRecord demoEnv sampleRecord
      { keylessOptions with actorRole := some (lit "admin") } = .ok res ∧
      res.actorRole = some (lit "admin") := exists_of_map (by decide +kernel)
  refine ⟨res, h, hrole, fun hfollows => ?_⟩
  obtain ⟨key, ⟨_, _, _, _, -, -, -, -, hactive⟩, -⟩ := hfollows.own _ res _ h hrole
  cases hactive.registered

end Sentinel
