import SentinelCore.VerifierRule
import SentinelCore.RegistryLoader

/-!
# When evidence verification raises

The verifier turns most failures of a stage into an error of the record. What escapes is the conversion
of the record's time to UTC that leaves the years 1–9999, once the record names an active key, and values
that nest deeper than the interpreter recurses: where they are shown in a message, and where the text that
is signed is written. `verifyEvidenceRecord_returns_iff` says that, over registries read from files, there
is no other way to raise, and `handled_iff_of_shallow` that shallow records leave only the first.
-/

namespace Sentinel

open Py Lib

variable {env : Env} {record : Dict} {opts : Options}

/-- The record names an active key of the registry, but its time leaves the supported years. -/
def OutOfYears (record : Dict) (registry : TrustRegistry) : Prop :=
  ∃ (signature : Dict) (keyId alg issuedAt : PyStr) (key : TrustKey),
    record.get (lit "signature") = signature.toJson ∧
    signature.get (lit "key_id") = .str keyId ∧ signature.get (lit "alg") = .str alg ∧
    record.get (lit "issued_at") = .str issuedAt ∧
    TrustRegistry.Active registry keyId alg key ∧ LeavesYears issuedAt

/-! ## Keys -/

theorem IsTimed.not_leavesYears {bound : Option PyStr} (h : IsTimed bound) :
    ∀ text, bound = some text → ¬LeavesYears text := by
  intro text htext hleaves
  obtain ⟨t, ht⟩ := h text htext
  exact hleaves.not_isTimeOf ht

/-- If the bounds of the keys are times, only the time of the record can fail. -/
theorem resolveActiveKeyAt_fails {registry : TrustRegistry} {keyId alg issuedAt : PyStr}
    (htimed : ∀ key, registry.find? keyId = some key → LoadedKey key) :
    (∃ e, registry.resolveActiveKeyAt keyId alg issuedAt = .error e ∧
        TrustRegistry.isTrustRegistryError e = false) ↔
      ∃ key, TrustRegistry.Active registry keyId alg key ∧ LeavesYears issuedAt := by
  unfold TrustRegistry.resolveActiveKeyAt
  constructor
  · rintro ⟨e, he, huncaught⟩
    have hnot : ¬TrustRegistry.isTrustRegistryError e = true := by
      rw [huncaught]
      exact Bool.false_ne_true
    rcases bind_eq_error.mp he with he | ⟨key, hkey, he⟩
    · exact absurd (TrustRegistry.resolveActiveKey_raises _ _ _ e he) hnot
    have hactive := TrustRegistry.resolveActiveKey_eq_ok.mp hkey
    have hloaded := htimed key hactive.registered
    rcases bind_eq_error.mp he with he | ⟨issued, -, he⟩
    · exact ⟨key, hactive, ((TrustRegistry.parseRfc3339Utc_error he).resolve_left hnot).1⟩
    rcases bind_eq_error.mp he with he | ⟨-, -, he⟩
    · exact absurd (TrustRegistry.checkBound_raises hloaded.notBefore.not_leavesYears e he) hnot
    rcases bind_eq_error.mp he with he | ⟨-, -, he⟩
    · exact absurd (TrustRegistry.checkBound_raises hloaded.notAfter.not_leavesYears e he) hnot
    · cases he
  · rintro ⟨key, hactive, hleaves⟩
    refine ⟨.std .overflowError (.astimezone issuedAt), ?_, rfl⟩
    rw [TrustRegistry.resolveActiveKey_eq_ok.mpr hactive]
    exact bind_eq_error.mpr (.inr ⟨key, rfl, bind_eq_error.mpr
      (.inl (TrustRegistry.parseRfc3339Utc_leavesYears hleaves))⟩)

theorem crashes_resolveSigner {registry : TrustRegistry}
    (hloaded : ∀ keyId key, registry.find? keyId = some key → LoadedKey key) :
    (∃ e, (resolveSigner env record registry).Crashes e) ↔ OutOfYears record registry := by
  unfold resolveSigner OutOfYears
  simp only [Check.crashes_bind, Check.accepts_ofOption, Check.not_crashes_ofOption, false_or,
    Check.crashes_attempt, Prod.exists, keyReference_eq_some, Json.toDict?_eq_some,
    Json.str?_eq_some]
  constructor
  · rintro ⟨e, signature, hsig, keyId, alg, ⟨hkey, halg⟩, issuedAt, hissued, h⟩
    obtain ⟨key, hactive, hleaves⟩ := (resolveActiveKeyAt_fails (hloaded keyId)).mp ⟨e, h⟩
    exact ⟨signature, keyId, alg, issuedAt, key, hsig, hkey, halg, hissued, hactive, hleaves⟩
  · rintro ⟨signature, keyId, alg, issuedAt, key, hsig, hkey, halg, hissued, hactive, hleaves⟩
    obtain ⟨e, h⟩ := (resolveActiveKeyAt_fails (hloaded keyId)).mpr ⟨key, hactive, hleaves⟩
    exact ⟨e, signature, hsig, keyId, alg, ⟨hkey, halg⟩, issuedAt, hissued, h⟩

/-! ## Stages -/

theorem crashes_checkSchema :
    (∃ e, (checkSchema env record).Crashes e) ↔
      ¬∃ errors, env.iterErrors evidenceSchema record.toJson = .ok errors := by
  unfold checkSchema isSchemaValidationError
  simp only [Check.crashes_attempt, decide_eq_false_iff_not]
  exact validateEvidenceSchema_escapes_iff

/-- What a record holds can be written into a message, if it nests no deeper than that. -/
theorem strJson_get (hints : record.toJson.intsPrintable = true) (key : PyStr) :
    (∃ text, env.strJson (record.get key) = .ok text) ↔ (record.get key).depth ≤ env.maxReprDepth := by
  have hprintable := Dict.get_intsPrintable hints key
  cases hv : record.get key with
  | str s => exact iff_of_true ⟨s, rfl⟩ (Nat.zero_le _)
  | _ =>
    rw [hv] at hprintable
    constructor
    · rintro ⟨text, h⟩
      obtain ⟨_, hlimits, -⟩ := bind_eq_ok.mp h
      exact (Runtime.limitsOf_ok.mp hlimits).1
    · intro h
      exact ⟨_, bind_eq_ok.mpr ⟨(), Runtime.limitsOf_ok.mpr ⟨h, hprintable⟩, rfl⟩⟩

theorem crashes_checkPreviousHash (hints : record.toJson.intsPrintable = true) {expected : PyStr} :
    (∃ e, (checkPreviousHash env record expected).Crashes e) ↔
      ¬(record.get (lit "previous_hash")).depth ≤ env.maxReprDepth := by
  unfold checkPreviousHash
  split_ifs with h
  · refine iff_of_false (fun ⟨e, he⟩ => Check.not_crashes_pure he) (not_not.mpr ?_)
    rw [h]
    exact Nat.zero_le _
  · rw [← strJson_get hints]
    cases hshown : env.strJson (record.get (lit "previous_hash")) with
    | ok text => simp [Check.crashes_bind]
    | error e => simp [Check.crashes_bind]

theorem crashes_checkSignature (hints : record.toJson.intsPrintable = true) {key : TrustKey} :
    (∃ e, (checkSignature env record key).Crashes e) ↔
      key.alg = lit "EdDSA" ∧ ChainTooDeep env record key.publicKey := by
  unfold checkSignature
  split_ifs with h
  · simp only [Check.crashes_attempt, and_iff_right h]
    exact verifyEddsaRecord_escapes_iff hints
  · refine iff_of_false ?_ fun h' => h h'.1
    rintro ⟨e, he⟩
    exact Check.not_crashes_throw he

/-- A check that does not crash adds to the errors. -/
theorem exists_issues_iff {c : Check PyExc PyStr Unit} :
    (∃ issues, c.issues = .ok issues) ↔ ¬∃ e, c.Crashes e := by
  constructor
  · rintro ⟨issues, h⟩ ⟨e, he⟩
    rw [Check.issues, he] at h
    cases h
  · intro h
    exact Check.exists_issues (not_exists.mp h)

theorem checkPolicy_returns (policyRegistry : Option PolicyRegistry) (role : Option PyStr)
    (required : Bool) : ∃ p, checkPolicy env record policyRegistry role required = .ok p := by
  cases policyRegistry with
  | none => cases required <;> exact ⟨_, rfl⟩
  | some policies =>
    cases role with
    | none => exact ⟨_, rfl⟩
    | some role => exact (checkPolicy_asked policies role required).imp fun p hp => hp.1

/-- The record stays clear of the inputs on which verification raises. -/
structure Handled (env : Env) (record : Dict) (opts : Options) : Prop where
  /-- The validator can list the errors of the record. -/
  schema : ∃ errors, env.iterErrors evidenceSchema record.toJson = .ok errors
  previousHash : (record.get (lit "previous_hash")).depth ≤ env.maxReprDepth
  years : ∀ registry, opts.trustRegistry = some registry → ¬OutOfYears record registry
  chain : ∀ registry key, opts.trustRegistry = some registry → NamesKey record registry key →
    key.alg = lit "EdDSA" → ¬ChainTooDeep env record key.publicKey

theorem checkTrust_returns_iff (hints : record.toJson.intsPrintable = true)
    {trustRegistry : Option TrustRegistry} {required : Bool}
    (hloaded : ∀ registry, trustRegistry = some registry → ∀ keyId key,
      registry.find? keyId = some key → LoadedKey key) :
    (∃ t, checkTrust env record trustRegistry required = .ok t) ↔
      (∀ registry, trustRegistry = some registry → ¬OutOfYears record registry) ∧
        ∀ registry key, trustRegistry = some registry → NamesKey record registry key →
          key.alg = lit "EdDSA" → ¬ChainTooDeep env record key.publicKey := by
  cases trustRegistry with
  | none => cases required <;> exact iff_of_true ⟨_, rfl⟩ (by simp)
  | some registry =>
    simp only [Option.some.injEq, forall_eq']
    have hcheck : ∀ key, (∃ errors, (checkSignature env record key).issues = .ok errors) ↔
        (key.alg = lit "EdDSA" → ¬ChainTooDeep env record key.publicKey) := fun key => by
      rw [exists_issues_iff, crashes_checkSignature hints, not_and]
    rw [← @crashes_resolveSigner env record _ (hloaded registry rfl), not_exists]
    unfold checkTrust
    constructor
    · rintro ⟨t, ht⟩
      obtain ⟨outcome, hrun, ht⟩ := bind_eq_ok.mp ht
      refine ⟨fun e hcrash => ?_, fun _ key hreg hkey => ?_⟩
      · rw [hcrash] at hrun
        cases hrun
      · subst hreg
        obtain rfl := Except.ok.inj (hrun.symm.trans (accepts_resolveSigner.mpr hkey))
        obtain ⟨errors, herrors, -⟩ := bind_eq_ok.mp ht
        exact (hcheck key).mp ⟨errors, herrors⟩
    · rintro ⟨hno, hchain⟩
      rcases Check.trichotomy (resolveSigner env record registry) with
        ⟨key, hkey⟩ | ⟨issue, hissue⟩ | ⟨e, he⟩
      · obtain ⟨errors, herrors⟩ :=
          (hcheck key).mpr (hchain registry key rfl (accepts_resolveSigner.mp hkey))
        exact ⟨_, bind_eq_ok.mpr ⟨_, hkey, bind_eq_ok.mpr ⟨errors, herrors, rfl⟩⟩⟩
      · exact ⟨_, bind_eq_ok.mpr ⟨_, hissue, rfl⟩⟩
      · exact absurd he (hno e)

/-- **Verification returns exactly on the handled records.** Of what `json.loads` guarantees, it takes
that no integer is too long to be printed. -/
theorem verifyEvidenceRecord_returns_iff (hints : record.toJson.intsPrintable = true)
    (hloaded : ∀ registry, opts.trustRegistry = some registry →
      ∃ path file, loadTrustRegistry env path file = .ok registry) :
    (∃ res, verifyEvidenceRecord env record opts = .ok res) ↔ Handled env record opts := by
  have hkeys : ∀ registry, opts.trustRegistry = some registry → ∀ keyId key,
      registry.find? keyId = some key → LoadedKey key := by
    intro registry hreg keyId key hkey
    obtain ⟨path, file, hfile⟩ := hloaded registry hreg
    exact loadTrustRegistry_loaded hfile hkey
  have htrust := @checkTrust_returns_iff env record hints _ opts.requireTrustedSignature hkeys
  have hschema : (∃ issues, (checkSchema env record).issues = .ok issues) ↔
      ∃ errors, env.iterErrors evidenceSchema record.toJson = .ok errors := by
    rw [exists_issues_iff, crashes_checkSchema, not_not]
  have hprevious : (∃ issues, (checkPreviousHash env record opts.expectedPreviousHash).issues =
      .ok issues) ↔ (record.get (lit "previous_hash")).depth ≤ env.maxReprDepth := by
    rw [exists_issues_iff, crashes_checkPreviousHash hints, not_not]
  simp only [verifyEvidenceRecord_eq_ok]
  constructor
  · rintro ⟨res, schemaErrors, previousErrors, trust, _, hs, hprev, ht, -⟩
    obtain ⟨hyears, hchain⟩ := htrust.mp ⟨trust, ht⟩
    exact ⟨hschema.mp ⟨_, hs⟩, hprevious.mp ⟨_, hprev⟩, hyears, hchain⟩
  · rintro ⟨hs, hprev, hyears, hchain⟩
    obtain ⟨schemaErrors, hs⟩ := hschema.mpr hs
    obtain ⟨previousErrors, hprev⟩ := hprevious.mpr hprev
    obtain ⟨trust, ht⟩ := htrust.mpr ⟨hyears, hchain⟩
    obtain ⟨policy, hp⟩ := @checkPolicy_returns env record opts.policyRegistry
      (policyRoleOf trust.value opts.actorRole) opts.requirePolicyAuthorization
    exact ⟨_, schemaErrors, previousErrors, trust, policy, hs, hprev, ht, hp, rfl⟩

/-- Of the records that nest no deeper than the interpreter writes and shows, those that send an active
key out of the years are not handled. -/
theorem handled_iff_of_shallow (hints : record.toJson.intsPrintable = true)
    (hdump : record.toJson.depth ≤ env.maxDumpDepth) (hrepr : record.toJson.depth ≤ env.maxReprDepth) :
    Handled env record opts ↔
      ∀ registry, opts.trustRegistry = some registry → ¬OutOfYears record registry := by
  have hprevious : (record.get (lit "previous_hash")).depth ≤ env.maxReprDepth :=
    (record.depth_get_lt _).le.trans hrepr
  refine ⟨Handled.years, fun hyears => ⟨env.iterErrors_returns _ hrepr hints, hprevious, hyears, ?_⟩⟩
  rintro registry key - - - ⟨-, -, hdeep⟩
  exact absurd (unsignedRecord_limits hdump hints).1 (not_le.mpr hdeep)

/-- A file with one key. -/
def trustFile : Bytes :=
  ((encodeUtf8 (lit "\x7b\"keys\":[\x7b\"key_id\":\"k1\",\"alg\":\"EdDSA\",\"role\":\"auditor\"," ++
    lit "\"public_key\":\"5cPmFWrYp4BKIcnhWkF3AeqOQspiiIhQ-zLYLdRrvew\"\x7d]\x7d")).toOption).getD []

def fileRegistry : TrustRegistry := (loadTrustRegistry demoEnv [] trustFile).toOption.getD .empty

theorem fileRegistry_loaded : loadTrustRegistry demoEnv [] trustFile = .ok fileRegistry :=
  eq_ok_getD (by decide +kernel)

def fileOptions : Options := { trustRegistry := some fileRegistry }

theorem fileOptions_loaded : ∀ registry, fileOptions.trustRegistry = some registry →
    ∃ path file, loadTrustRegistry demoEnv path file = .ok registry := by
  intro registry h
  obtain rfl : fileRegistry = registry := Option.some.inj h
  exact ⟨_, _, fileRegistry_loaded⟩

theorem sampleRecord_handled : Handled demoEnv sampleRecord fileOptions := by
  obtain ⟨res, h, -⟩ : ∃ res, verifyEvidenceRecord demoEnv sampleRecord fileOptions = .ok res ∧
      res.ok = true := exists_of_map (by decide +kernel)
  exact (verifyEvidenceRecord_returns_iff (by decide +kernel) fileOptions_loaded).mp ⟨res, h⟩

/-- The record, issued in the year 1 but before it in UTC. -/
def earlyRecord : Dict :=
  sampleRecord.set (lit "issued_at") (.str (lit "0001-01-01T00:00:00+23:59")) (by decide)

/-- An `OverflowError` leaves the verifier. -/
theorem earlyRecord_raises : demoEnv.Loadable earlyRecord.toJson ∧
    loadTrustRegistry demoEnv [] trustFile = .ok fileRegistry ∧
    ¬∃ res, verifyEvidenceRecord demoEnv earlyRecord fileOptions = .ok res := by
  refine ⟨by decide +kernel, fileRegistry_loaded, ?_⟩
  rintro ⟨res, h⟩
  exact ne_ok_of_isNone (by decide +kernel) res h

end Sentinel
