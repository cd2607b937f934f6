import SentinelCore.Schema
import SentinelCore.Trust
import SentinelCore.Policy
import SentinelCore.Crypto

/-!
# Verification of evidence records

`sentinel_core/verifier.py`. Every stage adds its errors to the list of errors, and a record is
accepted if there is none. The key that the trust registry resolves is kept even when its signature
does not verify.
-/

namespace Sentinel

open Py Lib

structure VerificationResult where
  ok : Bool
  digest : Option PyStr
  errors : List PyStr
  warnings : List PyStr
  actorRole : Option PyStr
  keyId : Option PyStr
  deriving DecidableEq

/-- The keyword arguments of `verify_evidence_record`. -/
structure Options where
  expectedPreviousHash : PyStr := zeroHash
  expectedDigest : Option PyStr := none
  requireSignatureValue : Bool := true
  trustRegistry : Option TrustRegistry := none
  requireTrustedSignature : Bool := false
  policyRegistry : Option PolicyRegistry := none
  actorRole : Option PyStr := none
  requirePolicyAuthorization : Bool := false

/-- `signature.get("value") if isinstance(signature, dict) else None`. -/
def signatureValue (record : Dict) : Json :=
  (record.get (lit "signature")).dictOrEmpty.get (lit "value")

/-- `except SchemaValidationError`. -/
def isSchemaValidationError (e : PyExc) : Bool := e.cls = .derived "SchemaValidationError"

variable (env : Env)

/-! ## Structure and digest -/

def checkSchema (record : Dict) : Check PyExc PyStr Unit :=
  Check.attempt (validateEvidenceSchema env record) isSchemaValidationError env.strExc

def checkPreviousHash (record : Dict) (expected : PyStr) : Check PyExc PyStr Unit :=
  if record.get (lit "previous_hash") = .str expected then pure ()
  else do
    let shown ← Check.ofExcept (env.strJson (record.get (lit "previous_hash")))
    throw (lit "previous_hash mismatch: expected " ++ expected ++ lit ", got " ++ shown)

/-- The digest, and the error if there is none. No exception leaves this stage. -/
def computeDigest (record : Dict) : Option PyStr × List PyStr :=
  match computeChainLink env record with
  | .ok link => (some link.digest, [])
  | .error e => (none, [lit "digest computation failed: " ++ env.strExc e])

def digestErrors (digest expected : Option PyStr) : List PyStr :=
  match expected with
  | none => []
  | some expected =>
    if digest = some expected then []
    else [lit "digest mismatch: expected " ++ expected ++ lit ", got " ++
      digest.getD (lit "None")]

def signatureValueErrors (record : Dict) (required : Bool) : List PyStr :=
  if required ∧ ¬(signatureValue record).isTruthy then [lit "signature.value is required"] else []

/-! ## Trusted signature -/

/-- The strings `key_id` and `alg`. -/
def keyReference (signature : Dict) : Option (PyStr × PyStr) := do
  let keyId ← (signature.get (lit "key_id")).str?
  let alg ← (signature.get (lit "alg")).str?
  return (keyId, alg)

/-- The key the record names. -/
def resolveSigner (record : Dict) (registry : TrustRegistry) : Check PyExc PyStr TrustKey := do
  let signature ← Check.ofOption (record.get (lit "signature")).toDict?
    (lit "signature object is required for trusted verification")
  let (keyId, alg) ← Check.ofOption (keyReference signature)
    (lit "signature.key_id and signature.alg are required")
  let issuedAt ← Check.ofOption (record.get (lit "issued_at")).str?
    (lit "record.issued_at is required for trusted verification")
  Check.attempt (registry.resolveActiveKeyAt keyId alg issuedAt) TrustRegistry.isTrustRegistryError
    env.strExc

def checkSignature (record : Dict) (key : TrustKey) : Check PyExc PyStr Unit :=
  if key.alg = lit "EdDSA" then
    Check.attempt (verifyEddsaRecord env record key.publicKey) isCryptoVerificationError env.strExc
  else throw (lit "unsupported trusted signature algorithm: " ++ key.alg)

/-- What a stage adds to the errors and warnings, and what it passes on. -/
structure Stage (α : Type) where
  errors : List PyStr
  warnings : List PyStr
  value : Option α

/-- The stage of the trust registry. It passes on the key that was resolved. -/
def checkTrust (record : Dict) (trustRegistry : Option TrustRegistry) (required : Bool) :
    Except PyExc (Stage TrustKey) :=
  match trustRegistry with
  | none =>
    if required then
      return ⟨[lit "trusted signature verification requested without trust registry"], [], none⟩
    else return ⟨[], [lit "cryptographic signature verification not requested"], none⟩
  | some registry => do
    match ← (resolveSigner env record registry).run with
    | .error issue => return ⟨[issue], [], none⟩
    | .ok key =>
      let errors ← (checkSignature env record key).issues
      return ⟨errors, [], some key⟩

/-! ## Policy -/

def roleRequired : PyStr :=
  lit "trusted key role or actor_role is required for policy authorization"

/-- The stage of the policy registry. It passes on the role that was authorized. -/
def checkPolicy (record : Dict) (policyRegistry : Option PolicyRegistry)
    (policyRole : Option PyStr) (required : Bool) : Except PyExc (Stage PyStr) :=
  match policyRegistry with
  | none =>
    if required then
      return ⟨[lit "policy authorization requested without policy registry"], [], none⟩
    else return ⟨[], [lit "policy authorization not requested"], none⟩
  | some registry =>
    match policyRole with
    | none => return ⟨[roleRequired], [], none⟩
    | some role => do
      match ← (Check.attempt (authorizeRecord record role registry) isPolicyError env.strExc).run with
      | .error issue => return ⟨[issue], [], none⟩
      | .ok () => return ⟨[], [], some role⟩

/-- `resolved_trust_key.role if resolved_trust_key is not None else actor_role`. -/
def policyRoleOf (key : Option TrustKey) (actorRole : Option PyStr) : Option PyStr :=
  match key with
  | some key => some key.role
  | none => actorRole

/-- The result, from the errors of the first two checks and what the registries gave. -/
def conclude (record : Dict) (opts : Options) (schemaErrors previousErrors : List PyStr)
    (trust : Stage TrustKey) (policy : Stage PyStr) : VerificationResult :=
  let (digest, chainErrors) := computeDigest env record
  let errors := schemaErrors ++ previousErrors ++ chainErrors ++
    digestErrors digest opts.expectedDigest ++
    signatureValueErrors record opts.requireSignatureValue ++ trust.errors ++ policy.errors
  { ok := errors.isEmpty
    digest := digest
    errors := errors
    warnings := trust.warnings ++ policy.warnings
    actorRole := policy.value.or (trust.value.map TrustKey.role)
    keyId := trust.value.map TrustKey.keyId }

def verifyEvidenceRecord (record : Dict) (opts : Options) : Except PyExc VerificationResult := do
  let schemaErrors ← (checkSchema env record).issues
  let previousErrors ← (checkPreviousHash env record opts.expectedPreviousHash).issues
  let trust ← checkTrust env record opts.trustRegistry opts.requireTrustedSignature
  let policy ← checkPolicy env record opts.policyRegistry (policyRoleOf trust.value opts.actorRole)
    opts.requirePolicyAuthorization
  return conclude env record opts schemaErrors previousErrors trust policy

end Sentinel
