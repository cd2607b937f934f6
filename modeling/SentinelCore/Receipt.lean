import SentinelCore.Hashchain
import SentinelCore.Py.DateTime
import SentinelCore.Lib.Tally

/-!
# Receipt verification

`sentinel_core/receipt.py`. `verifyReceipt` collects issues: the checks of the receipt's own fields
(`policyIssues`, `checkFields`), one tally over the signature entries (`verifySignature` is the body
of that loop, where an issue stands for `continue`), and the thresholds (`finish`). A trust registry
is the `dict` the caller passes; its entries are whatever JSON it was read from.
-/

namespace Sentinel.Receipt

open Py Lib

inductive ReceiptStatus where
  | rcVerified
  | notVerified
  | configError
  deriving DecidableEq

inductive IssueSeverity where
  | error
  | warning
  | info
  deriving DecidableEq

structure ReceiptVerificationIssue where
  severity : IssueSeverity
  code : String
  message : PyStr
  deriving DecidableEq

structure ReceiptVerificationResult where
  status : ReceiptStatus
  verified : Bool
  validSignatures : ℕ
  requiredSignatures : ℤ
  matchedRoles : List PyStr
  receiptHash : Option PyStr
  issues : List ReceiptVerificationIssue
  deriving DecidableEq

def errorIssue (code : String) (message : PyStr) : ReceiptVerificationIssue := ⟨.error, code, message⟩

/-- An issue that is appended under a condition. -/
def issueIf (p : Prop) [Decidable p] (issue : ReceiptVerificationIssue) :
    List ReceiptVerificationIssue :=
  if p then [issue] else []

variable (env : Env)

/-! ## Payload -/

def b64urlDecode (value : PyStr) : Except PyExc Bytes := do
  let data ← encodeAscii (addPad value)
  urlsafeB64decode data

def b64urlEncode (value : Bytes) : PyStr := b64urlText value

def parseRfc3339Utc (value : PyStr) : Except PyExc Instant := do
  let parsed ← fromisoformat (replaceZulu value)
  match parsed.offset with
  | none => .error (.raised .valueError (lit "timestamp must include timezone: " ++ value))
  | some offset => astimezoneUtc parsed.wall offset value

/-- `receipt["chain"]` if it is an object, else the empty one. -/
def chainOf (receipt : Dict) : Dict := (receipt.get (lit "chain")).dictOrEmpty

/-- The top-level fields that are signed, apart from the chain. -/
def signedFields : List String :=
  ["schema_version", "receipt_id", "receipt_type", "subject", "created_at", "release_class",
    "policy", "evidence"]

/-- The fields of the chain that are signed. -/
def signedChainFields : List String := ["sequence", "previous_hash"]

/-- The named fields of a `dict`, a missing one read as null. -/
def selectFields (d : Dict) (names : List String) : List (PyStr × Json) :=
  names.map fun name => (lit name, d.get (lit name))

def unsignedReceipt (receipt : Dict) : Json :=
  .obj (selectFields receipt signedFields ++
    [(lit "chain", .obj (selectFields (chainOf receipt) signedChainFields))])

def buildUnsignedReceiptPayload (receipt : Dict) : Except PyExc PyStr :=
  canonicalizeJson env (unsignedReceipt receipt)

def receiptHash (receipt : Dict) : Except PyExc PyStr := do
  let payload ← buildUnsignedReceiptPayload env receipt
  sha256Prefixed env payload

def payloadB64 (receipt : Dict) : Except PyExc PyStr := do
  let payload ← buildUnsignedReceiptPayload env receipt
  let data ← encodeUtf8 payload
  return b64urlEncode data

/-! ## ES256 -/

/-- One coordinate, `int.from_bytes(_b64url_decode(str(jwk[name])), "big")`. -/
def coordinate (jwk : Dict) (name : String) : Except PyExc ℕ := do
  let value ← jwk.getItem (lit name)
  let text ← env.strJson value
  let data ← b64urlDecode text
  return natOfBytes data

/-- The point of a public key. -/
def loadEs256PublicKey (jwk : Dict) : Except PyExc (ℕ × ℕ) :=
  if jwk.get (lit "kty") ≠ .str (lit "EC") ∨ jwk.get (lit "crv") ≠ .str (lit "P-256") then
    .error (.raised .valueError (lit "ES256 trust key must be an EC P-256 JWK"))
  else do
    let x ← coordinate env jwk "x"
    let y ← coordinate env jwk "y"
    if env.onCurveP256 x y then .ok (x, y)
    else .error (.std .valueError (.publicNumbers x y))

/-- The two numbers of a raw signature. -/
def rawEs256ToDer (rawSignature : Bytes) : Except PyExc (ℕ × ℕ) :=
  if rawSignature.length ≠ 64 then
    .error (.raised .valueError (lit "ES256 JWS signatures must be 64 raw bytes"))
  else .ok (natOfBytes (rawSignature.take 32), natOfBytes (rawSignature.drop 32))

def verifyEs256JwsSignature (publicJwk : Json) (signingInput signatureB64 : PyStr) :
    Except PyExc Bool := do
  let jwk ← publicJwk.asDict
  let (x, y) ← loadEs256PublicKey env jwk
  let rawSignature ← b64urlDecode signatureB64
  let (r, s) ← rawEs256ToDer rawSignature
  let message ← encodeUtf8 signingInput
  return env.ecdsaVerify x y r s message

/-! ## One signature entry -/

/-- `kid` and `signer_role`, if they are strings and `alg` is ES256. -/
def signatureMetadata (signature : Dict) : Option (PyStr × PyStr) :=
  match signature.get (lit "kid"), signature.get (lit "signer_role") with
  | .str kid, .str signerRole =>
    if signature.get (lit "alg") = .str (lit "ES256") then some (kid, signerRole) else none
  | _, _ => none

/-- `protected`, `payload` and `signature`, if they are non-empty strings. -/
def signatureParts (signature : Dict) : Option (PyStr × PyStr × PyStr) := do
  let protectedText ← (signature.get (lit "protected")).nonEmptyStr?
  let payload ← (signature.get (lit "payload")).nonEmptyStr?
  let value ← (signature.get (lit "signature")).nonEmptyStr?
  return (protectedText, payload, value)

/-- The entry of the trust registry for a key. -/
def trustKeyOf (trustRegistry : Dict) (kid : PyStr) :
    Check PyExc ReceiptVerificationIssue Dict :=
  match trustRegistry.get kid with
  | .null => throw (errorIssue "UNKNOWN_KID" (lit "Unknown signing key: " ++ kid))
  | trustKey => Check.ofExcept trustKey.asDict

/-- One end of a key's validity. Only a string is a bound. -/
def checkBound (bound : Json) (permits : Instant → Prop) [DecidablePred permits]
    (issue : ReceiptVerificationIssue) : Check PyExc ReceiptVerificationIssue Unit :=
  match bound with
  | .str text => do
    let limit ← Check.attempt (parseRfc3339Utc text) (fun e => e.cls.isValueError)
      fun e => errorIssue "KEY_WINDOW_INVALID" (env.strExc e)
    Check.require (permits limit) issue
  | _ => pure ()

/-- The validity of a key at `created_at`, when that is known. -/
def checkWindow (trustKey : Dict) (kid : PyStr) :
    Option Instant → Check PyExc ReceiptVerificationIssue Unit
  | none => pure ()
  | some createdAt => do
    checkBound env (trustKey.get (lit "not_before")) (fun notBefore => ¬createdAt < notBefore)
      (errorIssue "KEY_NOT_YET_VALID" (lit "Key was not valid yet: " ++ kid))
    checkBound env (trustKey.get (lit "not_after")) (fun notAfter => ¬notAfter < createdAt)
      (errorIssue "KEY_EXPIRED" (lit "Key was expired: " ++ kid))

/-- `json.loads(_b64url_decode(protected).decode("utf-8"))`. -/
def protectedHeader (protectedText : PyStr) : Except PyExc Json := do
  let data ← b64urlDecode protectedText
  let text ← decodeUtf8 data
  loads env.toRuntime text

/-- `f"{protected}.{payload}"`. -/
def signingInput (protectedText payload : PyStr) : PyStr := protectedText ++ chr '.' :: payload

/-- `except (KeyError, ValueError, TypeError)`. -/
def isParseError (e : PyExc) : Bool :=
  e.cls.isValueError || e.cls = .keyError || e.cls = .typeError

/-- The body of the loop over the signatures. It accepts the key and the role to be counted. -/
def verifySignature (trustRegistry : Dict) (createdAt : Option Instant)
    (expectedPayloadB64 : PyStr) (entry : Json) :
    Check PyExc ReceiptVerificationIssue (PyStr × PyStr) := do
  let signature ← Check.ofOption entry.toDict?
    (errorIssue "SIGNATURE_INVALID" (lit "Signature entry must be an object."))
  let (kid, signerRole) ← Check.ofOption (signatureMetadata signature)
    (errorIssue "SIGNATURE_METADATA_INVALID" (lit "Invalid signature metadata."))
  let trustKey ← trustKeyOf trustRegistry kid
  Check.require (trustKey.get (lit "status") = .str (lit "active"))
    (errorIssue "KEY_NOT_ACTIVE" (lit "Signing key is not active: " ++ kid))
  Check.require (trustKey.get (lit "alg") = .str (lit "ES256"))
    (errorIssue "ALG_INVALID" (lit "Unsupported algorithm for key: " ++ kid))
  Check.require (trustKey.get (lit "role") = .str signerRole)
    (errorIssue "ROLE_MISMATCH" (lit "Signer role does not match trust key: " ++ kid))
  checkWindow env trustKey kid createdAt
  let (protectedText, payload, value) ← Check.ofOption (signatureParts signature)
    (errorIssue "SIGNATURE_PARTS_MISSING" (lit "Signature parts missing: " ++ kid))
  let header ← Check.attempt (protectedHeader env protectedText) (fun e => e.cls.isValueError)
    fun e => errorIssue "PROTECTED_HEADER_INVALID"
      (lit "Invalid protected header: " ++ env.strExc e)
  let header ← Check.ofOption header.toDict?
    (errorIssue "PROTECTED_HEADER_INVALID"
      (lit "Protected header must be a JSON object: " ++ kid))
  Check.require (header.get (lit "alg") = .str (lit "ES256"))
    (errorIssue "PROTECTED_HEADER_ALG_INVALID" (lit "Invalid header alg: " ++ kid))
  Check.require (header.get (lit "kid") = .str kid)
    (errorIssue "PROTECTED_HEADER_KID_MISMATCH" (lit "Header kid mismatch: " ++ kid))
  Check.require (payload = expectedPayloadB64)
    (errorIssue "SIGNATURE_PAYLOAD_MISMATCH"
      (lit "Signature payload does not match canonical receipt payload: " ++ kid))
  let isValid ← Check.attempt
    (do
      let jwk ← trustKey.getItem (lit "jwk")
      verifyEs256JwsSignature env jwk (signingInput protectedText payload) value)
    isParseError
    fun e => errorIssue "SIGNATURE_PARSE_ERROR"
      (lit "Could not verify " ++ kid ++ lit ": " ++ env.strExc e)
  Check.require (isValid = true)
    (errorIssue "SIGNATURE_INVALID" (lit "Invalid ES256 signature: " ++ kid))
  return (kid, signerRole)

/-- The note for a second valid entry of a key. -/
def duplicateIssue (kid : PyStr) : ReceiptVerificationIssue :=
  ⟨.warning, "DUPLICATE_SIGNATURE_IGNORED",
    lit "Duplicate signature ignored for signing key: " ++ kid⟩

/-! ## The receipt's own fields -/

def policyOf (receipt : Dict) : Dict := (receipt.get (lit "policy")).dictOrEmpty

/-- An integer that is not a boolean. -/
def intOf? : Json → Option ℤ
  | .int i => some i
  | _ => none

/-- `policy.min_signatures`, if it is a non-negative integer. -/
def minSignaturesOf? (policy : Dict) : Option ℤ :=
  (intOf? (policy.get (lit "min_signatures"))).filter (0 ≤ ·)

def minSignaturesOf (policy : Dict) : ℤ := (minSignaturesOf? policy).getD 0

/-- `policy.required_roles`, by default empty, if it is a list of strings. -/
def requiredRolesOf? (policy : Dict) : Option (List PyStr) :=
  match (policy.get? (lit "required_roles")).getD (.arr []) with
  | .arr items => Json.strItems? items
  | _ => none

/-- The checks before the trust registry is looked at. `strict` says that the class is B or C. -/
def policyIssues (receipt : Dict) (strict : Bool) : List ReceiptVerificationIssue :=
  let policyIsObject := (receipt.get (lit "policy")).toDict?.isSome
  let policy := policyOf receipt
  issueIf (¬policyIsObject)
    (errorIssue "POLICY_INVALID" (lit "Receipt policy must be an object.")) ++
  issueIf (strict ∧ (¬policyIsObject ∨ policy.get? (lit "min_signatures") = none))
    (errorIssue "RELEASE_POLICY_REQUIRED"
      (lit "Class B/C release receipts require an explicit signature policy.")) ++
  issueIf (minSignaturesOf? policy = none)
    (errorIssue "MIN_SIGNATURES_INVALID"
      (lit "policy.min_signatures must be a non-negative integer.")) ++
  issueIf (strict ∧ minSignaturesOf policy < 1)
    (errorIssue "RELEASE_POLICY_TOO_WEAK"
      (lit "Class B/C release receipts require at least one valid signature."))

/-- `created_at` as a moment, or the issue it raises. -/
def checkCreatedAt (createdAt : Json) :
    Except PyExc (Option Instant × List ReceiptVerificationIssue) :=
  match createdAt with
  | .str text =>
    if endsWith text (lit "Z") then
      tryExcept ((parseRfc3339Utc text).map fun t => (some t, [])) ExcClass.isValueError
        fun e => .ok (none, [errorIssue "CREATED_AT_INVALID" (env.strExc e)])
    else
      .ok (none, [errorIssue "CREATED_AT_INVALID" (lit "created_at must be RFC3339 UTC ending Z.")])
  | _ =>
    .ok (none, [errorIssue "CREATED_AT_INVALID" (lit "created_at must be RFC3339 UTC ending Z.")])

/-- `re.fullmatch(r"^sha256:[0-9a-f]{64}$", text)`. -/
def isSha256Urn (text : PyStr) : Bool :=
  startsWith text (lit "sha256:") && (text.drop 7).length = 64 && (text.drop 7).all isLowerHex

/-- A string in the form of a digest. -/
def isSha256UrnStr : Json → Bool
  | .str text => isSha256Urn text
  | _ => false

def signaturesOf (receipt : Dict) : List Json :=
  match receipt.get (lit "signatures") with
  | .arr items => items
  | _ => []

/-- What is known of a receipt before its signatures are looked at. -/
structure Findings where
  createdAt : Option Instant
  expectedHash : PyStr
  expectedPayloadB64 : PyStr
  issues : List ReceiptVerificationIssue

/-- The issues of the checks from the schema version to the list of signatures. -/
def fieldIssues (receipt : Dict) (createdAtIssues : List ReceiptVerificationIssue)
    (classKnown : Bool) (expectedHash : PyStr) : List ReceiptVerificationIssue :=
  let chain := chainOf receipt
  issueIf (receipt.get (lit "schema_version") ≠ .str (lit "sentinel.receipt.v1"))
    (errorIssue "SCHEMA_VERSION_INVALID" (lit "Unsupported receipt schema version.")) ++
  createdAtIssues ++
  issueIf (¬classKnown)
    (errorIssue "RELEASE_CLASS_INVALID" (lit "release_class must be A, B or C.")) ++
  issueIf (intOf? (chain.get (lit "sequence")) = none)
    (errorIssue "CHAIN_SEQUENCE_INVALID"
      (lit "chain.sequence must be an integer and must not be a boolean.")) ++
  issueIf (¬isSha256UrnStr (chain.get (lit "previous_hash")))
    (errorIssue "PREVIOUS_HASH_INVALID" (lit
      "chain.previous_hash must be sha256: followed by exactly 64 lowercase hex characters.")) ++
  issueIf (chain.get (lit "receipt_hash") ≠ .str expectedHash)
    (errorIssue "RECEIPT_HASH_MISMATCH"
      (lit "chain.receipt_hash does not match the canonical unsigned receipt payload.")) ++
  issueIf (signaturesOf receipt = [])
    (errorIssue "SIGNATURES_MISSING" (lit "Receipt contains no signatures.")) ++
  issueIf (requiredRolesOf? (policyOf receipt) = none)
    (errorIssue "REQUIRED_ROLES_INVALID"
      (lit "policy.required_roles must be a list of role strings.")) ++
  issueIf (minSignaturesOf (policyOf receipt) < 0)
    (errorIssue "MIN_SIGNATURES_INVALID"
      (lit "policy.min_signatures must be a non-negative integer."))

/-- The checks from the schema version to the list of signatures. -/
def checkFields (receipt : Dict) (issues : List ReceiptVerificationIssue) :
    Except PyExc Findings := do
  let (createdAt, createdAtIssues) ← checkCreatedAt env (receipt.get (lit "created_at"))
  let classKnown ← (receipt.get (lit "release_class")).inSet [lit "A", lit "B", lit "C"]
  let expectedHash ← receiptHash env receipt
  let expectedPayloadB64 ← payloadB64 env receipt
  return {
    createdAt := createdAt
    expectedHash := expectedHash
    expectedPayloadB64 := expectedPayloadB64
    issues := issues ++ fieldIssues receipt createdAtIssues classKnown expectedHash }

/-! ## The verdict -/

def isError (issue : ReceiptVerificationIssue) : Bool := issue.severity = .error

/-- The thresholds, and the result. The minimum has been written out as part of the payload, so it
can be printed. -/
def finish (receipt : Dict) (findings : Findings)
    (tally : Tally ReceiptVerificationIssue PyStr PyStr) : ReceiptVerificationResult :=
  let policy := policyOf receipt
  let minSignatures := minSignaturesOf policy
  let requiredRoles := (requiredRolesOf? policy).getD []
  let issues := tally.issues ++
    requiredRoles.flatMap (fun role =>
      issueIf (role ∉ tally.roles)
        (errorIssue "REQUIRED_ROLE_MISSING" (lit "Missing required role: " ++ role))) ++
    issueIf ((tally.count : ℤ) < minSignatures)
      (errorIssue "MIN_SIGNATURES_NOT_MET"
        (lit "Only " ++ intText tally.count ++ lit " valid signatures, required " ++
          intText minSignatures ++ lit ".")) ++
    issueIf (receipt.get (lit "release_class") = .str (lit "A") ∧ minSignatures < 2)
      (errorIssue "CLASS_A_POLICY_TOO_WEAK"
        (lit "Release class A requires at least two valid signatures."))
  let hasErrors := issues.any isError
  { status := if hasErrors then .notVerified else .rcVerified
    verified := !hasErrors
    validSignatures := tally.count
    requiredSignatures := minSignatures
    matchedRoles := tally.roles.insertionSort (· ≤ ·)
    receiptHash := some findings.expectedHash
    issues := issues }

/-- The result when there is no key to verify with. -/
def emptyRegistryResult (receipt : Dict) (issues : List ReceiptVerificationIssue) :
    ReceiptVerificationResult where
  status := .configError
  verified := false
  validSignatures := 0
  requiredSignatures := minSignaturesOf (policyOf receipt)
  matchedRoles := []
  receiptHash := none
  issues := issues ++
    [errorIssue "TRUST_REGISTRY_EMPTY"
      (lit "Trust registry is empty. Production verification is impossible.")]

def verifyReceipt (receipt trustRegistry : Dict) : Except PyExc ReceiptVerificationResult := do
  let strict ← (receipt.get (lit "release_class")).inSet [lit "B", lit "C"]
  if trustRegistry.fields = [] then
    return emptyRegistryResult receipt (policyIssues receipt strict)
  else
    let findings ← checkFields env receipt (policyIssues receipt strict)
    let tally ← (signaturesOf receipt).foldlM
      (Tally.step duplicateIssue
        (verifySignature env trustRegistry findings.createdAt findings.expectedPayloadB64))
      (Tally.start findings.issues)
    return finish receipt findings tally

end Sentinel.Receipt
