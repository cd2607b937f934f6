import SentinelCore.ExternalSigning
import SentinelCore.Py.Space
import SentinelCore.Py.JsonDecoder

/-!
# The Azure CLI signer

`sentinel_core/azure_cli_signing.py`. A digest request is checked, the digest is handed to one run of
`az keyvault key sign`, and the JSON text the run prints is checked and turned into a result. The run
itself is a parameter: a function from the command line to what `subprocess.run` does.
-/

namespace Sentinel.Azure

open Py Lib Sentinel.Signing

/-- What a call raises: `AzureCliSigningError`, or another exception that passes through. -/
inductive AzureExc where
  | signingError (message : PyStr)
  | other (exc : PyExc)
  deriving DecidableEq

/-- What the adapter runs on. `lower` is `str.lower`, with what it does to ASCII texts. -/
structure AzureEnv extends Env where
  lower : PyStr → PyStr
  lower_ascii : ∀ s : PyStr, isAscii s = true → lower s = s.map asciiLower

/-- `if not p: raise AzureCliSigningError(message)`. -/
def requireAzure (p : Prop) [Decidable p] (message : PyStr) : Except AzureExc Unit :=
  if p then .ok () else .error (.signingError message)

/-- `try: body except ...: raise AzureCliSigningError(message) from None`. -/
def orSigningError {α : Type} (body : Except PyExc α) (catches : ExcClass → Bool) (message : PyStr) :
    Except AzureExc α :=
  body.mapError fun e => if catches e.cls then .signingError message else .other e

/-! ## Validation -/

/-- `_b64url_decode_strict`. -/
def b64urlDecodeStrict (value : PyStr) (fieldName : String) : Except AzureExc Bytes := do
  let message := lit fieldName ++ lit " must be canonical unpadded base64url"
  requireAzure (value ≠ [] ∧ value.all isBase64urlChar = true) message
  let decoded ← orSigningError
    (do
      let data ← encodeAscii (addPad value)
      urlsafeB64decodeStrict data)
    ExcClass.isValueError message
  requireAzure (b64urlText decoded = value) message
  return decoded

/-- `[a-z0-9]`. -/
def isVaultEnd (c : CodePoint) : Bool := isAsciiLower c || isAsciiDigit c

/-- `[a-z0-9-]`. -/
def isVaultChar (c : CodePoint) : Bool := isVaultEnd c || c = chr '-'

/-- `re.fullmatch(r"[a-z0-9](?:[a-z0-9-]{1,22}[a-z0-9])?", vault)`. -/
def vaultRe : PyStr → Bool
  | [] => false
  | c :: rest =>
    isVaultEnd c && (rest = [] ||
      (2 ≤ rest.length && rest.length ≤ 23 && rest.dropLast.all isVaultChar &&
        rest.getLast?.any isVaultEnd))

def vaultSuffix : PyStr := lit ".vault.azure.net"

/-- `_AZURE_VAULT_HOST_RE.fullmatch(host)`. -/
def vaultHostRe (host : PyStr) : Bool :=
  endsWith host vaultSuffix && vaultRe (host.take (host.length - vaultSuffix.length))

/-- `[A-Za-z0-9-]`. -/
def isKeyChar (c : CodePoint) : Bool := isAsciiAlnum c || c = chr '-'

/-- `_KEY_NAME_RE.fullmatch(name)`. -/
def keyNameRe (name : PyStr) : Bool := 1 ≤ name.length && name.length ≤ 127 && name.all isKeyChar

/-- `_KEY_VERSION_RE.fullmatch(version)`. -/
def keyVersionRe (version : PyStr) : Bool :=
  1 ≤ version.length && version.length ≤ 128 && version.all isKeyChar

variable (env : AzureEnv)

/-- What `_validate_azure_key_id` asks of the parsed identifier. -/
def IsVaultKey (parsed : ParseResult) (port : Option ℕ) : Prop :=
  let parts := pathParts parsed.path
  parsed.scheme = lit "https" ∧ parsed.userinfo = (none, none) ∧ port = none ∧ parsed.params = [] ∧
    parsed.query = [] ∧ parsed.fragment = [] ∧ parsed.hostname env.lower = some parsed.netloc ∧
    vaultHostRe parsed.netloc = true ∧ parsed.path = chr '/' :: (lit "/").intercalate parts ∧
    parts.length = 3 ∧ parts[0]? = some (lit "keys") ∧ parts[1]?.any keyNameRe = true ∧
    parts[2]?.any keyVersionRe = true

instance (parsed : ParseResult) (port : Option ℕ) : Decidable (IsVaultKey env parsed port) := by
  unfold IsVaultKey
  infer_instance

/-- `_validate_azure_key_id`. -/
def validateAzureKeyId (keyId : PyStr) : Except AzureExc Unit := do
  let message := lit "key_id must be an exact versioned Azure Key Vault HTTPS identifier"
  requireAzure (keyId ≠ []) message
  let (parsed, port) ← orSigningError
    (do
      let parsed ← urlparse env.toRuntime keyId
      let port ← parsed.port env.toRuntime
      return (parsed, port))
    ExcClass.isValueError message
  requireAzure (IsVaultKey env parsed port) message

/-! ## The answer of the CLI -/

/-- `_MAX_RESPONSE_BYTES`. -/
def maxResponseBytes : ℕ := 131072

/-- `_parse_operation_result`. -/
def parseOperationResult (stdout expectedKeyId : PyStr) : Except AzureExc PyStr := do
  requireAzure (strip stdout ≠ []) (lit "Azure CLI returned no signing result")
  let data ← orSigningError (encodeUtf8 stdout) (fun cls => cls = .unicodeEncodeError)
    (lit "Azure CLI returned an invalid signing response")
  requireAzure (data.length ≤ maxResponseBytes)
    (lit "Azure CLI signing response exceeded the size limit")
  let payload ← orSigningError (loads env.toRuntime stdout)
    (fun cls => cls.isValueError || cls = .typeError)
    (lit "Azure CLI returned an invalid signing response")
  match payload.toDict? with
  | none => throw (.signingError (lit "Azure CLI returned an invalid signing response"))
  | some payload =>
    requireAzure (payload.get (lit "kid") = .str expectedKeyId)
      (lit "Azure CLI returned an unexpected versioned key identifier")
    requireAzure
      ((payload.get? (lit "value")).isSome ≠ (payload.get? (lit "result")).isSome)
      (lit "Azure CLI signing response must contain exactly one signature value")
    let name := if (payload.get? (lit "value")).isSome then lit "value" else lit "result"
    match payload.get name with
    | .str signatureValue =>
      let rawSignature ← b64urlDecodeStrict signatureValue "Azure CLI signature"
      requireAzure (rawSignature.length = 64)
        (lit "Azure CLI ES256 signature must be exactly 64 raw bytes")
      return signatureValue
    | _ => throw (.signingError (lit "Azure CLI signing response contains an invalid signature value"))

/-! ## The signer -/

/-- What `subprocess.run` does: the process ends with a code and a text, or the call raises. -/
inductive ProcessOutcome where
  | completed (returncode : ℤ) (stdout : PyStr)
  | fileNotFound
  | timeoutExpired
  | subprocessError
  /-- An `OSError`, or a text that is not UTF-8. -/
  | osOrUnicodeError
  | raised (exc : PyExc)
  /-- Something that is not a `CompletedProcess`. -/
  | other
  deriving DecidableEq

/-- The signer: the name of the executable, and what running a command does. -/
structure AzureCliKeyVaultDigestSigner where
  executable : PyStr
  runner : List PyStr → ProcessOutcome
  executable_ok : strip executable ≠ []

/-- The command line. -/
def signArguments (executable keyId digestBase64 : PyStr) : List PyStr :=
  [executable, lit "keyvault", lit "key", lit "sign", lit "--id", keyId, lit "--algorithm",
    lit "ES256", lit "--digest", digestBase64, lit "--only-show-errors", lit "--output", lit "json"]

/-- What `sign_digest` checks before it runs the CLI: the standard base64 of the digest. -/
def checkRequest (request : DigestSigningRequest) : Except AzureExc PyStr := do
  requireAzure (request.algorithm = lit "ES256") (lit "Azure CLI signer accepts only ES256")
  validateAzureKeyId env request.keyId
  let digest ← b64urlDecodeStrict request.digestB64url "signing digest"
  requireAzure (digest.length = 32) (lit "signing digest must contain exactly 32 bytes")
  return ofBytes (b2aBase64 digest)

/-- What `sign_digest` makes of the run. -/
def readOutcome (request : DigestSigningRequest) :
    ProcessOutcome → Except AzureExc ExternalSignatureResult
  | .fileNotFound => throw (.signingError (lit "Azure CLI executable was not found"))
  | .timeoutExpired => throw (.signingError (lit "Azure CLI signing operation timed out"))
  | .subprocessError => throw (.signingError (lit "Azure CLI signing operation failed"))
  | .osOrUnicodeError => throw (.signingError (lit "Azure CLI signing operation failed"))
  | .raised exc => throw (.other exc)
  | .other => throw (.signingError (lit "Azure CLI runner returned an invalid process result"))
  | .completed returncode stdout => do
    requireAzure (returncode = 0) (lit "Azure CLI signing operation failed")
    let signatureValue ← parseOperationResult env stdout request.keyId
    return { algorithm := lit "ES256", keyId := request.keyId, signatureB64url := signatureValue }

/-- `sign_digest`. -/
def signDigest (signer : AzureCliKeyVaultDigestSigner) (request : DigestSigningRequest) :
    Except AzureExc ExternalSignatureResult := do
  let digestBase64 ← checkRequest env request
  readOutcome env request (signer.runner (signArguments signer.executable request.keyId digestBase64))

end Sentinel.Azure
