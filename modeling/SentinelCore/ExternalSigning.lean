import SentinelCore.Receipt
import SentinelCore.Py.Url

/-!
# External signing

`sentinel_core/external_signing.py`. A receipt is signed in two steps: `prepareReceiptSignature`
makes the request for a signer outside, `finalizeReceiptSignature` checks the prepared context and
the answer and attaches them to the receipt. `signReceiptWithExternalDigestSigner` is one call of
both, with a signer in between that sees a digest only.
-/

namespace Sentinel.Signing

open Py Lib

structure DigestSigningRequest where
  algorithm : PyStr
  keyId : PyStr
  digestB64url : PyStr
  deriving DecidableEq

structure ExternalSignatureResult where
  algorithm : PyStr
  keyId : PyStr
  signatureB64url : PyStr
  deriving DecidableEq

structure PreparedReceiptSignature where
  request : DigestSigningRequest
  signerRole : PyStr
  receiptHash : PyStr
  canonicalPayload : PyStr
  protectedB64url : PyStr
  payloadB64url : PyStr
  signingInput : PyStr
  deriving DecidableEq

/-- The order of the group of P-256. -/
def p256Order : ℕ := 0xffffffff00000000ffffffffffffffffbce6faada7179e84f3b9cac2fc632551

def signingContractError (message : PyStr) : PyExc := .raised (.derived "SigningContractError") message

/-- `if not p: raise SigningContractError(message)`. -/
def requireContract (p : Prop) [Decidable p] (message : PyStr) : Except PyExc Unit :=
  raiseUnless p (signingContractError message)

def b64urlEncode (value : Bytes) : PyStr := b64urlText value

/-- `[A-Za-z0-9_-]`. -/
def isBase64urlChar (c : CodePoint) : Bool := isAsciiAlnum c || c = chr '_' || c = chr '-'

/-! ## Validation -/

def b64urlDecodeStrict (value : PyStr) (fieldName : String) : Except PyExc Bytes := do
  requireContract (value ≠ [] ∧ value.all isBase64urlChar = true)
    (lit fieldName ++ lit " must be unpadded base64url text")
  let decoded ← tryExcept
    (do
      let data ← encodeAscii (addPad value)
      urlsafeB64decodeStrict data)
    ExcClass.isValueError
    fun _ => .error (signingContractError (lit fieldName ++ lit " is not valid base64url"))
  requireContract (b64urlEncode decoded = value)
    (lit fieldName ++ lit " is not canonical base64url")
  return decoded

variable (env : Env)

/-- The path has exactly the parts `keys`, a name and a version; no part is empty. -/
def validateVersionedKeyId (keyId : PyStr) : Except PyExc Unit := do
  requireContract (keyId ≠ [])
    (lit "key_id must be a non-empty versioned HTTPS key identifier")
  let parsed ← urlparse env.toRuntime keyId
  requireContract (parsed.scheme = lit "https" ∧ parsed.netloc ≠ [] ∧ parsed.params = [] ∧
      parsed.query = [] ∧ parsed.fragment = [] ∧ (pathParts parsed.path).length = 3 ∧
      (pathParts parsed.path).head? = some (lit "keys"))
    (lit "key_id must be a versioned HTTPS identifier ending in /keys/<name>/<version>")

/-- `re.fullmatch(r"^[A-Za-z0-9][A-Za-z0-9._:-]{0,127}$", role)`. -/
def isSignerRole : PyStr → Bool
  | [] => false
  | c :: rest => isAsciiAlnum c && rest.length ≤ 127 &&
      rest.all fun c => isAsciiAlnum c || c = chr '.' || c = chr '_' || c = chr ':' || c = chr '-'

def validateSignerRole (signerRole : PyStr) : Except PyExc Unit :=
  requireContract (isSignerRole signerRole = true) (lit "signer_role contains unsupported characters")

def validateReceiptShape (receipt : Dict) : Except PyExc Unit := do
  requireContract ((receipt.get (lit "chain")).toDict?.isSome = true)
    (lit "receipt.chain must be an object")
  requireContract ((receipt.get (lit "signatures")).items?.isSome = true)
    (lit "receipt.signatures must be a list")

/-- The protected header of a signature by the key. -/
def expectedHeader (keyId : PyStr) : Dict where
  fields := [(lit "alg", .str (lit "ES256")), (lit "kid", .str keyId),
    (lit "typ", .str (lit "SENTINEL-JWS"))]
  wf := by rfl

/-- `hmac.compare_digest`, with an error if the texts differ. -/
def requireSame (expected actual : PyStr) (message : PyStr) : Except PyExc Unit := do
  let same ← compareDigest expected actual
  requireContract (same = true) message

def validatePrepared (prepared : PreparedReceiptSignature) : Except PyExc Unit := do
  requireContract (prepared.request.algorithm = lit "ES256")
    (lit "prepared signing algorithm must be ES256")
  validateVersionedKeyId env prepared.request.keyId
  validateSignerRole prepared.signerRole
  let expectedReceiptHash ← sha256Prefixed env prepared.canonicalPayload
  requireSame expectedReceiptHash prepared.receiptHash (lit "prepared receipt hash is inconsistent")
  let protectedBytes ← b64urlDecodeStrict prepared.protectedB64url "prepared protected header"
  let payloadBytes ← b64urlDecodeStrict prepared.payloadB64url "prepared payload"
  let header ← tryExcept
    (do
      let text ← decodeUtf8 protectedBytes
      loads env.toRuntime text)
    ExcClass.isValueError
    fun _ => .error (signingContractError (lit "prepared protected header is not valid JSON"))
  let payloadText ← tryExcept (decodeUtf8 payloadBytes) (fun cls => cls = .unicodeDecodeError)
    fun _ => .error (signingContractError (lit "prepared payload is not valid UTF-8"))
  requireContract (header.equalsDict (expectedHeader prepared.request.keyId) = true)
    (lit "prepared protected header does not match the frozen profile")
  let canonicalHeader ← canonicalizeJson env header
  let canonicalBytes ← encodeUtf8 canonicalHeader
  requireContract (canonicalBytes = protectedBytes)
    (lit "prepared protected header is not canonical")
  requireContract (payloadText = prepared.canonicalPayload)
    (lit "prepared payload does not match the canonical receipt")
  requireSame (Receipt.signingInput prepared.protectedB64url prepared.payloadB64url)
    prepared.signingInput (lit "prepared signing input is inconsistent")
  let message ← encodeAscii prepared.signingInput
  requireSame (b64urlEncode (env.sha256 message).val) prepared.request.digestB64url
    (lit "prepared signing digest is inconsistent")

/-! ## Preparation -/

/-- Some entry names the key. -/
def hasSignature (receipt : Dict) (keyId : PyStr) : Bool :=
  (Receipt.signaturesOf receipt).any fun item =>
    match item.toDict? with
    | some entry => entry.get (lit "kid") = .str keyId
    | none => false

def requireNewKey (receipt : Dict) (keyId : PyStr) : Except PyExc Unit :=
  requireContract (hasSignature receipt keyId = false)
    (lit "receipt already contains a signature for key_id: " ++ keyId)

/-- The receipt has no hash yet, or this one. -/
def HashFits (receipt : Dict) (hash : PyStr) : Prop :=
  (Receipt.chainOf receipt).get (lit "receipt_hash") ∈ [Json.null, .str [], .str hash]

instance (receipt : Dict) (hash : PyStr) : Decidable (HashFits receipt hash) := by
  unfold HashFits
  infer_instance

def prepareReceiptSignature (receipt : Dict) (keyId signerRole : PyStr) :
    Except PyExc PreparedReceiptSignature := do
  validateReceiptShape receipt
  validateVersionedKeyId env keyId
  validateSignerRole signerRole
  requireNewKey receipt keyId
  let canonicalPayload ← Receipt.buildUnsignedReceiptPayload env receipt
  let computedReceiptHash ← sha256Prefixed env canonicalPayload
  requireContract (HashFits receipt computedReceiptHash)
    (lit "receipt.chain.receipt_hash conflicts with the canonical payload")
  let protectedJson ← canonicalizeJson env (expectedHeader keyId).toJson
  let protectedBytes ← encodeUtf8 protectedJson
  let payloadBytes ← encodeUtf8 canonicalPayload
  let protectedB64url := b64urlEncode protectedBytes
  let payloadB64url := b64urlEncode payloadBytes
  let signingInput := Receipt.signingInput protectedB64url payloadB64url
  let message ← encodeAscii signingInput
  let prepared := {
    request := {
      algorithm := lit "ES256"
      keyId := keyId
      digestB64url := b64urlEncode (env.sha256 message).val }
    signerRole := signerRole
    receiptHash := computedReceiptHash
    canonicalPayload := canonicalPayload
    protectedB64url := protectedB64url
    payloadB64url := payloadB64url
    signingInput := signingInput }
  validatePrepared env prepared
  return prepared

/-! ## Finalization -/

/-- The entry that is appended. -/
def signatureEntry (prepared : PreparedReceiptSignature) (signature : PyStr) : Dict where
  fields := [(lit "kid", .str prepared.request.keyId), (lit "alg", .str (lit "ES256")),
    (lit "signer_role", .str prepared.signerRole), (lit "protected", .str prepared.protectedB64url),
    (lit "payload", .str prepared.payloadB64url), (lit "signature", .str signature)]
  wf := by rfl

theorem signaturesOf_wellFormed (receipt : Dict) :
    ∀ item ∈ Receipt.signaturesOf receipt, item.wellFormed = true := by
  unfold Receipt.signaturesOf
  split
  · next items h =>
    have hwf := receipt.get_wellFormed (lit "signatures")
    rw [h] at hwf
    exact Json.wellFormed_arr.mp hwf
  · simp

theorem appended_wellFormed (receipt entry : Dict) :
    (Json.arr (Receipt.signaturesOf receipt ++ [entry.toJson])).wellFormed = true := by
  rw [Json.wellFormed_arr]
  intro item hitem
  rcases List.mem_append.mp hitem with h | h
  · exact signaturesOf_wellFormed receipt item h
  · rw [List.mem_singleton.mp h]
    exact entry.toJson_wellFormed

/-- The chain with the receipt hash set. -/
def hashedChain (receipt : Dict) (hash : PyStr) : Dict :=
  (Receipt.chainOf receipt).set (lit "receipt_hash") (.str hash) (Json.wellFormed_str hash)

/-- The receipt with the hash set and an entry appended. -/
def attach (receipt : Dict) (hash : PyStr) (entry : Dict) : Dict :=
  (receipt.set (lit "chain") (hashedChain receipt hash).toJson
    (hashedChain receipt hash).toJson_wellFormed).set (lit "signatures")
    (.arr (Receipt.signaturesOf receipt ++ [entry.toJson])) (appended_wellFormed receipt entry)

/-- Both numbers of a raw signature lie in the group range. -/
def ScalarsInRange (raw : Bytes) : Prop :=
  (1 ≤ natOfBytes (raw.take 32) ∧ natOfBytes (raw.take 32) < p256Order) ∧
    1 ≤ natOfBytes (raw.drop 32) ∧ natOfBytes (raw.drop 32) < p256Order

instance (raw : Bytes) : Decidable (ScalarsInRange raw) := by
  unfold ScalarsInRange
  infer_instance

def finalizeReceiptSignature (receipt : Dict) (prepared : PreparedReceiptSignature)
    (result : ExternalSignatureResult) : Except PyExc Dict := do
  validateReceiptShape receipt
  validatePrepared env prepared
  requireContract (result.algorithm = lit "ES256")
    (lit "external signature algorithm must be ES256")
  requireContract (result.keyId = prepared.request.keyId)
    (lit "external signature key_id does not match the prepared request")
  let currentPayload ← Receipt.buildUnsignedReceiptPayload env receipt
  let currentBytes ← encodeUtf8 currentPayload
  let preparedBytes ← encodeUtf8 prepared.canonicalPayload
  requireContract (currentBytes = preparedBytes) (lit "receipt changed after signing preparation")
  let currentReceiptHash ← sha256Prefixed env currentPayload
  requireSame currentReceiptHash prepared.receiptHash
    (lit "receipt hash changed after signing preparation")
  requireContract (HashFits receipt prepared.receiptHash)
    (lit "receipt.chain.receipt_hash changed after preparation")
  requireNewKey receipt prepared.request.keyId
  let rawSignature ← b64urlDecodeStrict result.signatureB64url "external signature"
  requireContract (rawSignature.length = 64)
    (lit "ES256 external signature must be exactly 64 raw bytes")
  requireContract (ScalarsInRange rawSignature)
    (lit "ES256 signature scalars must be in the P-256 group range")
  raiseUnless (receipt.toJson.depth ≤ env.maxCopyDepth) (.std .recursionError .deepcopy)
  return attach receipt prepared.receiptHash (signatureEntry prepared result.signatureB64url)

/-- `signer.sign_digest`. -/
abbrev ExternalDigestSigner := DigestSigningRequest → Except PyExc ExternalSignatureResult

def signReceiptWithExternalDigestSigner (receipt : Dict) (keyId signerRole : PyStr)
    (signer : ExternalDigestSigner) : Except PyExc Dict := do
  let prepared ← prepareReceiptSignature env receipt keyId signerRole
  let result ← signer prepared.request
  finalizeReceiptSignature env receipt prepared result

end Sentinel.Signing
