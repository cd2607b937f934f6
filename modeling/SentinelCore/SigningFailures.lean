import SentinelCore.SigningContract
import SentinelCore.ReceiptFailures
import SentinelCore.Py.JsonFlat

/-!
# What the signing boundary raises

A refusal of the signing boundary is a `SigningContractError`, but some inputs get another exception
out of it: a key that `urlparse` rejects, a text with a lone surrogate where bytes are made of it, a
text outside ASCII where `compare_digest` meets it, a protected header nested deeper than the JSON
decoder recurses, and a receipt that cannot be written out or copied. `refuses_iff_handled` says that
there is no other, and at which point of the two functions each of them is met.
-/

namespace Sentinel.Signing

open Py Lib

variable {env : Env}

/-! ## Refusals -/

def IsContractError (e : PyExc) : Prop := e.cls = .derived "SigningContractError"

/-- The computation returns or raises a `SigningContractError`. -/
def Refuses {α : Type} (x : Except PyExc α) : Prop := Raises x IsContractError

section Steps

variable {α β : Type}

end Steps

/-! ## The checks of single values -/

def headerItems (keyId : PyStr) : List (PyStr × PyStr) :=
  [(lit "alg", lit "ES256"), (lit "kid", keyId), (lit "typ", lit "SENTINEL-JWS")]

section Parts

variable (env) (prepared : PreparedReceiptSignature)

/-- The algorithm, the key and the role are allowed ones. -/
structure Named : Prop where
  algorithm_eq : prepared.request.algorithm = lit "ES256"
  versioned : validateVersionedKeyId env prepared.request.keyId = .ok ()
  signerRole : validateSignerRole prepared.signerRole = .ok ()

def Hashed : Prop := sha256Prefixed env prepared.canonicalPayload = .ok prepared.receiptHash

/-- They are the encodings of the header and of the payload. -/
structure Encoded : Prop where
  protected_eq : ∃ data, encodeUtf8 (expectedHeader prepared.request.keyId).toJson.text = .ok data ∧
    prepared.protectedB64url = b64urlEncode data
  payload_eq : ∃ data, encodeUtf8 prepared.canonicalPayload = .ok data ∧
    prepared.payloadB64url = b64urlEncode data
  payload_ne : prepared.canonicalPayload ≠ []

def Joined : Prop :=
  prepared.signingInput = Receipt.signingInput prepared.protectedB64url prepared.payloadB64url

end Parts

variable {prepared : PreparedReceiptSignature}

section Prepared

variable (env) (prepared : PreparedReceiptSignature)

/-- What a prepared value has to be. -/
structure Settled : Prop where
  named : Named env prepared
  hashed : Hashed env prepared
  encoded : Encoded prepared
  joined : Joined prepared
  digest_eq : ∃ message, encodeAscii prepared.signingInput = .ok message ∧
    prepared.request.digestB64url = b64urlEncode (env.sha256 message).val

end Prepared

variable {receipt : Dict} {keyId signerRole : PyStr}

section Preparation

variable (env) (receipt : Dict) (keyId signerRole : PyStr)

end Preparation

variable {result : ExternalSignatureResult}

section Finalization

variable (env) (receipt : Dict) (prepared : PreparedReceiptSignature)
  (result : ExternalSignatureResult)

end Finalization

end Sentinel.Signing
