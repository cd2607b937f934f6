import SentinelCore.Go.Json
import SentinelCore.Go.Time
import SentinelCore.Hashchain
import SentinelCore.Lib.Linked

/-!
# Evidence records in Go

`internal/crypto/digest.go`, `internal/evidence/record.go` and `internal/evidence/chain.go`. An error
is its text. `sha256.Sum256` and `strings.ToLower` are taken from outside, the latter with what it
does to ASCII texts.
-/

namespace Sentinel.Evidence

open Py (Bytes byte)
open Go Lib

/-- `unicode.ToLower` of an ASCII character. -/
def lowerAscii (b : Py.Byte) : Py.Byte := if 0x41 ≤ b.val ∧ b.val ≤ 0x5A then byte (b.val + 0x20) else b

/-- What the Go program runs on. -/
structure GoEnv where
  sum256 : Bytes → Digest
  toLower : GoStr → GoStr
  toLower_ascii : ∀ s : GoStr, (∀ b ∈ s, b.val < 0x80) → toLower s = s.map lowerAscii

variable (env : GoEnv)

/-! ## `digest.go` -/

def digestPrefix : GoStr := str "sha256:"

def sha256Hex (data : Bytes) : GoStr := digestPrefix ++ Go.hexText (env.sum256 data).val

def validateSHA256Digest (value : GoStr) : Except GoStr Unit :=
  if ¬digestPrefix.isPrefixOf value then .error (str "digest must start with sha256:")
  else
    let hexPart := value.drop digestPrefix.length
    if hexPart.length ≠ 64 then .error (str "sha256 digest must contain 64 hex characters")
    else if env.toLower hexPart ≠ hexPart then
      .error (str "sha256 digest must use lowercase hex characters")
    else (hexDecodeString hexPart).map fun _ => ()

/-! ## `record.go` -/

def genesisPreviousHash : GoStr :=
  str "sha256:0000000000000000000000000000000000000000000000000000000000000000"

structure Record where
  version : GoStr
  sequence : UInt64
  subject : GoStr
  kind : GoStr
  payloadHash : GoStr
  previousHash : GoStr
  policyID : GoStr
  actor : GoStr
  actorRole : GoStr
  issuedAt : Time
  metadata : Option StringMap

/-- `if p { return message }`. -/
def errorIf (p : Prop) [Decidable p] (message : String) : Except GoStr Unit :=
  if p then .error (str message) else .ok ()

namespace Record

def validate (r : Record) : Except GoStr Unit := do
  errorIf (r.version = []) "version is required"
  errorIf (r.subject = []) "subject is required"
  errorIf (r.kind = []) "kind is required"
  (validateSHA256Digest env r.payloadHash).mapError (str "payload_hash: " ++ ·)
  (validateSHA256Digest env r.previousHash).mapError (str "previous_hash: " ++ ·)
  errorIf (r.policyID = []) "policy_id is required"
  errorIf (r.actor = [] ∨ r.actorRole = []) "actor and actor_role are required"
  errorIf (r.issuedAt.isZero = true) "issued_at is required"

/-- The entries of the metadata; a nil map has none. -/
def entries (r : Record) : List (GoStr × GoStr) := (r.metadata.map StringMap.entries).getD []

/-- The metadata member, omitted when empty. -/
def metadataText (r : Record) : GoStr :=
  match r.metadata with
  | none => []
  | some m => if m.entries = [] then [] else str ",\"metadata\":" ++ m.text

/-- The JSON text, with `issued_at` as it is rendered. -/
def text (r : Record) (issuedAt : GoStr) : GoStr :=
  str "\x7b\"version\":" ++ (quote r.version ++
    (str ",\"sequence\":" ++ (decimal r.sequence.toNat ++
    (str ",\"subject\":" ++ (quote r.subject ++
    (str ",\"kind\":" ++ (quote r.kind ++
    (str ",\"payload_hash\":" ++ (quote r.payloadHash ++
    (str ",\"previous_hash\":" ++ (quote r.previousHash ++
    (str ",\"policy_id\":" ++ (quote r.policyID ++
    (str ",\"actor\":" ++ (quote r.actor ++
    (str ",\"actor_role\":" ++ (quote r.actorRole ++
    (str ",\"issued_at\":\"" ++ (issuedAt ++
    (str "\"" ++ (r.metadataText ++ str "\x7d")))))))))))))))))))))

/-- `json.Marshal(r)`. -/
def marshal (r : Record) : Except GoStr GoStr :=
  match r.issuedAt.marshalText with
  | .error err => .error (str "json: error calling MarshalJSON for type time.Time: " ++ err)
  | .ok issuedAt => .ok (r.text issuedAt)

def hash (r : Record) : Except GoStr GoStr := do
  r.validate env
  let canonical ← r.marshal
  return sha256Hex env canonical

end Record

/-! ## `chain.go` -/

structure ChainValidationResult where
  ok : Bool
  errors : List GoStr

namespace ChainValidationResult

/-- `result.OK = false` with one more error. -/
def fail (result : ChainValidationResult) (err : GoStr) : ChainValidationResult :=
  ⟨false, result.errors ++ [err]⟩

/-- The same when a condition holds. -/
def failIf (p : Prop) [Decidable p] (err : GoStr) (result : ChainValidationResult) :
    ChainValidationResult :=
  if p then result.fail err else result

end ChainValidationResult

/-- The loop of `VerifyChain` from index `i` on, with the hash it carries. -/
def verifyFrom (i : ℕ) (previousHash : GoStr) (result : ChainValidationResult) :
    List Record → ChainValidationResult
  | [] => result
  | record :: rest =>
    match record.validate env with
    | .error err =>
      verifyFrom (i + 1) previousHash
        (result.fail (str "record " ++ decimal i ++ str " validation failed: " ++ err)) rest
    | .ok () =>
      let result := result.failIf (record.sequence ≠ UInt64.ofNat (i + 1))
        (str "record " ++ decimal i ++ str " sequence mismatch: got " ++
          decimal record.sequence.toNat ++ str " want " ++ decimal (i + 1))
      let result := result.failIf (record.previousHash ≠ previousHash)
        (str "record " ++ decimal i ++ str " previous hash mismatch")
      match record.hash env with
      | .error err =>
        verifyFrom (i + 1) previousHash
          (result.fail (str "record " ++ decimal i ++ str " hash failed: " ++ err)) rest
      | .ok hash => verifyFrom (i + 1) hash result rest

def verifyChain (records : Slice Record) : ChainValidationResult :=
  verifyFrom env 0 genesisPreviousHash ⟨true, []⟩ records.elems

end Sentinel.Evidence
