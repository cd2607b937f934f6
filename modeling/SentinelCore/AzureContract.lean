import SentinelCore.AzureSigning
import SentinelCore.SigningContract

/-!
# The Azure signer and the signing contract

1. The strict base64url decoders of both sides accept the texts of the encoder and no other
   (`decoders_agree`), so what one side has decoded is readable for the other.
2. A prepared request passes every check the adapter makes before it runs the CLI, which is given
   its digest (`signDigest_prepared`).
3. A result of the adapter is an answer as finalization wants it, up to the range of the two numbers
   (`answer_of_signDigest`). Nothing else is left to fail but the copy of the receipt
   (`azure_composes`).
-/

namespace Sentinel.Azure

open Py Lib Sentinel.Signing

/-! ## The steps -/

theorem requireAzure_eq_ok {p : Prop} [Decidable p] {message : PyStr} {u : Unit} :
    requireAzure p message = .ok u ↔ p := by
  unfold requireAzure
  by_cases h : p
  · rw [if_pos h]
    exact iff_of_true rfl h
  · rw [if_neg h]
    exact iff_of_false (nomatch ·) h

theorem orSigningError_eq_ok {α : Type} {body : Except PyExc α} {catches : ExcClass → Bool}
    {message : PyStr} {a : α} : orSigningError body catches message = .ok a ↔ body = .ok a :=
  mapError_eq_ok

/-- The decoder of the adapter is that of the contract. -/
theorem azureDecode_eq_ok {value : PyStr} {fieldName : String} {data : Bytes} :
    Azure.b64urlDecodeStrict value fieldName = .ok data ↔
      data ≠ [] ∧ value = Signing.b64urlEncode data := by
  rw [← @Signing.b64urlDecodeStrict_eq_ok value fieldName]
  unfold Azure.b64urlDecodeStrict Signing.b64urlDecodeStrict
  simp only [bind_eq_ok, requireAzure_eq_ok, requireContract_eq_ok, orSigningError_eq_ok,
    tryExcept_eq_ok, pure_eq_ok]
  rfl

/-- **The strict decoders accept the canonical texts and undo the encoder, and the decoder of the
receipts reads these texts alike.** -/
theorem decoders_agree (fieldName fieldName' : String) (s : PyStr) (data : Bytes) :
    (Signing.b64urlDecodeStrict s fieldName = .ok data ↔
      data ≠ [] ∧ s = Signing.b64urlEncode data) ∧
    (Azure.b64urlDecodeStrict s fieldName' = .ok data ↔
      Signing.b64urlDecodeStrict s fieldName = .ok data) ∧
    (Signing.b64urlDecodeStrict s fieldName = .ok data → Receipt.b64urlDecode s = .ok data) ∧
    Receipt.b64urlDecode (Receipt.b64urlEncode data) = .ok data := by
  refine ⟨b64urlDecodeStrict_eq_ok, ?_, fun h => ?_, b64urlDecode_b64urlEncode data⟩
  · rw [azureDecode_eq_ok, b64urlDecodeStrict_eq_ok]
  · obtain ⟨-, rfl⟩ := b64urlDecodeStrict_eq_ok.mp h
    exact b64urlDecode_b64urlEncode data

/-! ## The request -/

variable {env : AzureEnv} {receipt : Dict} {keyId signerRole : PyStr}
  {prepared : PreparedReceiptSignature}

/-- The digest of the signing input. -/
def IsDigest (env : Env) (prepared : PreparedReceiptSignature) (digest : Bytes) : Prop :=
  ∃ message, encodeAscii prepared.signingInput = .ok message ∧ digest = (env.sha256 message).val

/-- **A prepared request passes the checks of the adapter, which hands over its digest.** -/
theorem checkRequest_prepared (hkey : validateAzureKeyId env keyId = .ok ())
    (h : prepareReceiptSignature env.toEnv receipt keyId signerRole = .ok prepared) :
    ∃ digest, IsDigest env.toEnv prepared digest ∧ digest.length = 32 ∧
      checkRequest env prepared.request = .ok (ofBytes (b2aBase64 digest)) := by
  obtain ⟨-, -, ⟨payload, -, hctx⟩, -⟩ := prepareReceiptSignature_eq_ok.mp h
  obtain ⟨message, hmessage, hdigest⟩ := hctx.digest_eq
  have hlength := (env.sha256 message).property
  refine ⟨_, ⟨message, hmessage, rfl⟩, hlength, ?_⟩
  have hne : (env.sha256 message).val ≠ [] := by
    intro hnil
    rw [hnil] at hlength
    cases hlength
  unfold checkRequest
  simp only [bind_eq_ok, requireAzure_eq_ok, azureDecode_eq_ok, pure_eq_ok]
  exact ⟨(), hctx.algorithm_eq, (), hctx.keyId_eq ▸ hkey, _, ⟨hne, hdigest⟩, (), hlength, rfl⟩

/-- What the adapter does with a prepared request: it runs the CLI on the digest and reads the
outcome. -/
theorem signDigest_prepared (hkey : validateAzureKeyId env keyId = .ok ())
    (h : prepareReceiptSignature env.toEnv receipt keyId signerRole = .ok prepared)
    (signer : AzureCliKeyVaultDigestSigner) :
    ∃ digest, IsDigest env.toEnv prepared digest ∧ digest.length = 32 ∧
      signDigest env signer prepared.request = readOutcome env prepared.request (signer.runner
        (signArguments signer.executable prepared.request.keyId (ofBytes (b2aBase64 digest)))) := by
  obtain ⟨digest, hdigest, hlength, hcheck⟩ := checkRequest_prepared hkey h
  refine ⟨digest, hdigest, hlength, ?_⟩
  rw [signDigest, bind_of_ok hcheck]

/-! ## The answer -/

/-- A text that the adapter takes from the CLI encodes 64 bytes. -/
theorem parseOperationResult_eq_ok {stdout text : PyStr}
    (h : parseOperationResult env stdout keyId = .ok text) :
    ∃ raw : Bytes, raw.length = 64 ∧ text = Signing.b64urlEncode raw := by
  unfold parseOperationResult at h
  simp only [bind_eq_ok] at h
  obtain ⟨_, -, _, -, _, -, payload, -, h⟩ := h
  split at h
  · cases h
  · simp only [bind_eq_ok] at h
    obtain ⟨_, -, _, -, h⟩ := h
    split at h
    · simp only [bind_eq_ok, azureDecode_eq_ok, requireAzure_eq_ok, pure_eq_ok] at h
      obtain ⟨raw, ⟨-, hraw⟩, _, hlength, rfl⟩ := h
      exact ⟨raw, hlength, hraw⟩
    · cases h

/-- The result of a run of the CLI that ended well. -/
theorem readOutcome_completed {request : DigestSigningRequest} {stdout text : PyStr}
    (h : parseOperationResult env stdout request.keyId = .ok text) :
    readOutcome env request (.completed 0 stdout) = .ok ⟨lit "ES256", request.keyId, text⟩ :=
  bind_eq_ok.mpr ⟨(), rfl, bind_eq_ok.mpr ⟨text, h, rfl⟩⟩

/-- A result of the adapter is for the request and has 64 bytes. -/
theorem answer_of_signDigest {signer : AzureCliKeyVaultDigestSigner} {request : DigestSigningRequest}
    {result : ExternalSignatureResult} (h : signDigest env signer request = .ok result) :
    result.algorithm = lit "ES256" ∧ result.keyId = request.keyId ∧
      ∃ raw : Bytes, raw.length = 64 ∧ result.signatureB64url = Signing.b64urlEncode raw := by
  obtain ⟨digestBase64, -, h⟩ := bind_eq_ok.mp h
  cases ho : signer.runner (signArguments signer.executable request.keyId digestBase64) with
  | completed returncode stdout =>
    rw [ho] at h
    simp only [readOutcome, bind_eq_ok, pure_eq_ok] at h
    obtain ⟨_, -, text, htext, rfl⟩ := h
    obtain ⟨raw, hlength, rfl⟩ := parseOperationResult_eq_ok htext
    exact ⟨rfl, rfl, raw, hlength, rfl⟩
  | _ =>
    rw [ho] at h
    cases h

/-! ## The composition -/

/-- The signature encodes numbers outside the group range. -/
def OutOfRange (result : ExternalSignatureResult) : Prop :=
  ∃ raw : Bytes, raw.length = 64 ∧ result.signatureB64url = Signing.b64urlEncode raw ∧
    ¬ScalarsInRange raw

/-- Finalization of an unchanged receipt with an answer of 64 bytes runs into the range check or the
copy of the receipt, or it returns. -/
theorem finalize_of_answer {env : Env} {result : ExternalSignatureResult}
    (h : prepareReceiptSignature env receipt keyId signerRole = .ok prepared)
    (halgorithm : result.algorithm = lit "ES256") (hkeyId : result.keyId = prepared.request.keyId)
    {raw : Bytes} (hlength : raw.length = 64)
    (hraw : result.signatureB64url = Signing.b64urlEncode raw) :
    finalizeReceiptSignature env receipt prepared result =
      (do
        requireContract (ScalarsInRange raw)
          (lit "ES256 signature scalars must be in the P-256 group range")
        raiseUnless (receipt.toJson.depth ≤ env.maxCopyDepth) (.std .recursionError .deepcopy)
        return attach receipt prepared.receiptHash
          (signatureEntry prepared result.signatureB64url)) := by
  obtain ⟨⟨hshape, -, -⟩, hnew, ⟨payload, hpayload, hctx⟩, hfits, hvalid⟩ :=
    prepareReceiptSignature_eq_ok.mp h
  have hsame := (valid_of_validatePrepared hvalid).context
  obtain ⟨data, hdata, -⟩ := hsame.payloadB64url_eq
  have hne : raw ≠ [] := by
    rintro rfl
    cases hlength
  have hdecode : Signing.b64urlDecodeStrict result.signatureB64url "external signature" = .ok raw :=
    b64urlDecodeStrict_eq_ok.mpr ⟨hne, hraw⟩
  have hhash : requireSame prepared.receiptHash prepared.receiptHash
      (lit "receipt hash changed after signing preparation") = .ok () :=
    requireSame_eq_ok.mpr ⟨isAscii_sha256Prefixed hsame.receiptHash_eq, rfl⟩
  have hnew' : requireNewKey receipt prepared.request.keyId = .ok () := by
    rw [hctx.keyId_eq]
    exact requireContract_eq_ok.mpr hnew
  rw [← hctx.payload_eq] at hpayload
  -- Each check before the range check passes.
  have pass : ∀ {p : Prop} [Decidable p] {message : PyStr}, p →
      requireContract p message = .ok () := fun hp => requireContract_eq_ok.mpr hp
  unfold finalizeReceiptSignature
  rw [bind_of_ok hshape, bind_of_ok hvalid, bind_of_ok (pass halgorithm), bind_of_ok (pass hkeyId),
    bind_of_ok hpayload, bind_of_ok hdata, bind_of_ok hdata, bind_of_ok (pass rfl),
    bind_of_ok hsame.receiptHash_eq, bind_of_ok hhash, bind_of_ok (pass hfits), bind_of_ok hnew',
    bind_of_ok hdecode, bind_of_ok (pass hlength)]

/-- **The adapter and the contract compose.** For a prepared request the adapter runs the CLI on the
digest of the signing input, and whatever it returns is accepted by finalization of the unchanged
receipt, unless a number is outside the group range. -/
theorem azure_composes (hkey : validateAzureKeyId env keyId = .ok ())
    (h : prepareReceiptSignature env.toEnv receipt keyId signerRole = .ok prepared)
    (hdepth : receipt.toJson.depth ≤ env.maxCopyDepth) (signer : AzureCliKeyVaultDigestSigner) :
    (∃ digest, IsDigest env.toEnv prepared digest ∧ digest.length = 32 ∧
      signDigest env signer prepared.request = readOutcome env prepared.request (signer.runner
        (signArguments signer.executable prepared.request.keyId (ofBytes (b2aBase64 digest))))) ∧
    ∀ result, signDigest env signer prepared.request = .ok result →
      (∃ signed, finalizeReceiptSignature env.toEnv receipt prepared result = .ok signed) ∨
      (OutOfRange result ∧ finalizeReceiptSignature env.toEnv receipt prepared result =
        .error (signingContractError
          (lit "ES256 signature scalars must be in the P-256 group range"))) := by
  refine ⟨signDigest_prepared hkey h signer, fun result hresult => ?_⟩
  obtain ⟨halgorithm, hkeyId, raw, hlength, hraw⟩ := answer_of_signDigest hresult
  rw [finalize_of_answer h halgorithm hkeyId hlength hraw]
  by_cases hrange : ScalarsInRange raw
  · left
    refine ⟨attach receipt prepared.receiptHash (signatureEntry prepared result.signatureB64url), ?_⟩
    exact bind_eq_ok.mpr ⟨(), requireContract_eq_ok.mpr hrange,
      bind_eq_ok.mpr ⟨(), raiseUnless_eq_ok.mpr hdepth, rfl⟩⟩
  · right
    refine ⟨⟨raw, hlength, hraw, hrange⟩, ?_⟩
    rw [requireContract, raiseUnless, if_neg hrange]
    rfl

/-! ## Two drafts -/

def azureKeyId : PyStr := lit "https://abc.vault.azure.net/keys/k/v"

def azureSignature : PyStr := Signing.b64urlEncode (List.replicate 64 1)

/-- The CLI prints a signature by the key. -/
def sampleAzureSigner : AzureCliKeyVaultDigestSigner where
  executable := lit "az"
  runner := fun _ => .completed 0 (lit "\x7b\"kid\":\"" ++ azureKeyId ++ lit "\",\"value\":\"" ++
    azureSignature ++ lit "\"\x7d")
  executable_ok := by decide

/-- An environment to evaluate in. Copying recurses about half as deep as loading and printing. -/
def sampleAzureEnv : AzureEnv where
  toEnv := demoEnv
  lower := fun s => s.map asciiLower
  lower_ascii := fun _ _ => rfl

theorem azureKeyId_valid : validateAzureKeyId sampleAzureEnv azureKeyId = .ok () := by decide +kernel

/-- What the adapter makes of the output of the CLI. -/
theorem sampleAzureSigner_signs {receipt : Dict} {prepared : PreparedReceiptSignature}
    (h : prepareReceiptSignature sampleAzureEnv.toEnv receipt azureKeyId signerRole = .ok prepared) :
    signDigest sampleAzureEnv sampleAzureSigner prepared.request =
      .ok ⟨lit "ES256", azureKeyId, azureSignature⟩ := by
  obtain ⟨digest, -, -, hsign⟩ := signDigest_prepared azureKeyId_valid h sampleAzureSigner
  obtain ⟨-, -, ⟨payload, -, hctx⟩, -⟩ := prepareReceiptSignature_eq_ok.mp h
  have htext : parseOperationResult sampleAzureEnv (lit "\x7b\"kid\":\"" ++ azureKeyId ++
      lit "\",\"value\":\"" ++ azureSignature ++ lit "\"\x7d") prepared.request.keyId = .ok azureSignature := by
    rw [hctx.keyId_eq]
    decide +kernel
  rw [hsign]
  exact (readOutcome_completed htext).trans (by rw [hctx.keyId_eq])

theorem sampleDraft_prepares : ∃ prepared,
    prepareReceiptSignature sampleAzureEnv.toEnv sampleDraft azureKeyId (lit "legal_officer") =
      .ok prepared :=
  exists_ok_of_isSome (by decide +kernel)

theorem azure_composes_sample : ∃ prepared result signed,
    prepareReceiptSignature sampleAzureEnv.toEnv sampleDraft azureKeyId (lit "legal_officer") =
      .ok prepared ∧
    signDigest sampleAzureEnv sampleAzureSigner prepared.request = .ok result ∧
    finalizeReceiptSignature sampleAzureEnv.toEnv sampleDraft prepared result = .ok signed := by
  obtain ⟨prepared, h⟩ := sampleDraft_prepares
  obtain ⟨-, hall⟩ := azure_composes azureKeyId_valid h (by decide +kernel) sampleAzureSigner
  have hsign := sampleAzureSigner_signs h
  refine ⟨prepared, ⟨lit "ES256", azureKeyId, azureSignature⟩, ?_⟩
  rcases hall _ hsign with ⟨signed, hsigned⟩ | ⟨⟨raw, -, hraw, hout⟩, -⟩
  · exact ⟨signed, h, hsign, hsigned⟩
  · obtain rfl := b64urlText_injective hraw
    exact absurd (by decide +kernel) hout

/-- Lists nested in each other. -/
def nested : ℕ → Json
  | 0 => .null
  | n + 1 => .arr [nested n]

/-- The draft with a deeply nested member that is not signed. -/
def deepDraft : Dict := sampleDraft.set (lit "note") (nested 600) (by decide +kernel)

theorem deepDraft_prepares : ∃ prepared,
    prepareReceiptSignature sampleAzureEnv.toEnv deepDraft azureKeyId (lit "legal_officer") =
      .ok prepared :=
  exists_ok_of_isSome (by decide +kernel)

/-- A receipt that is nested too deeply to be copied is prepared and signed, but not finalized. -/
theorem deepDraft_not_finalized : ¬∀ (env : AzureEnv) (receipt : Dict) (keyId signerRole : PyStr)
    (prepared : PreparedReceiptSignature), validateAzureKeyId env keyId = .ok () →
    prepareReceiptSignature env.toEnv receipt keyId signerRole = .ok prepared →
    ∀ signer result, signDigest env signer prepared.request = .ok result →
      (∃ signed, finalizeReceiptSignature env.toEnv receipt prepared result = .ok signed) ∨
        OutOfRange result := by
  intro hall
  obtain ⟨prepared, h⟩ := deepDraft_prepares
  have hsign := sampleAzureSigner_signs h
  rcases hall sampleAzureEnv deepDraft azureKeyId _ prepared azureKeyId_valid h _ _ hsign with
    ⟨signed, hsigned⟩ | ⟨raw, -, hraw, hout⟩
  · obtain ⟨-, -, -, -, -, -, hdepth, -⟩ := finalizeReceiptSignature_eq_ok.mp hsigned
    exact absurd hdepth (by decide +kernel)
  · obtain rfl := b64urlText_injective hraw
    exact absurd (by decide +kernel) hout

end Sentinel.Azure
