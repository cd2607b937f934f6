import SentinelCore.ExternalSigning
import SentinelCore.ReceiptRule
import SentinelCore.SignedContent

/-!
# The signing contract

What finalization accepts. `ContextOf` says which context belongs to a payload, a key and a role;
there is one at most (`ContextOf.unique`). Preparation returns the context of the receipt's payload,
and the checks of a prepared value hold only of the context of its own payload
(`valid_of_validatePrepared`). So a value that finalization accepts for a receipt is the one that
preparation returns for it.
-/

namespace Sentinel.Signing

open Py Lib

variable {env : Env}

/-! ## The steps -/

theorem requireContract_eq_ok {p : Prop} [Decidable p] {message : PyStr} {u : Unit} :
    requireContract p message = .ok u ↔ p := raiseUnless_eq_ok

theorem compareDigest_eq_ok {a b : PyStr} {same : Bool} :
    compareDigest a b = .ok same ↔ (isAscii a = true ∧ isAscii b = true) ∧ (a == b) = same := by
  unfold compareDigest
  by_cases h : isAscii a = true ∧ isAscii b = true
  · rw [if_pos (by simp [h]), Except.ok.injEq, and_iff_right h]
  · rw [if_neg (by simpa using h)]
    refine iff_of_false (fun h' => ?_) fun h' => h h'.1
    cases h'

theorem requireSame_eq_ok {expected actual message : PyStr} {u : Unit} :
    requireSame expected actual message = .ok u ↔ isAscii expected = true ∧ actual = expected := by
  unfold requireSame
  simp only [bind_eq_ok, compareDigest_eq_ok, requireContract_eq_ok, exists_eq_right, beq_iff_eq]
  constructor
  · rintro ⟨⟨hascii, -⟩, rfl⟩
    exact ⟨hascii, rfl⟩
  · rintro ⟨hascii, rfl⟩
    exact ⟨⟨hascii, hascii⟩, rfl⟩

theorem b64urlEncode_chars (data : Bytes) : (b64urlEncode data).all isBase64urlChar = true := by
  have key : ∀ v < 64, (ofBytes [toUrlsafe (sextetByte v)]).all isBase64urlChar = true := by decide
  rw [b64urlEncode, b64urlText_eq, List.all_eq_true]
  intro c hc
  simp only [coreText, ofBytes, List.map_map, List.mem_map] at hc
  obtain ⟨v, hv, rfl⟩ := hc
  simpa [ofBytes] using key v (b2aCore_lt data v hv)

theorem b64urlEncode_eq_nil {data : Bytes} : b64urlEncode data = [] ↔ data = [] := by
  refine ⟨fun h => b64urlText_injective ?_, ?_⟩
  · exact h
  · rintro rfl
    rfl

/-- **The strict decoder accepts the texts of the encoder only.** -/
theorem b64urlDecodeStrict_eq_ok {value : PyStr} {fieldName : String} {data : Bytes} :
    b64urlDecodeStrict value fieldName = .ok data ↔ data ≠ [] ∧ value = b64urlEncode data := by
  unfold b64urlDecodeStrict
  simp only [bind_eq_ok, requireContract_eq_ok, tryExcept_eq_ok, pure_eq_ok]
  constructor
  · rintro ⟨-, ⟨hne, -⟩, decoded, -, -, rfl, rfl⟩
    exact ⟨fun h => hne (b64urlEncode_eq_nil.mpr h), rfl⟩
  · rintro ⟨hne, rfl⟩
    refine ⟨(), ⟨fun h => hne (b64urlEncode_eq_nil.mp h), b64urlEncode_chars data⟩, data, ?_, (),
      rfl, rfl⟩
    exact ⟨_, encodeAscii_addPad data, b64urlText_decode true data⟩

/-- What the encoder writes is read back by the lenient decoder of the receipts. -/
theorem b64urlDecode_b64urlEncode (data : Bytes) :
    Receipt.b64urlDecode (b64urlEncode data) = .ok data :=
  bind_eq_ok.mpr ⟨_, encodeAscii_addPad data, b64urlText_decode false data⟩

/-! ## The header -/

theorem canonicalizeJson_expectedHeader (keyId : PyStr) :
    canonicalizeJson env (expectedHeader keyId).toJson = .ok (expectedHeader keyId).toJson.text := by
  refine (Runtime.dumps_ok _).mpr ⟨(Runtime.checkLimits_ok _).mpr ⟨?_, rfl⟩, rfl⟩
  have hdepth : (expectedHeader keyId).toJson.depth = 1 := rfl
  have := env.two_le_maxDumpDepth
  omega

/-- Dictionaries with the same items have one canonical text. -/
theorem text_eq_of_get? {d e : Dict} (h : ∀ key, d.get? key = e.get? key) :
    d.toJson.text = e.toJson.text := by
  rw [Json.text_eq_iff d.toJson_wellFormed e.toJson_wellFormed, toJson_meaning, toJson_meaning]
  simp only [h]

/-! ## The context of a payload -/

variable (env)

/-- The signing context of a payload for a key and a role. -/
structure ContextOf (payload keyId signerRole : PyStr) (prepared : PreparedReceiptSignature) :
    Prop where
  algorithm_eq : prepared.request.algorithm = lit "ES256"
  keyId_eq : prepared.request.keyId = keyId
  signerRole_eq : prepared.signerRole = signerRole
  payload_eq : prepared.canonicalPayload = payload
  receiptHash_eq : sha256Prefixed env payload = .ok prepared.receiptHash
  protected_eq : ∃ data, encodeUtf8 (expectedHeader keyId).toJson.text = .ok data ∧
    prepared.protectedB64url = b64urlEncode data
  payloadB64url_eq : ∃ data, encodeUtf8 payload = .ok data ∧
    prepared.payloadB64url = b64urlEncode data
  signingInput_eq : prepared.signingInput =
    Receipt.signingInput prepared.protectedB64url prepared.payloadB64url
  digest_eq : ∃ message, encodeAscii prepared.signingInput = .ok message ∧
    prepared.request.digestB64url = b64urlEncode (env.sha256 message).val

/-- What a prepared value has to be by itself. -/
structure ValidPrepared (prepared : PreparedReceiptSignature) : Prop where
  versioned : validateVersionedKeyId env prepared.request.keyId = .ok ()
  signerRole : validateSignerRole prepared.signerRole = .ok ()
  context : ContextOf env prepared.canonicalPayload prepared.request.keyId prepared.signerRole prepared
  header : Receipt.HeaderNames env prepared.protectedB64url prepared.request.keyId

variable {env} {prepared : PreparedReceiptSignature}

/-- A context is put together from its hash and three encodings. -/
theorem ContextOf.exists_eq {payload keyId signerRole : PyStr}
    (h : ContextOf env payload keyId signerRole prepared) :
    ∃ hash data payloadData message, sha256Prefixed env payload = .ok hash ∧
      encodeUtf8 (expectedHeader keyId).toJson.text = .ok data ∧
      encodeUtf8 payload = .ok payloadData ∧
      encodeAscii (Receipt.signingInput (b64urlEncode data) (b64urlEncode payloadData)) =
        .ok message ∧
      prepared = ⟨⟨lit "ES256", keyId, b64urlEncode (env.sha256 message).val⟩, signerRole, hash,
        payload, b64urlEncode data, b64urlEncode payloadData,
        Receipt.signingInput (b64urlEncode data) (b64urlEncode payloadData)⟩ := by
  obtain ⟨data, hdata, hprotected⟩ := h.protected_eq
  obtain ⟨payloadData, hpayloadData, hpayload⟩ := h.payloadB64url_eq
  obtain ⟨message, hmessage, hdigest⟩ := h.digest_eq
  refine ⟨_, data, payloadData, message, h.receiptHash_eq, hdata, hpayloadData, ?_, ?_⟩
  · rwa [← hprotected, ← hpayload, ← h.signingInput_eq]
  · rw [← hprotected, ← hpayload, ← h.signingInput_eq, ← hdigest, ← h.algorithm_eq, ← h.keyId_eq,
      ← h.signerRole_eq, ← h.payload_eq]

/-- There is one context at most. -/
theorem ContextOf.unique {payload keyId signerRole : PyStr} {p q : PreparedReceiptSignature}
    (hp : ContextOf env payload keyId signerRole p) (hq : ContextOf env payload keyId signerRole q) :
    p = q := by
  obtain ⟨hash, data, payloadData, message, hhash, hdata, hpayload, hmessage, rfl⟩ := hp.exists_eq
  obtain ⟨hash', data', payloadData', message', hhash', hdata', hpayload', hmessage', rfl⟩ :=
    hq.exists_eq
  obtain rfl := Except.ok.inj (hhash.symm.trans hhash')
  obtain rfl := Except.ok.inj (hdata.symm.trans hdata')
  obtain rfl := Except.ok.inj (hpayload.symm.trans hpayload')
  obtain rfl := Except.ok.inj (hmessage.symm.trans hmessage')
  rfl

/-- **The checks of a prepared value pin every field of it.** -/
theorem valid_of_validatePrepared (h : validatePrepared env prepared = .ok ()) :
    ValidPrepared env prepared := by
  unfold validatePrepared at h
  simp only [bind_eq_ok, requireContract_eq_ok, requireSame_eq_ok, tryExcept_eq_ok,
    b64urlDecodeStrict_eq_ok, exists_const, Json.equalsDict_iff] at h
  obtain ⟨halgorithm, _, hkey, _, hrole, hash, hhash, ⟨-, rfl⟩, protectedBytes, ⟨-, hprotected⟩,
    payloadBytes, ⟨-, hpayload⟩, _, ⟨headerText, hdecode, hloads⟩, payloadText, hpayloadText,
    ⟨header, rfl, hheader⟩, canonical, hcanonical, _, hbytes, rfl, rfl, ⟨-, hinput⟩, message,
    hmessage, -, hdigest⟩ := h
  have hcanonical : canonical = (expectedHeader prepared.request.keyId).toJson.text := by
    obtain ⟨-, rfl⟩ := (Runtime.dumps_ok _).mp hcanonical
    exact text_eq_of_get? hheader
  refine ⟨hkey, hrole, ⟨halgorithm, rfl, rfl, rfl, hhash, ⟨_, ?_, hprotected⟩, ⟨_, ?_, hpayload⟩,
    hinput, message, hmessage, hdigest⟩, header, ?_, ?_, ?_⟩
  · rwa [← hcanonical]
  · exact encodeUtf8_of_decodeUtf8 hpayloadText
  · rw [Receipt.protectedHeader, hprotected]
    exact bind_eq_ok.mpr ⟨_, b64urlDecode_b64urlEncode _,
      bind_eq_ok.mpr ⟨headerText, hdecode, hloads⟩⟩
  · rw [Dict.get, hheader]
    rfl
  · rw [Dict.get, hheader]
    rfl

/-! ## Preparation and finalization -/

variable {receipt signed : Dict}

/-- **What preparation returns.** -/
theorem prepareReceiptSignature_eq_ok {keyId signerRole : PyStr} :
    prepareReceiptSignature env receipt keyId signerRole = .ok prepared ↔
      (validateReceiptShape receipt = .ok () ∧ validateVersionedKeyId env keyId = .ok () ∧
        validateSignerRole signerRole = .ok ()) ∧
      hasSignature receipt keyId = false ∧
      (∃ payload, Receipt.buildUnsignedReceiptPayload env receipt = .ok payload ∧
        ContextOf env payload keyId signerRole prepared) ∧
      HashFits receipt prepared.receiptHash ∧ validatePrepared env prepared = .ok () := by
  unfold prepareReceiptSignature requireNewKey
  simp only [bind_eq_ok, requireContract_eq_ok, pure_eq_ok, canonicalizeJson_expectedHeader,
    Except.ok.injEq, exists_eq_left', exists_const]
  constructor
  · rintro ⟨_, hshape, _, hkey, _, hrole, hnew, payload, hpayload, hash, hhash, hfits, data, hdata,
      payloadData, hpayloadData, message, hmessage, _, hvalid, rfl⟩
    exact ⟨⟨hshape, hkey, hrole⟩, hnew, ⟨payload, hpayload, rfl, rfl, rfl, rfl, hhash,
      ⟨data, hdata, rfl⟩, ⟨payloadData, hpayloadData, rfl⟩, rfl, message, hmessage, rfl⟩, hfits, hvalid⟩
  · rintro ⟨⟨hshape, hkey, hrole⟩, hnew, ⟨payload, hpayload, hctx⟩, hfits, hvalid⟩
    obtain ⟨hash, data, payloadData, message, hhash, hdata, hpayloadData, hmessage, rfl⟩ :=
      hctx.exists_eq
    exact ⟨(), hshape, (), hkey, (), hrole, hnew, payload, hpayload, hash, hhash, hfits, data, hdata,
      payloadData, hpayloadData, message, hmessage, (), hvalid, rfl⟩

/-- What finalization asks of the answer of a signer. -/
structure Answers (prepared : PreparedReceiptSignature) (result : ExternalSignatureResult)
    (raw : Bytes) : Prop where
  algorithm_eq : result.algorithm = lit "ES256"
  keyId_eq : result.keyId = prepared.request.keyId
  signature_eq : result.signatureB64url = b64urlEncode raw
  length_eq : raw.length = 64
  inRange : ScalarsInRange raw

/-- **What finalization returns.** -/
theorem finalizeReceiptSignature_eq_ok {result : ExternalSignatureResult} :
    finalizeReceiptSignature env receipt prepared result = .ok signed ↔
      validateReceiptShape receipt = .ok () ∧ validatePrepared env prepared = .ok () ∧
      Receipt.buildUnsignedReceiptPayload env receipt = .ok prepared.canonicalPayload ∧
      HashFits receipt prepared.receiptHash ∧
      hasSignature receipt prepared.request.keyId = false ∧
      (∃ raw, Answers prepared result raw) ∧
      receipt.toJson.depth ≤ env.maxCopyDepth ∧
      attach receipt prepared.receiptHash (signatureEntry prepared result.signatureB64url) =
        signed := by
  unfold finalizeReceiptSignature requireNewKey
  simp only [bind_eq_ok, requireContract_eq_ok, requireSame_eq_ok, raiseUnless_eq_ok, pure_eq_ok,
    b64urlDecodeStrict_eq_ok, exists_const]
  constructor
  · rintro ⟨_, hshape, _, hvalid, halgorithm, hkey, payload, hpayload, data, hdata, data', hdata',
      rfl, hash, -, -, hfits, hnew, raw, ⟨-, hraw⟩, hlength, hrange, hdepth, hattach⟩
    obtain rfl := encodeUtf8_inj hdata hdata'
    exact ⟨hshape, hvalid, hpayload, hfits, hnew, ⟨raw, halgorithm, hkey, hraw, hlength, hrange⟩,
      hdepth, hattach⟩
  · rintro ⟨hshape, hvalid, hpayload, hfits, hnew, ⟨raw, halgorithm, hkey, hraw, hlength, hrange⟩,
      hdepth, hattach⟩
    have hctx := (valid_of_validatePrepared hvalid).context
    obtain ⟨data, hdata, -⟩ := hctx.payloadB64url_eq
    have hne : raw ≠ [] := by
      rintro rfl
      cases hlength
    exact ⟨(), hshape, (), hvalid, halgorithm, hkey, _, hpayload, data, hdata, data, hdata, rfl, _,
      hctx.receiptHash_eq, ⟨isAscii_sha256Prefixed hctx.receiptHash_eq, rfl⟩, hfits, hnew, raw,
      ⟨hne, hraw⟩, hlength, hrange, hdepth, hattach⟩

/-- A prepared value that finalization accepts for a receipt is the one preparation returns now. -/
theorem prepare_of_finalize {result : ExternalSignatureResult}
    (h : finalizeReceiptSignature env receipt prepared result = .ok signed) :
    prepareReceiptSignature env receipt prepared.request.keyId prepared.signerRole =
      .ok prepared := by
  obtain ⟨hshape, hvalid, hpayload, hfits, hnew, -⟩ := finalizeReceiptSignature_eq_ok.mp h
  have hok := valid_of_validatePrepared hvalid
  exact prepareReceiptSignature_eq_ok.mpr ⟨⟨hshape, hok.versioned, hok.signerRole⟩, hnew,
    ⟨_, hpayload, hok.context⟩, hfits, hvalid⟩

/-- One call is a preparation, an answer and a finalization. -/
theorem signReceipt_eq_ok {keyId signerRole : PyStr} {signer : ExternalDigestSigner} :
    signReceiptWithExternalDigestSigner env receipt keyId signerRole signer = .ok signed ↔
      ∃ prepared result, prepareReceiptSignature env receipt keyId signerRole = .ok prepared ∧
        signer prepared.request = .ok result ∧
        finalizeReceiptSignature env receipt prepared result = .ok signed := by
  unfold signReceiptWithExternalDigestSigner
  simp only [bind_eq_ok]
  exact ⟨fun ⟨p, hp, r, hr, h⟩ => ⟨p, r, hp, hr, h⟩, fun ⟨p, r, hp, hr, h⟩ => ⟨p, hp, r, hr, h⟩⟩

/-! ## The signed receipt -/

theorem validateReceiptShape_eq_ok :
    validateReceiptShape receipt = .ok () ↔
      (∃ chain : Dict, receipt.get (lit "chain") = chain.toJson) ∧
        ∃ items, receipt.get (lit "signatures") = .arr items := by
  unfold validateReceiptShape
  simp only [bind_eq_ok, requireContract_eq_ok, exists_const, Option.isSome_iff_exists,
    Json.toDict?_eq_some, Json.items?_eq_some]

theorem hasSignature_eq_false {keyId : PyStr} :
    hasSignature receipt keyId = false ↔
      ∀ entry : Dict, entry.toJson ∈ Receipt.signaturesOf receipt →
        entry.get (lit "kid") ≠ .str keyId := by
  unfold hasSignature
  rw [List.any_eq_false]
  constructor
  · intro h entry hentry hkid
    apply h _ hentry
    rw [entry.toDict?_toJson]
    exact decide_eq_true hkid
  · intro h item hitem hany
    cases hitem' : item.toDict? with
    | none =>
      rw [hitem'] at hany
      cases hany
    | some entry =>
      rw [hitem'] at hany
      obtain rfl := Json.toDict?_eq_some.mp hitem'
      exact h entry hitem (of_decide_eq_true hany)

/-- The receipt `signed` is `receipt` with the hash set and the entry appended. -/
structure Attached (receipt signed : Dict) (hash : PyStr) (entry : Dict) : Prop where
  fields : ∀ key, key ≠ lit "chain" → key ≠ lit "signatures" → signed.get? key = receipt.get? key
  chain : ∃ chain chain' : Dict, receipt.get (lit "chain") = chain.toJson ∧
    signed.get? (lit "chain") = some chain'.toJson ∧
    chain'.get? (lit "receipt_hash") = some (.str hash) ∧
    ∀ key, key ≠ lit "receipt_hash" → chain'.get? key = chain.get? key
  signatures : ∃ items, receipt.get (lit "signatures") = .arr items ∧
    signed.get? (lit "signatures") = some (.arr (items ++ [entry.toJson]))

theorem attached_attach (h : validateReceiptShape receipt = .ok ()) (hash : PyStr) (entry : Dict) :
    Attached receipt (attach receipt hash entry) hash entry := by
  obtain ⟨⟨chain, hchain⟩, items, hitems⟩ := validateReceiptShape_eq_ok.mp h
  have hchainOf : Receipt.chainOf receipt = chain := by
    rw [Receipt.chainOf, hchain, Json.dictOrEmpty_toJson]
  have hsignaturesOf : Receipt.signaturesOf receipt = items := by
    rw [Receipt.signaturesOf, hitems]
  have hget : ∀ key, (hashedChain receipt hash).get? key =
      if lit "receipt_hash" = key then some (.str hash) else chain.get? key := by
    intro key
    rw [← hchainOf]
    exact Dict.get?_set ..
  refine ⟨fun key hc hs => ?_, ⟨chain, hashedChain receipt hash, hchain, ?_, ?_, fun key hkey => ?_⟩,
    items, hitems, ?_⟩
  · rw [attach, Dict.get?_set, if_neg hs.symm, Dict.get?_set, if_neg hc.symm]
  · rw [attach, Dict.get?_set, if_neg (by decide), Dict.get?_set, if_pos rfl]
  · rw [hget, if_pos rfl]
  · rw [hget, if_neg hkey.symm]
  · rw [attach, Dict.get?_set, if_pos rfl, hsignaturesOf]

/-- What it takes for a receipt to be the outcome of a finalization. -/
structure Finalized (env : Env) (receipt : Dict) (prepared : PreparedReceiptSignature)
    (result : ExternalSignatureResult) (signed : Dict) : Prop where
  current : prepareReceiptSignature env receipt prepared.request.keyId prepared.signerRole =
    .ok prepared
  hash : Receipt.receiptHash env receipt = .ok prepared.receiptHash
  raw : ∃ raw, raw.length = 64 ∧ result.signatureB64url = b64urlEncode raw ∧ ScalarsInRange raw
  attached : Attached receipt signed prepared.receiptHash
    (signatureEntry prepared result.signatureB64url)
  fresh : ∀ entry : Dict, entry.toJson ∈ Receipt.signaturesOf receipt →
    entry.get (lit "kid") ≠ .str prepared.request.keyId

/-- **Finalization accepts the context that preparation would make now, and no other.** -/
theorem finalizeReceiptSignature_current {result : ExternalSignatureResult}
    (h : finalizeReceiptSignature env receipt prepared result = .ok signed) :
    Finalized env receipt prepared result signed := by
  obtain ⟨hshape, hvalid, hpayload, -, hnew, ⟨raw, hanswers⟩, -, rfl⟩ :=
    finalizeReceiptSignature_eq_ok.mp h
  have hctx := (valid_of_validatePrepared hvalid).context
  exact ⟨prepare_of_finalize h, bind_eq_ok.mpr ⟨_, hpayload, hctx.receiptHash_eq⟩,
    ⟨raw, hanswers.length_eq, hanswers.signature_eq, hanswers.inRange⟩,
    attached_attach hshape _ _, hasSignature_eq_false.mp hnew⟩

/-! ## A draft and its first signature -/

def sampleDraft : Dict := (Receipt.sampleUnsigned []).set (lit "signatures") (.arr []) (by rfl)

def sampleKeyId : PyStr := lit "https://v.vault.azure.net/keys/n/1"

/-- A signer that answers with the text. -/
def signerOf (signature : PyStr) : ExternalDigestSigner := fun request =>
  .ok ⟨lit "ES256", request.keyId, signature⟩

def sampleSigner : ExternalDigestSigner :=
  signerOf (lit "e56AQkq78AFCA_OnHwCGlKr_x4owI4GlEaUk3Ncs_BZ42sryhwMoyq6JINakObuCf7_x72wK81aVB6xpIKv76g")

theorem sampleDraft_signs : ∃ signed, signReceiptWithExternalDigestSigner demoEnv sampleDraft
    sampleKeyId (lit "legal_officer") sampleSigner = .ok signed := by
  have h : (signReceiptWithExternalDigestSigner demoEnv sampleDraft sampleKeyId
    (lit "legal_officer") sampleSigner).toOption.isSome = true := by decide +kernel
  exact ⟨_, eq_ok_getD (d := sampleDraft) h⟩

theorem finalizeReceiptSignature_current_sample :
    ∃ prepared result signed, Finalized demoEnv sampleDraft prepared result signed := by
  obtain ⟨signed, h⟩ := sampleDraft_signs
  obtain ⟨prepared, result, -, -, h⟩ := signReceipt_eq_ok.mp h
  exact ⟨prepared, result, signed, finalizeReceiptSignature_current h⟩

end Sentinel.Signing
