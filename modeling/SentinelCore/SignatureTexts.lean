import SentinelCore.SigningContract
import SentinelCore.VerifierRule

/-!
# Signature texts

Both verifiers read a signature with the lenient decoder, so one signature has many texts. A text is
the one the signer writes when it is `isTight`: groups of four characters of the URL-safe alphabet
and a last group of two or three whose spare bits are zero.
-/

namespace Sentinel

open Py Lib Signing

/-- Nothing but characters of the alphabet, and no spare bit set in the last group. -/
def isTight : PyStr → Bool
  | [] => true
  | [_] => false
  | [a, b] => isBase64urlChar a && (lit "AQgw").contains b
  | [a, b, c] => isBase64urlChar a && isBase64urlChar b && (lit "AEIMQUYcgkosw048").contains c
  | a :: b :: c :: d :: rest =>
    isBase64urlChar a && isBase64urlChar b && isBase64urlChar c && isBase64urlChar d && isTight rest

/-! ## The alphabet -/

/-- The character for a six-bit value. -/
def urlChar (v : ℕ) : CodePoint := ⟨(toUrlsafe (sextetByte v)).val, by omega⟩

theorem coreText_eq (data : Bytes) : coreText data = (b2aCore data).map urlChar := by
  unfold coreText ofBytes
  rw [List.map_map]
  rfl

theorem isBase64urlChar_urlChar : ∀ v < 64, isBase64urlChar (urlChar v) = true := by decide

theorem exists_urlChar {c : CodePoint} (h : isBase64urlChar c = true) :
    ∃ v < 64, urlChar v = c := by
  have key : ∀ n < 128, isBase64urlChar (point n) = true → ∃ v < 64, urlChar v = point n := by
    decide +kernel
  have hlt : c.val < 128 := by
    have hdash : (chr '-').val < 128 := by decide
    have hunder : (chr '_').val < 128 := by decide
    simp only [isBase64urlChar, isAsciiAlnum, isAsciiDigit, isAsciiLower, isAsciiUpper,
      Bool.or_eq_true, Bool.and_eq_true, decide_eq_true_eq] at h
    rcases h with ((h | h) | rfl) | rfl <;> omega
  have := key c.val hlt
  rw [point_val] at this
  exact this h

/-- A last character of two carries two bits of a byte. -/
theorem mem_twoEnd {c : CodePoint} :
    (lit "AQgw").contains c = true ↔ ∃ k < 4, urlChar (k * 16) = c := by
  have hends : lit "AQgw" = (List.range 4).map fun k => urlChar (k * 16) := by decide
  rw [List.contains_iff_mem, hends, List.mem_map]
  simp only [List.mem_range]

/-- A last character of three carries four bits of a byte. -/
theorem mem_threeEnd {c : CodePoint} :
    (lit "AEIMQUYcgkosw048").contains c = true ↔ ∃ k < 16, urlChar (k * 4) = c := by
  have hends : lit "AEIMQUYcgkosw048" = (List.range 16).map fun k => urlChar (k * 4) := by decide
  rw [List.contains_iff_mem, hends, List.mem_map]
  simp only [List.mem_range]

/-! ## Tight texts are the encodings -/

theorem isTight_coreText (data : Bytes) : isTight ((b2aCore data).map urlChar) = true := by
  induction data using b2aCore.induct with
  | case1 => rfl
  | case2 a =>
    have ha := a.isLt
    simp only [b2aCore, List.map_cons, List.map_nil, isTight, Bool.and_eq_true]
    exact ⟨isBase64urlChar_urlChar _ (by omega), mem_twoEnd.mpr ⟨a.val % 4, by omega, rfl⟩⟩
  | case3 a b =>
    have ha := a.isLt
    have hb := b.isLt
    simp only [b2aCore, List.map_cons, List.map_nil, isTight, Bool.and_eq_true]
    exact ⟨⟨isBase64urlChar_urlChar _ (by omega), isBase64urlChar_urlChar _ (by omega)⟩,
      mem_threeEnd.mpr ⟨b.val % 16, by omega, rfl⟩⟩
  | case4 a b c rest ih =>
    have ha := a.isLt
    have hb := b.isLt
    have hc := c.isLt
    simp only [b2aCore, List.map_cons, isTight, Bool.and_eq_true]
    exact ⟨⟨⟨⟨isBase64urlChar_urlChar _ (by omega), isBase64urlChar_urlChar _ (by omega)⟩,
      isBase64urlChar_urlChar _ (by omega)⟩, isBase64urlChar_urlChar _ (by omega)⟩, ih⟩

/-- The bytes of a tight text, read off group by group. -/
theorem exists_of_isTight : ∀ s : PyStr, isTight s = true →
    ∃ data, (b2aCore data).map urlChar = s := by
  intro s
  induction s using isTight.induct with
  | case1 => exact fun _ => ⟨[], rfl⟩
  | case2 => intro h; cases h
  | case3 a b =>
    intro h
    simp only [isTight, Bool.and_eq_true] at h
    obtain ⟨v, hv, rfl⟩ := exists_urlChar h.1
    obtain ⟨k, hk, rfl⟩ := mem_twoEnd.mp h.2
    refine ⟨[byte (v * 4 + k)], ?_⟩
    have hval : (byte (v * 4 + k)).val = v * 4 + k := byte_val (by omega)
    simp only [b2aCore, hval, List.map_cons, List.map_nil]
    congr 2
    · omega
    · congr 2
      omega
  | case4 a b c =>
    intro h
    simp only [isTight, Bool.and_eq_true] at h
    obtain ⟨v, hv, rfl⟩ := exists_urlChar h.1.1
    obtain ⟨w, hw, rfl⟩ := exists_urlChar h.1.2
    obtain ⟨k, hk, rfl⟩ := mem_threeEnd.mp h.2
    refine ⟨[byte (v * 4 + w / 16), byte (w % 16 * 16 + k)], ?_⟩
    have hval : (byte (v * 4 + w / 16)).val = v * 4 + w / 16 := byte_val (by omega)
    have hval' : (byte (w % 16 * 16 + k)).val = w % 16 * 16 + k := byte_val (by omega)
    have h1 : (v * 4 + w / 16) / 4 = v := by omega
    have h2 : (v * 4 + w / 16) % 4 * 16 + (w % 16 * 16 + k) / 16 = w := by omega
    have h3 : (w % 16 * 16 + k) % 16 * 4 = k * 4 := by omega
    simp only [b2aCore, hval, hval', h1, h2, h3, List.map_cons, List.map_nil]
  | case5 a b c d rest ih =>
    intro h
    simp only [isTight, Bool.and_eq_true] at h
    obtain ⟨⟨⟨⟨ha, hb⟩, hc⟩, hd⟩, hrest⟩ := h
    obtain ⟨v, hv, rfl⟩ := exists_urlChar ha
    obtain ⟨w, hw, rfl⟩ := exists_urlChar hb
    obtain ⟨x, hx, rfl⟩ := exists_urlChar hc
    obtain ⟨y, hy, rfl⟩ := exists_urlChar hd
    obtain ⟨data, hdata⟩ := ih hrest
    refine ⟨byte (v * 4 + w / 16) :: byte (w % 16 * 16 + x / 4) :: byte (x % 4 * 64 + y) :: data, ?_⟩
    have hval : (byte (v * 4 + w / 16)).val = v * 4 + w / 16 := byte_val (by omega)
    have hval' : (byte (w % 16 * 16 + x / 4)).val = w % 16 * 16 + x / 4 := byte_val (by omega)
    have hval'' : (byte (x % 4 * 64 + y)).val = x % 4 * 64 + y := byte_val (by omega)
    have h1 : (v * 4 + w / 16) / 4 = v := by omega
    have h2 : (v * 4 + w / 16) % 4 * 16 + (w % 16 * 16 + x / 4) / 16 = w := by omega
    have h3 : (w % 16 * 16 + x / 4) % 16 * 4 + (x % 4 * 64 + y) / 64 = x := by omega
    have h4 : (x % 4 * 64 + y) % 64 = y := by omega
    simp only [b2aCore, hval, hval', hval'', h1, h2, h3, h4, List.map_cons, hdata]

/-- **The tight texts are the encodings.** -/
theorem isTight_iff {text : PyStr} : isTight text = true ↔ ∃ data, b64urlText data = text := by
  simp only [b64urlText_eq, coreText_eq]
  constructor
  · exact exists_of_isTight text
  · rintro ⟨data, rfl⟩
    exact isTight_coreText data

/-- A text that decodes is the encoding of what it decodes to exactly when it is tight. -/
theorem encode_eq_iff_isTight {text : PyStr} {data : Bytes}
    (h : Receipt.b64urlDecode text = .ok data) :
    Receipt.b64urlEncode data = text ↔ isTight text = true := by
  rw [isTight_iff]
  constructor
  · exact fun heq => ⟨data, heq⟩
  · rintro ⟨data', rfl⟩
    rw [Except.ok.inj (h.symm.trans (b64urlDecode_b64urlEncode data'))]
    rfl

/-! ## The signature texts of what is verified -/

/-- A text that stands as a signature in the receipt. -/
def IsReceiptSignature (receipt : Dict) (text : PyStr) : Prop :=
  ∃ entry : Dict, entry.toJson ∈ Receipt.signaturesOf receipt ∧
    entry.get (lit "signature") = .str text

/-- The text that stands as the signature of the record. -/
def IsRecordSignature (record : Dict) (text : PyStr) : Prop :=
  ∃ signature : Dict, record.get (lit "signature") = signature.toJson ∧
    signature.get (lit "value") = .str text

variable {env : Env}

theorem decode_of_es256 {jwk : Json} {input value : PyStr}
    (h : Receipt.verifyEs256JwsSignature env jwk input value = .ok true) :
    ∃ data, Receipt.b64urlDecode value = .ok data := by
  unfold Receipt.verifyEs256JwsSignature at h
  obtain ⟨d, -, h⟩ := bind_eq_ok.mp h
  obtain ⟨p, -, h⟩ := bind_eq_ok.mp h
  obtain ⟨raw, hraw, -⟩ := bind_eq_ok.mp h
  exact ⟨raw, hraw⟩

/-- Every signature text of a verified receipt decodes. -/
theorem decode_of_rcVerified {receipt registry : Dict} {res : Receipt.ReceiptVerificationResult}
    (h : Receipt.verifyReceipt env receipt registry = .ok res) (hv : res.status = .rcVerified)
    {text : PyStr} (htext : IsReceiptSignature receipt text) :
    ∃ data, Receipt.b64urlDecode text = .ok data := by
  obtain ⟨t, ht⟩ := Receipt.releaseRule_of_rcVerified h hv
  obtain ⟨entry, hentry, hvalue⟩ := htext
  rw [Receipt.signaturesOf, ht.entries.1] at hentry
  obtain ⟨kid, role, signature, trustKey, hsame, hvalid⟩ := ht.signatures _ hentry
  obtain rfl := Dict.toJson_injective hsame
  obtain ⟨protectedText, value, -, hsig, -, jwk, -, hverify⟩ := hvalid.verifies
  obtain rfl := Json.str.inj (hvalue.symm.trans hsig)
  exact decode_of_es256 hverify

/-- The signature text of a record that is accepted with a trust registry decodes. -/
theorem decode_of_accepted {record : Dict} {opts : Options} {registry : TrustRegistry}
    {res : VerificationResult} (h : verifyEvidenceRecord env record opts = .ok res)
    (hok : res.ok = true) (hreg : opts.trustRegistry = some registry) {text : PyStr}
    (htext : IsRecordSignature record text) : ∃ data, decodeUrlsafe text = .ok data := by
  obtain ⟨_, _, trust, _, -, -, ht, -, rfl⟩ := verifyEvidenceRecord_eq_ok.mp h
  obtain ⟨-, -, -, -, htrust, -⟩ := conclude_ok.mp hok
  obtain ⟨key, hkey⟩ := ((checkTrust_errors ht).mp htrust).2 registry hreg
  obtain ⟨signature, value, hsig, -, hvalue, -, _, data, _, _, -, -, -, -, hdecode, -⟩ :=
    hkey.verifies
  obtain ⟨signature', hsig', hvalue'⟩ := htext
  obtain rfl := Dict.toJson_injective (hsig.symm.trans hsig')
  obtain rfl := Json.str.inj (hvalue.symm.trans hvalue')
  exact ⟨data, hdecode⟩

/-- **Which accepted signature texts are the ones the signer writes**: the tight ones, for receipts
and for records, and no two tight texts stand for the same bytes. -/
theorem acceptedTexts_canonical_iff (env : Env) :
    (∀ receipt registry res text, Receipt.verifyReceipt env receipt registry = .ok res →
      res.status = .rcVerified → IsReceiptSignature receipt text →
        ∃ data, Receipt.b64urlDecode text = .ok data ∧
          (Receipt.b64urlEncode data = text ↔ isTight text = true)) ∧
    (∀ record opts registry res text, verifyEvidenceRecord env record opts = .ok res →
      res.ok = true → opts.trustRegistry = some registry → IsRecordSignature record text →
        ∃ data, decodeUrlsafe text = .ok data ∧
          (b64urlEncode data = text ↔ isTight text = true)) ∧
    ∀ text text' data, Receipt.b64urlDecode text = .ok data →
      Receipt.b64urlDecode text' = .ok data → isTight text = true → isTight text' = true →
        text = text' := by
  refine ⟨fun receipt registry res text h hv htext => ?_,
    fun record opts registry res text h hok hreg htext => ?_,
    fun text text' data h h' ht ht' => ?_⟩
  · obtain ⟨data, hdata⟩ := decode_of_rcVerified h hv htext
    exact ⟨data, hdata, encode_eq_iff_isTight hdata⟩
  · obtain ⟨data, hdata⟩ := decode_of_accepted h hok hreg htext
    exact ⟨data, hdata, encode_eq_iff_isTight hdata⟩
  · rw [← (encode_eq_iff_isTight h).mpr ht, ← (encode_eq_iff_isTight h').mpr ht']

theorem sampleReceipt_text : ∃ data, Receipt.b64urlDecode Receipt.sampleSignatureText = .ok data ∧
    (Receipt.b64urlEncode data = Receipt.sampleSignatureText ↔
      isTight Receipt.sampleSignatureText = true) := by
  obtain ⟨res, h, hv⟩ := Receipt.sampleReceipt_verified
  refine (acceptedTexts_canonical_iff demoEnv).1 _ _ res _ h hv ?_
  exact ⟨((Receipt.signaturesOf Receipt.sampleReceipt).headD .null).dictOrEmpty, by decide +kernel,
    by decide +kernel⟩

/-- The sample receipt with another text for its signature. -/
def respelledReceipt (text : PyStr) : Dict :=
  Receipt.sampleReceipt.set (lit "signatures") (.arr
    [((((Receipt.signaturesOf Receipt.sampleReceipt).headD .null).dictOrEmpty).set
      (lit "signature") (.str text) (Json.wellFormed_str text)).toJson]) (by
        rw [Json.wellFormed_arr]
        intro v hv
        rw [List.mem_singleton.mp hv]
        exact Dict.toJson_wellFormed _)

/-- Another text for the signature of the receipt, with which it is verified as well. -/
def Respells (text : PyStr) : Prop :=
  Receipt.b64urlDecode text = Receipt.b64urlDecode Receipt.sampleSignatureText ∧
    text ≠ Receipt.sampleSignatureText ∧
    ∃ res, Receipt.verifyReceipt demoEnv (respelledReceipt text) Receipt.sampleRegistry = .ok res ∧
      res.status = .rcVerified

/-- A spare bit, a stray character or a padding does not matter to the verifier. -/
theorem respelledReceipt_verified : Respells (Receipt.sampleSignatureText.dropLast ++ lit "x") ∧
    Respells (Receipt.sampleSignatureText ++ lit "!!!!") ∧
    Respells (Receipt.sampleSignatureText ++ lit "==") := by
  have key : ∀ text ∈ [Receipt.sampleSignatureText.dropLast ++ lit "x",
      Receipt.sampleSignatureText ++ lit "!!!!", Receipt.sampleSignatureText ++ lit "=="],
      Receipt.b64urlDecode text = Receipt.b64urlDecode Receipt.sampleSignatureText ∧
        text ≠ Receipt.sampleSignatureText ∧
        (Receipt.verifyReceipt demoEnv (respelledReceipt text) Receipt.sampleRegistry).toOption.map
          Receipt.ReceiptVerificationResult.status = some .rcVerified := by
    decide +kernel
  have respells : ∀ text ∈ [Receipt.sampleSignatureText.dropLast ++ lit "x",
      Receipt.sampleSignatureText ++ lit "!!!!", Receipt.sampleSignatureText ++ lit "=="],
      Respells text := by
    intro text htext
    obtain ⟨hdecode, hne, hverified⟩ := key text htext
    exact ⟨hdecode, hne, exists_of_map hverified⟩
  exact ⟨respells _ (by simp), respells _ (by simp), respells _ (by simp)⟩

end Sentinel
