import SentinelCore.ReceiptRule
import SentinelCore.SignedContent

/-!
# What a verified receipt guarantees

Two guarantees a reader may expect of a verified receipt, and exactly how far they go.

1. Two verified receipts with the same signatures agree on everything that is signed. They agree
   on the rest only if it happens to be the same: fields outside the payload, and whether a field of
   the payload is missing or null (`sameReceipt_iff`).
2. The bounds of the keys are kept as long as they are strings; a bound of another type is
   not looked at (`windowsKept_iff`).
-/

namespace Sentinel.Receipt

open Py Lib

variable {env : Env}

/-! ## Changes after signing -/

/-- The receipts say the same, apart from the signatures and the receipt hash. -/
structure SameReceipt (r r' : Dict) : Prop where
  fields : ∀ key, key ≠ lit "signatures" → key ≠ lit "chain" →
    (r.get? key).map Json.meaning = (r'.get? key).map Json.meaning
  chain : ∀ key, key ≠ lit "receipt_hash" →
    ((chainOf r).get? key).map Json.meaning = ((chainOf r').get? key).map Json.meaning

/-- The receipts agree on what the payload leaves out. -/
structure SameUncovered (r r' : Dict) : Prop where
  extra : ∀ key, key ∉ signedFields.map lit → key ≠ lit "signatures" → key ≠ lit "chain" →
    (r.get? key).map Json.meaning = (r'.get? key).map Json.meaning
  presence : ∀ name ∈ signedFields, r.get? (lit name) = none ↔ r'.get? (lit name) = none
  chainExtra : ∀ key, key ∉ signedChainFields.map lit → key ≠ lit "receipt_hash" →
    ((chainOf r).get? key).map Json.meaning = ((chainOf r').get? key).map Json.meaning

theorem get_meaning_congr {d d' : Dict} (h : d.toJson.meaning = d'.toJson.meaning) (key : PyStr) :
    (d.get key).meaning = (d'.get key).meaning := by
  rw [toJson_meaning, toJson_meaning, JsonValue.obj.injEq] at h
  have hkey := congrFun h key
  unfold Dict.get
  cases hd : d.get? key with
  | none =>
    rw [hd] at hkey
    rw [Option.map_eq_none_iff.mp hkey.symm]
  | some v =>
    rw [hd] at hkey
    obtain ⟨v', hv', hmeaning⟩ := Option.map_eq_some_iff.mp hkey.symm
    rw [hv']
    exact hmeaning.symm

/-- Two fields that are both there and read the same are the same. -/
theorem map_meaning_of_get {d d' : Dict} {key : PyStr}
    (hnone : d.get? key = none ↔ d'.get? key = none)
    (h : (d.get key).meaning = (d'.get key).meaning) :
    (d.get? key).map Json.meaning = (d'.get? key).map Json.meaning := by
  unfold Dict.get at h
  cases hd : d.get? key with
  | none => rw [hnone.mp hd]
  | some v =>
    cases hd' : d'.get? key with
    | none => rw [hnone.mpr hd'] at hd; cases hd
    | some v' =>
      rw [hd, hd'] at h
      exact congrArg some h

theorem payloadB64_eq_ok {receipt : Dict} {payload : PyStr} :
    payloadB64 env receipt = .ok payload ↔ ∃ text data,
      buildUnsignedReceiptPayload env receipt = .ok text ∧ encodeUtf8 text = .ok data ∧
        b64urlText data = payload := by
  unfold payloadB64
  simp only [bind_eq_ok, pure_eq_ok]
  constructor
  · rintro ⟨text, ht, data, hd, rfl⟩
    exact ⟨text, data, ht, hd, rfl⟩
  · rintro ⟨text, data, ht, hd, rfl⟩
    exact ⟨text, ht, data, hd, rfl⟩

/-- The payload text determines what is signed. -/
theorem sameSigned_of_payloadB64 {r r' : Dict} {payload : PyStr}
    (h : payloadB64 env r = .ok payload) (h' : payloadB64 env r' = .ok payload) :
    SameSigned r r' := by
  obtain ⟨text, data, ht, hd, rfl⟩ := payloadB64_eq_ok.mp h
  obtain ⟨text', data', ht', hd', hdata⟩ := payloadB64_eq_ok.mp h'
  obtain rfl := b64urlText_injective hdata
  obtain rfl := encodeUtf8_inj hd hd'
  exact (payload_eq_iff ht).mp ht'

/-- The payload of a verified receipt stands in its first signature. -/
theorem payload_of_entries {r r' registry : Dict} {t t' : Terms} (ht : Released env r registry t)
    (ht' : Released env r' registry t')
    (hsig : (r.get (lit "signatures")).meaning = (r'.get (lit "signatures")).meaning) :
    t.payload = t'.payload := by
  rw [ht.entries.1, ht'.entries.1, Json.meaning, Json.meaning, Json.meaningItems_eq,
    Json.meaningItems_eq, JsonValue.arr.injEq] at hsig
  obtain ⟨entry, rest, he⟩ := List.exists_cons_of_ne_nil ht.entries.2
  obtain ⟨entry', rest', he'⟩ := List.exists_cons_of_ne_nil ht'.entries.2
  obtain ⟨_, _, signature, _, rfl, hvalid⟩ := ht.signatures entry (by rw [he]; simp)
  obtain ⟨_, _, signature', _, rfl, hvalid'⟩ := ht'.signatures entry' (by rw [he']; simp)
  rw [he, he', List.map_cons, List.map_cons] at hsig
  have hpayload := get_meaning_congr (List.cons.inj hsig).1 (lit "payload")
  rw [hvalid.payload_eq, hvalid'.payload_eq, Json.meaning, Json.meaning] at hpayload
  exact JsonValue.str.inj hpayload

theorem get?_ne_none {d : Dict} {key : PyStr} (h : d.get key ≠ .null) : d.get? key ≠ none := by
  intro hnone
  rw [Dict.get, hnone] at h
  exact h rfl

/-- The signed fields of the chain are there in a verified receipt. -/
theorem chain_present {r registry : Dict} {t : Terms} (ht : Released env r registry t)
    {name : String} (hname : name ∈ signedChainFields) : (chainOf r).get? (lit name) ≠ none := by
  apply get?_ne_none
  obtain ⟨n, hn⟩ := ht.sequence
  obtain ⟨hex, hhex, -⟩ := ht.previousHash
  rcases List.mem_cons.mp hname with rfl | hname
  · rw [hn]
    exact Json.noConfusion
  · rw [List.mem_singleton.mp hname, hhex]
    exact Json.noConfusion

/-- **Two verified receipts with the same signatures say the same exactly when they agree on what
the payload leaves out.** -/
theorem sameReceipt_iff {r r' registry : Dict} {res res' : ReceiptVerificationResult}
    (h : verifyReceipt env r registry = .ok res) (hv : res.status = .rcVerified)
    (h' : verifyReceipt env r' registry = .ok res') (hv' : res'.status = .rcVerified)
    (hsig : (r.get (lit "signatures")).meaning = (r'.get (lit "signatures")).meaning) :
    SameReceipt r r' ↔ SameUncovered r r' := by
  obtain ⟨t, ht⟩ := releaseRule_of_rcVerified h hv
  obtain ⟨t', ht'⟩ := releaseRule_of_rcVerified h' hv'
  have hpayload := ht.payload
  rw [payload_of_entries ht ht' hsig] at hpayload
  have hsigned := sameSigned_of_payloadB64 hpayload ht'.payload
  constructor
  · rintro ⟨hfields, hchain⟩
    refine ⟨fun key _ => hfields key, fun name hname => ?_, fun key _ => hchain key⟩
    have hne : lit name ≠ lit "signatures" ∧ lit name ≠ lit "chain" := by
      simp only [ne_eq, lit_inj]
      revert name
      decide
    have hmap := hfields (lit name) hne.1 hne.2
    constructor
    · intro hnone
      rw [hnone] at hmap
      exact Option.map_eq_none_iff.mp hmap.symm
    · intro hnone
      rw [hnone] at hmap
      exact Option.map_eq_none_iff.mp hmap
  · rintro ⟨hextra, hpresence, hchainExtra⟩
    refine ⟨fun key hsigs hch => ?_, fun key hhash => ?_⟩
    · by_cases hkey : key ∈ signedFields.map lit
      · obtain ⟨name, hname, rfl⟩ := List.mem_map.mp hkey
        exact map_meaning_of_get (hpresence name hname) (hsigned.fields name hname)
      · exact hextra key hkey hsigs hch
    · by_cases hkey : key ∈ signedChainFields.map lit
      · obtain ⟨name, hname, rfl⟩ := List.mem_map.mp hkey
        refine map_meaning_of_get ?_ (hsigned.chain name hname)
        exact iff_of_false (chain_present ht hname) (chain_present ht' hname)
      · exact hchainExtra key hkey hhash

/-- The signed receipt with a note that nobody signed. -/
def annotatedReceipt : Dict := sampleReceipt.set (lit "note") (.str (lit "approved")) (by decide)

theorem annotatedReceipt_status : ∃ res, verifyReceipt demoEnv annotatedReceipt sampleRegistry = .ok res ∧
    res.status = .rcVerified := exists_of_map (by decide +kernel)

theorem annotatedReceipt_signatures :
    sampleReceipt.get (lit "signatures") = annotatedReceipt.get (lit "signatures") := by decide +kernel

theorem sameReceipt_iff_sample :
    SameReceipt sampleReceipt annotatedReceipt ↔ SameUncovered sampleReceipt annotatedReceipt := by
  obtain ⟨res, h, hv⟩ := sampleReceipt_verified
  obtain ⟨res', h', hv'⟩ := annotatedReceipt_status
  exact sameReceipt_iff h hv h' hv' (congrArg Json.meaning annotatedReceipt_signatures)

/-- A field added after signing goes unnoticed. -/
theorem annotatedReceipt_verified : ∃ res res',
    verifyReceipt demoEnv sampleReceipt sampleRegistry = .ok res ∧ res.status = .rcVerified ∧
      verifyReceipt demoEnv annotatedReceipt sampleRegistry = .ok res' ∧
      res'.status = .rcVerified ∧
      sampleReceipt.get (lit "signatures") = annotatedReceipt.get (lit "signatures") ∧
      ¬SameReceipt sampleReceipt annotatedReceipt := by
  obtain ⟨res, h, hv⟩ := sampleReceipt_verified
  obtain ⟨res', h', hv'⟩ := annotatedReceipt_status
  refine ⟨res, res', h, hv, h', hv', annotatedReceipt_signatures, fun hsame => ?_⟩
  have hnote := hsame.fields (lit "note") (by decide) (by decide)
  have hnone : sampleReceipt.get? (lit "note") = none := by decide +kernel
  have hsome : annotatedReceipt.get? (lit "note") = some (.str (lit "approved")) := by
    decide +kernel
  rw [hnone, hsome] at hnote
  cases hnote

/-! ## Bounds of the keys -/

/-- The moment the receipt gives for its creation. -/
def CreatedAt (receipt : Dict) (t : Instant) : Prop :=
  ∃ text, receipt.get (lit "created_at") = .str text ∧ parseRfc3339Utc text = .ok t

/-- A signature entry names the key. In a verified receipt each entry is counted or repeats the key
of a counted one, so these are the keys of the counted signatures. -/
def NamesKey (receipt registry trustKey : Dict) : Prop :=
  ∃ signature : Dict, signature.toJson ∈ signaturesOf receipt ∧ ∃ kid,
    signature.get (lit "kid") = .str kid ∧ registry.get kid = trustKey.toJson

/-- A bound that is there is a time, on the right side. -/
def BoundKept (bound : Json) (permits : Instant → Prop) : Prop :=
  bound ≠ .null → ∃ text limit, bound = .str text ∧ parseRfc3339Utc text = .ok limit ∧ permits limit

/-- Both bounds of every key are kept at the creation of the receipt. -/
def WindowsKept (receipt registry : Dict) : Prop :=
  ∀ trustKey, NamesKey receipt registry trustKey → ∀ createdAt, CreatedAt receipt createdAt →
    BoundKept (trustKey.get (lit "not_before")) (fun notBefore => ¬createdAt < notBefore) ∧
      BoundKept (trustKey.get (lit "not_after")) (fun notAfter => ¬notAfter < createdAt)

/-- The bound is missing, null or a string. -/
def IsText (bound : Json) : Prop := bound ≠ .null → ∃ text, bound = .str text

/-- The bounds of the keys are strings where they are given. -/
def WindowsAreTexts (receipt registry : Dict) : Prop :=
  ∀ trustKey, NamesKey receipt registry trustKey →
    IsText (trustKey.get (lit "not_before")) ∧ IsText (trustKey.get (lit "not_after"))

theorem boundKept_iff {bound : Json} {permits : Instant → Prop} (h : Permits bound permits) :
    BoundKept bound permits ↔ IsText bound := by
  refine ⟨fun hkept hnull => ?_, fun htext hnull => ?_⟩
  · obtain ⟨text, limit, hbound, -⟩ := hkept hnull
    exact ⟨text, hbound⟩
  · obtain ⟨text, hbound⟩ := htext hnull
    obtain ⟨limit, hlimit⟩ := h text hbound
    exact ⟨text, limit, hbound, hlimit⟩

/-- **A verified receipt keeps the bounds of its keys exactly when these are strings.** -/
theorem windowsKept_iff {receipt registry : Dict} {res : ReceiptVerificationResult}
    (h : verifyReceipt env receipt registry = .ok res) (hv : res.status = .rcVerified) :
    WindowsKept receipt registry ↔ WindowsAreTexts receipt registry := by
  obtain ⟨t, ht⟩ := releaseRule_of_rcVerified h hv
  obtain ⟨text, htext, -, hparse⟩ := ht.createdAt
  have hwindow : ∀ trustKey, NamesKey receipt registry trustKey →
      WindowPermits trustKey t.createdAt := by
    rintro trustKey ⟨signature, hmem, kid, hkid, hknown⟩
    unfold signaturesOf at hmem
    rw [ht.entries.1] at hmem
    obtain ⟨kid', role, signature', trustKey', hsig, hvalid⟩ := ht.signatures _ hmem
    obtain rfl := Dict.toJson_injective hsig
    obtain rfl := Json.str.inj (hkid.symm.trans hvalid.kid_eq)
    obtain rfl := Dict.toJson_injective (hknown.symm.trans hvalid.known)
    exact hvalid.window
  constructor
  · intro hkept trustKey hkey
    obtain ⟨hbefore, hafter⟩ := hkept trustKey hkey t.createdAt ⟨text, htext, hparse⟩
    exact ⟨(boundKept_iff (hwindow trustKey hkey).1).mp hbefore,
      (boundKept_iff (hwindow trustKey hkey).2).mp hafter⟩
  · rintro htexts trustKey hkey createdAt ⟨text', htext', hparse'⟩
    obtain rfl := Json.str.inj (htext.symm.trans htext')
    obtain rfl := Except.ok.inj (hparse.symm.trans hparse')
    exact ⟨(boundKept_iff (hwindow trustKey hkey).1).mpr (htexts trustKey hkey).1,
      (boundKept_iff (hwindow trustKey hkey).2).mpr (htexts trustKey hkey).2⟩

theorem windowsKept_iff_sample :
    WindowsKept sampleReceipt sampleRegistry ↔ WindowsAreTexts sampleReceipt sampleRegistry := by
  obtain ⟨res, h, hv⟩ := sampleReceipt_verified
  exact windowsKept_iff h hv

/-- A registry whose key expired at the number 0. -/
def expiredRegistry : Dict where
  fields := [(lit "k1", .obj [(lit "status", .str (lit "active")), (lit "alg", .str (lit "ES256")),
    (lit "role", .str (lit "legal_officer")), (lit "not_after", .int 0),
    (lit "jwk", sampleJwk.toJson)])]
  wf := by decide

/-- A bound that is a number is not looked at. -/
theorem expiredRegistry_verifies : ∃ res,
    verifyReceipt demoEnv sampleReceipt expiredRegistry = .ok res ∧ res.status = .rcVerified ∧
      ¬WindowsKept sampleReceipt expiredRegistry := by
  have hverified : ∃ res, verifyReceipt demoEnv sampleReceipt expiredRegistry = .ok res ∧
      res.status = .rcVerified := exists_of_map (by decide +kernel)
  obtain ⟨res, h, hv⟩ := hverified
  obtain ⟨t, ht⟩ := releaseRule_of_rcVerified h hv
  obtain ⟨text, htext, -, hparse⟩ := ht.createdAt
  obtain ⟨signature, hsig⟩ : ∃ signature : Dict, signaturesOf sampleReceipt = [signature.toJson] ∧
      signature.get (lit "kid") = .str (lit "k1") :=
    ⟨sampleSignature ((payloadB64 demoEnv (sampleUnsigned [])).toOption.getD []) |>.dictOrEmpty,
      by decide +kernel⟩
  obtain ⟨trustKey, hkey, hbound⟩ : ∃ trustKey : Dict,
      expiredRegistry.get (lit "k1") = trustKey.toJson ∧ trustKey.get (lit "not_after") = .int 0 :=
    ⟨(expiredRegistry.get (lit "k1")).dictOrEmpty, by decide +kernel⟩
  refine ⟨res, h, hv, fun hkept => ?_⟩
  have hnames : NamesKey sampleReceipt expiredRegistry trustKey :=
    ⟨signature, by rw [hsig.1]; exact List.mem_singleton_self _, _, hsig.2, hkey⟩
  have hafter := (hkept trustKey hnames t.createdAt ⟨text, htext, hparse⟩).2
  rw [hbound] at hafter
  obtain ⟨_, _, htext', -⟩ := hafter Json.noConfusion
  cases htext'

end Sentinel.Receipt
