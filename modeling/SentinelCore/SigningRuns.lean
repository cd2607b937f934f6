import SentinelCore.SigningContract
import SentinelCore.ReceiptFailures

/-!
# Signing runs and the verifier

A draft without signatures is signed by one call after another, each on the receipt the last one
left. `Progress` is what holds after any number of calls: the signed content is the draft's, the hash
is set, and the entries are signatures of the draft's payload by the keys of the calls, in order.
The verifier builds the same payload by itself, so it accepts every entry (`verdicts_of_progress`)
and objects to nothing but the receipt's own fields and its policy.
-/

namespace Sentinel.Signing

open Py Lib

/-- One call of the signing function, with the public key of its signer. -/
structure SigningCall where
  keyId : PyStr
  signerRole : PyStr
  signer : ExternalDigestSigner
  publicJwk : Dict

variable (env : Env)

/-- The answer is a signature, by the key of the call, of the input whose digest was sent. -/
def Honest (call : SigningCall) (prepared : PreparedReceiptSignature)
    (result : ExternalSignatureResult) : Prop :=
  ∃ raw message x y, result.signatureB64url = b64urlEncode raw ∧
    encodeAscii prepared.signingInput = .ok message ∧
    Receipt.loadEs256PublicKey env call.publicJwk = .ok (x, y) ∧
    env.ecdsaVerify x y (natOfBytes (raw.take 32)) (natOfBytes (raw.drop 32)) message = true

/-- The calls succeed one after another from the draft on, and every signer answers honestly. -/
inductive SigningRun (draft : Dict) : List SigningCall → Dict → Prop
  | start : SigningRun draft [] draft
  | sign {calls : List SigningCall} {receipt signed : Dict} {call : SigningCall}
      (before : SigningRun draft calls receipt)
      (succeeds : signReceiptWithExternalDigestSigner env receipt call.keyId call.signerRole
        call.signer = .ok signed)
      (honest : ∀ prepared result,
        prepareReceiptSignature env receipt call.keyId call.signerRole = .ok prepared →
          call.signer prepared.request = .ok result → Honest env call prepared result) :
      SigningRun draft (calls ++ [call]) signed

/-- The entry is a signature of the payload of the receipt by the key of the call. -/
structure SignedOver (receipt : Dict) (call : SigningCall) (entry : Dict) : Prop where
  kid_eq : entry.get (lit "kid") = .str call.keyId
  signerRole_eq : entry.get (lit "signer_role") = .str call.signerRole
  alg_eq : entry.get (lit "alg") = .str (lit "ES256")
  verifies : ∃ payload protectedText value, Receipt.payloadB64 env receipt = .ok payload ∧
    entry.get (lit "payload") = .str payload ∧
    entry.get (lit "protected") = .str protectedText ∧
    entry.get (lit "signature") = .str value ∧
    Receipt.HeaderNames env protectedText call.keyId ∧
    Receipt.verifyEs256JwsSignature env call.publicJwk.toJson
      (Receipt.signingInput protectedText payload) value = .ok true

/-- Where a run stands after some calls. -/
structure Progress (draft : Dict) (calls : List SigningCall) (receipt : Dict) : Prop where
  fields : ∀ key, key ≠ lit "chain" → key ≠ lit "signatures" → receipt.get? key = draft.get? key
  chain : ∀ key, key ≠ lit "receipt_hash" →
    (Receipt.chainOf receipt).get? key = (Receipt.chainOf draft).get? key
  hash : calls ≠ [] → ∃ hash, Receipt.receiptHash env draft = .ok hash ∧
    (Receipt.chainOf receipt).get (lit "receipt_hash") = .str hash
  entries : ∃ entries : List Dict, receipt.get (lit "signatures") = .arr (entries.map Dict.toJson) ∧
    List.Forall₂ (SignedOver env draft) calls entries
  keys_nodup : (calls.map SigningCall.keyId).Nodup

variable {env} {draft receipt signed : Dict} {calls : List SigningCall} {call : SigningCall}

/-! ## One call -/

/-- An honest answer passes the verifier's own signature check. -/
theorem verifies_of_honest {prepared : PreparedReceiptSignature} {result : ExternalSignatureResult}
    {raw : Bytes} (hraw : result.signatureB64url = b64urlEncode raw) (hlength : raw.length = 64)
    (h : Honest env call prepared result) :
    Receipt.verifyEs256JwsSignature env call.publicJwk.toJson prepared.signingInput
      result.signatureB64url = .ok true := by
  obtain ⟨raw', message, x, y, hraw', hmessage, hkey, hverify⟩ := h
  obtain rfl := b64urlText_injective (hraw.symm.trans hraw')
  unfold Receipt.verifyEs256JwsSignature
  simp only [bind_eq_ok, pure_eq_ok]
  have hder : Receipt.rawEs256ToDer raw =
      .ok (natOfBytes (raw.take 32), natOfBytes (raw.drop 32)) := by
    unfold Receipt.rawEs256ToDer
    rw [if_neg (not_not.mpr hlength)]
  refine ⟨_, Receipt.asDict_toJson _, (x, y), hkey, raw, ?_, _, hder, message,
    encodeUtf8_of_encodeAscii hmessage, hverify⟩
  rw [hraw]
  exact b64urlDecode_b64urlEncode raw

/-- **One call**: it attaches an entry signed over the payload of the receipt it is given. -/
theorem signedOver_of_sign
    (hsign : signReceiptWithExternalDigestSigner env receipt call.keyId call.signerRole
      call.signer = .ok signed)
    (honest : ∀ prepared result,
      prepareReceiptSignature env receipt call.keyId call.signerRole = .ok prepared →
        call.signer prepared.request = .ok result → Honest env call prepared result) :
    ∃ hash entry, Receipt.receiptHash env receipt = .ok hash ∧ SignedOver env receipt call entry ∧
      Attached receipt signed hash entry ∧ hasSignature receipt call.keyId = false := by
  obtain ⟨prepared, result, hprepare, hresult, hfinalize⟩ := signReceipt_eq_ok.mp hsign
  obtain ⟨-, hnew, ⟨payload, hpayload, hctx⟩, -, hvalid⟩ := prepareReceiptSignature_eq_ok.mp hprepare
  obtain ⟨hshape, -, -, -, -, ⟨raw, hanswers⟩, -, rfl⟩ := finalizeReceiptSignature_eq_ok.mp hfinalize
  obtain ⟨payloadData, hpayloadData, hpayloadText⟩ := hctx.payloadB64url_eq
  have hheader := (valid_of_validatePrepared hvalid).header
  rw [hctx.keyId_eq] at hheader
  have hverifies := verifies_of_honest hanswers.signature_eq hanswers.length_eq
    (honest prepared result hprepare hresult)
  rw [hctx.signingInput_eq] at hverifies
  refine ⟨prepared.receiptHash, signatureEntry prepared result.signatureB64url,
    bind_eq_ok.mpr ⟨payload, hpayload, hctx.receiptHash_eq⟩, ⟨?_, ?_, rfl, prepared.payloadB64url,
      prepared.protectedB64url, result.signatureB64url, ?_, rfl, rfl, rfl, hheader, hverifies⟩,
    attached_attach hshape _ _, hnew⟩
  · rw [← hctx.keyId_eq]
    rfl
  · rw [← hctx.signerRole_eq]
    rfl
  · exact Receipt.payloadB64_eq_ok.mpr ⟨payload, payloadData, hpayload, hpayloadData,
      hpayloadText.symm⟩

/-! ## The run -/

theorem get_eq_of_get? {d e : Dict} {key : PyStr} (h : d.get? key = e.get? key) :
    d.get key = e.get key := by
  unfold Dict.get
  rw [h]

/-- The signed content of a receipt in a run is that of the draft. -/
theorem Progress.unsignedReceipt_eq (h : Progress env draft calls receipt) :
    Receipt.unsignedReceipt receipt = Receipt.unsignedReceipt draft := by
  unfold Receipt.unsignedReceipt Receipt.selectFields
  congr 2
  · refine List.map_congr_left fun name hname => ?_
    have hchain : ∀ n ∈ Receipt.signedFields, lit n ≠ lit "chain" ∧ lit n ≠ lit "signatures" := by
      decide
    obtain ⟨hc, hs⟩ := hchain name hname
    rw [get_eq_of_get? (h.fields _ hc hs)]
  · congr 3
    refine List.map_congr_left fun name hname => ?_
    have hhash : ∀ n ∈ Receipt.signedChainFields, lit n ≠ lit "receipt_hash" := by decide
    rw [get_eq_of_get? (h.chain _ (hhash name hname))]

theorem Progress.receiptHash_eq (h : Progress env draft calls receipt) :
    Receipt.receiptHash env receipt = Receipt.receiptHash env draft := by
  unfold Receipt.receiptHash Receipt.buildUnsignedReceiptPayload
  rw [h.unsignedReceipt_eq]

theorem Progress.payloadB64_eq (h : Progress env draft calls receipt) :
    Receipt.payloadB64 env receipt = Receipt.payloadB64 env draft := by
  unfold Receipt.payloadB64 Receipt.buildUnsignedReceiptPayload
  rw [h.unsignedReceipt_eq]

theorem progress_start (h : draft.get (lit "signatures") = .arr []) :
    Progress env draft [] draft :=
  ⟨fun _ _ _ => rfl, fun _ _ => rfl, fun hne => absurd rfl hne, ⟨[], h, .nil⟩, List.nodup_nil⟩

/-- A key that has no signature in the receipt is none of the keys of the calls so far. -/
theorem keyId_not_mem {entries : List Dict} {keyId : PyStr}
    (hentries : receipt.get (lit "signatures") = .arr (entries.map Dict.toJson))
    (hsigned : List.Forall₂ (SignedOver env draft) calls entries)
    (hnew : hasSignature receipt keyId = false) : keyId ∉ calls.map SigningCall.keyId := by
  intro hmem
  obtain ⟨earlier, hearlier, rfl⟩ := List.mem_map.mp hmem
  obtain ⟨entry, hentry, hover⟩ := exists_of_forall₂ hsigned hearlier
  refine hasSignature_eq_false.mp hnew entry ?_ hover.kid_eq
  rw [Receipt.signaturesOf, hentries]
  exact List.mem_map_of_mem hentry

/-- **A call takes a run on.** -/
theorem Progress.sign (h : Progress env draft calls receipt)
    (hsign : signReceiptWithExternalDigestSigner env receipt call.keyId call.signerRole
      call.signer = .ok signed)
    (honest : ∀ prepared result,
      prepareReceiptSignature env receipt call.keyId call.signerRole = .ok prepared →
        call.signer prepared.request = .ok result → Honest env call prepared result) :
    Progress env draft (calls ++ [call]) signed := by
  obtain ⟨hash, entry, hhash, hover, hattached, hnew⟩ := signedOver_of_sign hsign honest
  obtain ⟨entries, hentries, hsigned⟩ := h.entries
  obtain ⟨chain, chain', hchain, hchain', hset, hkept⟩ := hattached.chain
  obtain ⟨items, hitems, hitems'⟩ := hattached.signatures
  have hold : Receipt.chainOf receipt = chain := by
    rw [Receipt.chainOf, hchain, Json.dictOrEmpty_toJson]
  have hnext : Receipt.chainOf signed = chain' := by
    rw [Receipt.chainOf, Dict.get, hchain', Option.getD_some, Json.dictOrEmpty_toJson]
  rw [hentries, Json.arr.injEq] at hitems
  refine ⟨fun key hc hs => ?_, fun key hkey => ?_, fun _ => ⟨hash, ?_, ?_⟩,
    ⟨entries ++ [entry], ?_, ?_⟩, ?_⟩
  · rw [hattached.fields key hc hs, h.fields key hc hs]
  · rw [hnext, hkept key hkey, ← hold, h.chain key hkey]
  · rw [← h.receiptHash_eq, hhash]
  · rw [hnext, Dict.get, hset, Option.getD_some]
  · rw [Dict.get, hitems', Option.getD_some, ← hitems, List.map_append]
    rfl
  · obtain ⟨payload, protectedText, value, hpayload, hrest⟩ := hover.verifies
    rw [h.payloadB64_eq] at hpayload
    exact List.rel_append hsigned (.cons ⟨hover.kid_eq, hover.signerRole_eq, hover.alg_eq, payload,
      protectedText, value, hpayload, hrest⟩ .nil)
  · rw [List.map_append, List.map_singleton]
    rw [← List.concat_eq_append]
    exact h.keys_nodup.concat (keyId_not_mem hentries hsigned hnew)

theorem progress_of_run (h : SigningRun env draft calls signed)
    (hdraft : draft.get (lit "signatures") = .arr []) : Progress env draft calls signed := by
  induction h with
  | start => exact progress_start hdraft
  | sign before succeeds honest ih => exact ih.sign succeeds honest

/-! ## The verifier on a signed receipt -/

open Receipt (ReadsCreatedAt CreatedAtLeavesYears WindowPermits Findings ReceiptVerificationIssue
  ReceiptVerificationResult Verdicts verifyReceipt)

/-- The registry lists the key of a call as active, for ES256, in its role, and valid at the time
the receipt was created, which does not leave the supported years. -/
structure Lists (registry draft : Dict) (call : SigningCall) (trustKey : Dict) : Prop where
  known : registry.get call.keyId = trustKey.toJson
  active : trustKey.get (lit "status") = .str (lit "active")
  alg : trustKey.get (lit "alg") = .str (lit "ES256")
  role : trustKey.get (lit "role") = .str call.signerRole
  jwk : trustKey.get? (lit "jwk") = some call.publicJwk.toJson
  inYears : ¬CreatedAtLeavesYears draft
  window : ∀ t, ReadsCreatedAt draft t → WindowPermits trustKey t

variable {registry : Dict}

theorem Lists.fields_ne_nil {trustKey : Dict} (h : Lists registry draft call trustKey) :
    registry.fields ≠ [] := by
  intro hnil
  have hknown := h.known
  rw [Dict.get, Dict.get?, hnil] at hknown
  cases hknown

/-- An entry of a run is one the verifier accepts. -/
theorem signedBy_of_signedOver {entry trustKey : Dict} {payload : PyStr}
    (hpayload : Receipt.payloadB64 env draft = .ok payload) (h : SignedOver env draft call entry)
    (hlists : Lists registry draft call trustKey) :
    Receipt.SignedBy env registry payload entry trustKey call.keyId call.signerRole := by
  obtain ⟨payload', protectedText, value, hpayload', htext, hprotected, hvalue, hheader, hverify⟩ :=
    h.verifies
  obtain rfl := Except.ok.inj (hpayload.symm.trans hpayload')
  exact ⟨⟨h.kid_eq, h.signerRole_eq, h.alg_eq, hlists.known, hlists.active, hlists.alg, hlists.role⟩,
    htext, protectedText, value, hprotected, hvalue, hheader, _, hlists.jwk, hverify⟩

/-- The key and the role of every call. -/
def pairsOf (calls : List SigningCall) : List (PyStr × PyStr) :=
  calls.map fun call => (call.keyId, call.signerRole)

/-- **The verifier accepts every entry of a run.** -/
theorem verdicts_of_progress {findings : Findings} (h : Progress env draft calls receipt)
    (hlists : ∀ call ∈ calls, ∃ trustKey, Lists registry draft call trustKey)
    (hcreated : ∀ t, findings.createdAt = some t → ReadsCreatedAt draft t)
    (hpayload : Receipt.payloadB64 env draft = .ok findings.expectedPayloadB64) :
    Verdicts env receipt registry findings ((pairsOf calls).map .ok) := by
  obtain ⟨entries, hentries, hsigned⟩ := h.entries
  unfold Verdicts pairsOf
  rw [Receipt.signaturesOf, hentries, List.map_map]
  dsimp only
  clear hentries h
  induction hsigned with
  | nil => exact .nil
  | @cons call entry calls entries hover hrest ih =>
    refine .cons ?_ (ih fun c hc => hlists c (List.mem_cons_of_mem _ hc))
    obtain ⟨trustKey, hlisted⟩ := hlists call List.mem_cons_self
    exact (Receipt.accepts_signedBy (Receipt.payloadB64_ne_nil hpayload)).mpr ⟨entry, trustKey, rfl,
      signedBy_of_signedOver hpayload hover hlisted, fun t ht => hlisted.window t (hcreated t ht)⟩

/-- The codes that are about the receipt's own fields and its policy. -/
def ownCodes : List String :=
  ["POLICY_INVALID", "RELEASE_POLICY_REQUIRED", "MIN_SIGNATURES_INVALID", "RELEASE_POLICY_TOO_WEAK",
    "SCHEMA_VERSION_INVALID", "CREATED_AT_INVALID", "RELEASE_CLASS_INVALID",
    "CHAIN_SEQUENCE_INVALID", "PREVIOUS_HASH_INVALID", "REQUIRED_ROLES_INVALID",
    "REQUIRED_ROLE_MISSING", "MIN_SIGNATURES_NOT_MET", "CLASS_A_POLICY_TOO_WEAK"]

/-- Every issue is about the receipt's own fields and its policy. -/
def AboutOwn (issues : List ReceiptVerificationIssue) : Prop := ∀ i ∈ issues, i.code ∈ ownCodes

theorem aboutOwn_append {a b : List ReceiptVerificationIssue} :
    AboutOwn (a ++ b) ↔ AboutOwn a ∧ AboutOwn b := List.forall_mem_append

theorem aboutOwn_issueIf {p : Prop} [Decidable p] {code : String} {message : PyStr}
    (h : p → code ∈ ownCodes) : AboutOwn (Receipt.issueIf p (Receipt.errorIssue code message)) := by
  unfold AboutOwn Receipt.issueIf
  by_cases hp : p
  · rw [if_pos hp, List.forall_mem_singleton]
    exact h hp
  · rw [if_neg hp]
    exact List.forall_mem_nil _

theorem aboutOwn_policyIssues (receipt : Dict) (strict : Bool) :
    AboutOwn (Receipt.policyIssues receipt strict) := by
  unfold Receipt.policyIssues
  simp only [aboutOwn_append]
  refine ⟨⟨⟨?_, ?_⟩, ?_⟩, ?_⟩
  all_goals exact aboutOwn_issueIf fun _ => by decide

theorem aboutOwn_checkCreatedAt {v : Json} {createdAt : Option Instant}
    {issues : List ReceiptVerificationIssue}
    (h : Receipt.checkCreatedAt env v = .ok (createdAt, issues)) : AboutOwn issues := by
  obtain ⟨_, _, -, -, rfl⟩ | ⟨-, message, rfl⟩ := Receipt.checkCreatedAt_cases h
  · exact List.forall_mem_nil _
  · exact List.forall_mem_singleton.mpr (show "CREATED_AT_INVALID" ∈ ownCodes by decide)

/-- With the right hash and some signature, the field checks object to the receipt's own fields
only. -/
theorem aboutOwn_fieldIssues {createdAtIssues : List ReceiptVerificationIssue} {known : Bool}
    {hash : PyStr} (hcreated : AboutOwn createdAtIssues)
    (hhash : (Receipt.chainOf receipt).get (lit "receipt_hash") = .str hash)
    (hsignatures : Receipt.signaturesOf receipt ≠ []) :
    AboutOwn (Receipt.fieldIssues receipt createdAtIssues known hash) := by
  unfold Receipt.fieldIssues
  simp only [aboutOwn_append]
  refine ⟨⟨⟨⟨⟨⟨⟨⟨?_, hcreated⟩, ?_⟩, ?_⟩, ?_⟩, ?_⟩, ?_⟩, ?_⟩, ?_⟩
  case refine_5 => exact aboutOwn_issueIf fun h => absurd hhash h
  case refine_6 => exact aboutOwn_issueIf fun h => absurd h hsignatures
  all_goals exact aboutOwn_issueIf fun _ => by decide

theorem aboutOwn_finish {findings : Findings} {tally : Tally ReceiptVerificationIssue PyStr PyStr}
    (h : AboutOwn tally.issues) : AboutOwn (Receipt.finish receipt findings tally).issues := by
  unfold Receipt.finish
  simp only [aboutOwn_append]
  refine ⟨⟨⟨h, ?_⟩, ?_⟩, ?_⟩
  · intro i hi
    obtain ⟨role, -, hi⟩ := List.mem_flatMap.mp hi
    exact aboutOwn_issueIf (fun _ => by decide) i hi
  all_goals exact aboutOwn_issueIf fun _ => by decide

/-- The receipt's own fields satisfy the verifier, with a policy that asks for the roles and the
number of signatures. -/
structure OwnFields (receipt : Dict) (requiredRoles : List PyStr) (minSignatures : ℤ) : Prop where
  schemaVersion : receipt.get (lit "schema_version") = .str (lit "sentinel.receipt.v1")
  createdAt : ∃ t, ReadsCreatedAt receipt t
  releaseClass : ∃ class_ ∈ [lit "A", lit "B", lit "C"],
    receipt.get (lit "release_class") = .str class_ ∧
      (if class_ = lit "A" then 2 else 1) ≤ minSignatures
  sequence : ∃ n, (Receipt.chainOf receipt).get (lit "sequence") = .int n
  previousHash : Receipt.isSha256UrnStr ((Receipt.chainOf receipt).get (lit "previous_hash")) = true
  policy : ∃ policy : Dict, receipt.get (lit "policy") = policy.toJson ∧
    policy.get (lit "min_signatures") = .int minSignatures ∧ 0 ≤ minSignatures ∧
    (policy.get? (lit "required_roles")).getD (.arr []) = .arr (requiredRoles.map .str)

/-- The verifier's result on a receipt that was signed by the calls. -/
structure Agrees (draft : Dict) (calls : List SigningCall) (res : ReceiptVerificationResult) :
    Prop where
  validSignatures : res.validSignatures = calls.length
  roles_nodup : res.matchedRoles.Nodup
  matchedRoles : ∀ role, role ∈ res.matchedRoles ↔ ∃ call ∈ calls, call.signerRole = role
  issues : ∀ i ∈ res.issues, i.code ∈ ownCodes
  verified : ∀ requiredRoles minSignatures, OwnFields draft requiredRoles minSignatures →
    (∀ role ∈ requiredRoles, ∃ call ∈ calls, call.signerRole = role) →
    minSignatures ≤ calls.length → res.status = .rcVerified

/-- What the checks before the signatures find on a receipt of a run. -/
theorem findings_of_progress (h : Progress env draft calls receipt) (hne : calls ≠ [])
    {strict : Bool} {class_ : PyStr} (hclass : receipt.get (lit "release_class") = .str class_)
    (hyears : ¬CreatedAtLeavesYears receipt)
    (hpayload : ∃ payload, Receipt.payloadB64 env draft = .ok payload) :
    ∃ findings, Receipt.checkFields env receipt (Receipt.policyIssues receipt strict) = .ok findings ∧
      (∀ t, findings.createdAt = some t ↔ ReadsCreatedAt receipt t) ∧
      Receipt.payloadB64 env draft = .ok findings.expectedPayloadB64 ∧
      (Receipt.chainOf receipt).get (lit "receipt_hash") = .str findings.expectedHash ∧
      Receipt.signaturesOf receipt ≠ [] ∧ AboutOwn findings.issues := by
  obtain ⟨hash, hhash, hset⟩ := h.hash hne
  obtain ⟨payload, hpayload⟩ := hpayload
  obtain ⟨createdAt, createdAtIssues, hcreated⟩ :=
    (Receipt.checkCreatedAt_returns_iff env receipt).mpr hyears
  obtain ⟨entries, hentries, hsigned⟩ := h.entries
  have hsignatures : Receipt.signaturesOf receipt ≠ [] := by
    rw [Receipt.signaturesOf, hentries]
    intro hnil
    rw [List.map_eq_nil_iff.mp hnil] at hsigned
    exact hne (List.forall₂_nil_right_iff.mp hsigned)
  refine ⟨⟨createdAt, hash, payload, Receipt.policyIssues receipt strict ++ Receipt.fieldIssues receipt
      createdAtIssues ([lit "A", lit "B", lit "C"].contains class_) hash⟩,
    Receipt.checkFields_eq_ok.mpr ⟨createdAtIssues, _, hcreated, ?_, ?_, ?_, rfl⟩,
    Receipt.checkCreatedAt_reads hcreated, hpayload, hset, hsignatures,
    aboutOwn_append.mpr ⟨aboutOwn_policyIssues _ _,
      aboutOwn_fieldIssues (aboutOwn_checkCreatedAt hcreated) hset hsignatures⟩⟩
  · rw [hclass]
    rfl
  · rw [h.receiptHash_eq, hhash]
  · rw [h.payloadB64_eq, hpayload]

/-- A receipt of a run has the own fields of the draft. -/
theorem Progress.ownFields (h : Progress env draft calls receipt) {requiredRoles : List PyStr}
    {minSignatures : ℤ} (hown : OwnFields draft requiredRoles minSignatures) :
    OwnFields receipt requiredRoles minSignatures := by
  have hget : ∀ name ∈ Receipt.signedFields, receipt.get (lit name) = draft.get (lit name) := by
    intro name hname
    have hother : ∀ n ∈ Receipt.signedFields, lit n ≠ lit "chain" ∧ lit n ≠ lit "signatures" := by
      decide
    exact get_eq_of_get? (h.fields _ (hother name hname).1 (hother name hname).2)
  have hchain : ∀ key, key ≠ lit "receipt_hash" →
      (Receipt.chainOf receipt).get key = (Receipt.chainOf draft).get key :=
    fun key hkey => get_eq_of_get? (h.chain key hkey)
  obtain ⟨hschema, hcreated, hclass, hsequence, hprevious, hpolicy⟩ := hown
  refine ⟨?_, ?_, ?_, ?_, ?_, ?_⟩
  · rwa [hget _ (by decide)]
  · unfold ReadsCreatedAt
    rwa [hget _ (by decide)]
  · rwa [hget _ (by decide)]
  · rwa [hchain _ (by decide)]
  · rwa [hchain _ (by decide)]
  · rwa [hget _ (by decide)]

/-- With its own fields in order, the checks before the signatures object to nothing. -/
theorem clean_findings {strict : Bool} {findings : Findings} {requiredRoles : List PyStr}
    {minSignatures : ℤ}
    (hf : Receipt.checkFields env receipt (Receipt.policyIssues receipt strict) = .ok findings)
    (hreads : ∀ t, findings.createdAt = some t ↔ ReadsCreatedAt receipt t)
    (hhash : (Receipt.chainOf receipt).get (lit "receipt_hash") = .str findings.expectedHash)
    (hsignatures : Receipt.signaturesOf receipt ≠ [])
    (hown : OwnFields receipt requiredRoles minSignatures) : Receipt.Clean findings.issues := by
  obtain ⟨createdAtIssues, known, hc, hk, -, -, hissues⟩ := Receipt.checkFields_eq_ok.mp hf
  obtain ⟨policy, hpolicy, hmin, h0, hroles⟩ := hown.policy
  obtain ⟨class_, hmem, hclass, hstrength⟩ := hown.releaseClass
  obtain ⟨t, text, htext, hz, hparse⟩ := hown.createdAt
  rw [hissues, Receipt.clean_append, Receipt.clean_policyIssues, Receipt.clean_fieldIssues,
    Receipt.policyOf_of_get hpolicy]
  refine ⟨⟨policy, minSignatures, hpolicy, hmin, h0, fun hb => ?_⟩, hown.schemaVersion, ?_, ?_,
    hown.sequence, hown.previousHash, hhash, hsignatures,
    ⟨requiredRoles, Receipt.requiredRolesOf?_eq_some.mpr hroles⟩, ?_⟩
  · split_ifs at hstrength <;> omega
  · have hcreated := (hreads t).mpr ⟨text, htext, hz, hparse⟩
    exact (Receipt.clean_checkCreatedAt hc).mpr ⟨text, t, htext, hz, hparse, hcreated⟩
  · exact (Receipt.inSet_eq_ok hk).mpr ⟨class_, hmem, hclass⟩
  · rw [Receipt.minSignaturesOf, Receipt.minSignaturesOf?_eq_some.mpr ⟨hmin, h0⟩]
    exact h0

/-- The tally of a run: every call counts, and there is no issue. -/
theorem tally_of_calls (hnodup : (calls.map SigningCall.keyId).Nodup) (findings : Findings) :
    (Receipt.tallyOf findings ((pairsOf calls).map .ok)).issues = findings.issues ∧
      (Receipt.tallyOf findings ((pairsOf calls).map .ok)).count = calls.length ∧
      (Receipt.tallyOf findings ((pairsOf calls).map .ok)).roles.Nodup ∧
      ∀ role, role ∈ (Receipt.tallyOf findings ((pairsOf calls).map .ok)).roles ↔
        ∃ call ∈ calls, call.signerRole = role := by
  have hkeys : (pairsOf calls).map Prod.fst = calls.map SigningCall.keyId := by
    unfold pairsOf
    rw [List.map_map]
    rfl
  rw [← hkeys] at hnodup
  have hconsistent : Tally.Consistent (pairsOf calls) := fun p hp q hq hpq =>
    congrArg Prod.snd (List.inj_on_of_nodup_map hnodup hp hq hpq)
  have hcovers : (Receipt.tallyOf findings ((pairsOf calls).map .ok)).Covers (pairsOf calls) := by
    have h := (Tally.covers_start findings.issues :
      (Tally.start findings.issues : Tally ReceiptVerificationIssue PyStr PyStr).Covers []).foldl
        Receipt.duplicateIssue (show Tally.Consistent ([] ++ Tally.accepted ((pairsOf calls).map .ok)) by
          rw [Tally.accepted_map_ok]
          exact hconsistent)
    rwa [Tally.accepted_map_ok, List.nil_append] at h
  refine ⟨Tally.issues_foldl_ok hnodup, ?_, hcovers.roles_nodup, fun role => ?_⟩
  · rw [Receipt.tallyOf, Tally.count_eq_card, Tally.accepted_map_ok,
      List.toFinset_card_of_nodup hnodup, hkeys, List.length_map]
  · rw [hcovers.mem_roles]
    unfold pairsOf
    simp only [List.mem_map, Prod.mk.injEq]
    constructor
    · rintro ⟨_, c, hc, -, hrole⟩
      exact ⟨c, hc, hrole⟩
    · rintro ⟨c, hc, hrole⟩
      exact ⟨_, c, hc, rfl, hrole⟩

/-- **Signer and verifier agree over whole signing runs.** -/
theorem verifyReceipt_of_run (hrun : SigningRun env draft calls signed) (hne : calls ≠ [])
    (hdraft : draft.get (lit "signatures") = .arr []) {class_ : PyStr}
    (hclass : draft.get (lit "release_class") = .str class_)
    (hlists : ∀ call ∈ calls, ∃ trustKey, Lists registry draft call trustKey) :
    ∃ res, verifyReceipt env signed registry = .ok res ∧ Agrees draft calls res := by
  have hprogress := progress_of_run hrun hdraft
  have hclass' : signed.get (lit "release_class") = .str class_ := by
    rw [get_eq_of_get? (hprogress.fields _ (by decide) (by decide)), hclass]
  have hsame : ∀ t, ReadsCreatedAt signed t ↔ ReadsCreatedAt draft t := fun t => by
    unfold ReadsCreatedAt
    rw [get_eq_of_get? (hprogress.fields _ (by decide) (by decide))]
  obtain ⟨call, hcall⟩ := List.exists_mem_of_ne_nil calls hne
  obtain ⟨trustKey, hlisted⟩ := hlists call hcall
  have hyears : ¬CreatedAtLeavesYears signed := by
    unfold CreatedAtLeavesYears
    rw [get_eq_of_get? (hprogress.fields _ (by decide) (by decide))]
    exact hlisted.inYears
  have hpayload : ∃ payload, Receipt.payloadB64 env draft = .ok payload := by
    obtain ⟨entries, -, hsigned⟩ := hprogress.entries
    obtain ⟨entry, -, hover⟩ := exists_of_forall₂ hsigned hcall
    obtain ⟨payload, -, -, hpayload, -⟩ := hover.verifies
    exact ⟨payload, hpayload⟩
  obtain ⟨findings, hf, hreads, hexpected, hhash, hsignatures, habout⟩ :=
    findings_of_progress hprogress hne hclass' hyears hpayload
  have hs : (signed.get (lit "release_class")).inSet [lit "B", lit "C"] =
      .ok ([lit "B", lit "C"].contains class_) := by
    rw [hclass']
    rfl
  have hvs := verdicts_of_progress hprogress hlists
    (fun t ht => (hsame t).mp ((hreads t).mp ht)) hexpected
  refine ⟨_, (Receipt.verifyReceipt_eq_ok hlisted.fields_ne_nil).mpr
    ⟨_, findings, _, hs, hf, hvs, rfl⟩, ?_⟩
  obtain ⟨hissues, hcount, hrolesNodup, hroles⟩ := tally_of_calls hprogress.keys_nodup findings
  refine ⟨hcount, ?_, fun role => ?_, aboutOwn_finish (hissues ▸ habout), ?_⟩
  · exact (List.perm_insertionSort _ _).nodup_iff.mpr hrolesNodup
  · exact (List.mem_insertionSort _).trans (hroles role)
  · intro requiredRoles minSignatures hown hrequired hmin
    have hown' := hprogress.ownFields hown
    obtain ⟨policy, hpolicy, hminimum, h0, hrequiredOf⟩ := hown'.policy
    obtain ⟨class', -, hclass'', hstrength⟩ := hown'.releaseClass
    have hminOf : Receipt.minSignaturesOf (Receipt.policyOf signed) = minSignatures := by
      rw [Receipt.policyOf_of_get hpolicy, Receipt.minSignaturesOf,
        Receipt.minSignaturesOf?_eq_some.mpr ⟨hminimum, h0⟩]
      rfl
    rw [Receipt.rcVerified_iff_clean, Receipt.clean_finish, hissues, hcount, hminOf,
      Receipt.policyOf_of_get hpolicy, Receipt.requiredRolesOf?_eq_some.mpr hrequiredOf]
    refine ⟨clean_findings hf hreads hhash hsignatures hown', fun role hrole => ?_, hmin,
      fun hA => ?_⟩
    · exact (hroles role).mpr (hrequired role hrole)
    · rw [hclass''] at hA
      rwa [if_pos (Json.str.inj hA)] at hstrength

/-! ## A run of two calls -/

def jwkOf (x y : PyStr) : Dict where
  fields := [(lit "kty", .str (lit "EC")), (lit "crv", .str (lit "P-256")), (lit "x", .str x),
    (lit "y", .str y)]
  wf := by rfl

def firstCall : SigningCall where
  keyId := sampleKeyId
  signerRole := lit "legal_officer"
  signer := sampleSigner
  publicJwk := jwkOf (lit "khmN_-z1PR_TLrJt8iHm3C5VHTvS8xR3He1vKPsNUFQ")
    (lit "AHuQo1l4av7bbcj3vyA5MuirP78rYySR1PPxXmtrW4c")

def secondCall : SigningCall where
  keyId := lit "https://v.vault.azure.net/keys/n/2"
  signerRole := lit "auditor"
  signer := signerOf
    (lit "Ok_cgjmyjQ9KFuWu9VqigUvDQnoIis4jAjIG0m3xIxAUjXxCe80WbAI8Irbc6XCOKCwul8Re6N98_9E6gDUBaA")
  publicJwk := jwkOf (lit "WtPcD2XuISKw52Al6o1hwoNaTFPU8ysJeGmVgDqfZXU")
    (lit "tJGIFulhbZIuUL1SxFBmUrRFlSt5bHD6rar1uvtYVrY")

def trustKeyOf (call : SigningCall) : Dict where
  fields := [(lit "status", .str (lit "active")), (lit "alg", .str (lit "ES256")),
    (lit "role", .str call.signerRole), (lit "jwk", call.publicJwk.toJson)]
  wf := by
    refine Json.wellFormed_obj.mpr ⟨?_, ?_⟩
    · change [lit "status", lit "alg", lit "role", lit "jwk"].Nodup
      decide
    · simp [Json.wellFormed, call.publicJwk.toJson_wellFormed]

/-- A registry with the keys of both calls. -/
def samplePublicRegistry : Dict where
  fields := [(firstCall.keyId, (trustKeyOf firstCall).toJson),
    (secondCall.keyId, (trustKeyOf secondCall).toJson)]
  wf := by decide

/-- Whether the answer is honest. -/
def isHonest (call : SigningCall) (prepared : PreparedReceiptSignature)
    (result : ExternalSignatureResult) : Bool :=
  match Receipt.b64urlDecode result.signatureB64url, encodeAscii prepared.signingInput,
    Receipt.loadEs256PublicKey demoEnv call.publicJwk with
  | .ok raw, .ok message, .ok (x, y) => result.signatureB64url = b64urlEncode raw &&
      demoEnv.ecdsaVerify x y (natOfBytes (raw.take 32)) (natOfBytes (raw.drop 32)) message
  | _, _, _ => false

theorem honest_of_isHonest {prepared : PreparedReceiptSignature} {result : ExternalSignatureResult}
    (h : isHonest call prepared result = true) : Honest demoEnv call prepared result := by
  unfold isHonest at h
  split at h
  · next raw message x y _ hmessage hkey =>
    rw [Bool.and_eq_true, decide_eq_true_eq] at h
    exact ⟨raw, message, x, y, h.1, hmessage, hkey, h.2⟩
  · cases h

/-- A call, and whether its answer was honest. -/
def perform (receipt : Dict) (call : SigningCall) : Except PyExc (Dict × Bool) := do
  let prepared ← prepareReceiptSignature demoEnv receipt call.keyId call.signerRole
  let result ← call.signer prepared.request
  let signed ← signReceiptWithExternalDigestSigner demoEnv receipt call.keyId call.signerRole call.signer
  return (signed, isHonest call prepared result)

/-- An honest call takes a run on. -/
theorem run_of_perform (before : SigningRun demoEnv draft calls receipt)
    (h : perform receipt call = .ok (signed, true)) :
    SigningRun demoEnv draft (calls ++ [call]) signed := by
  obtain ⟨prepared, hprepare, h⟩ := bind_eq_ok.mp h
  obtain ⟨result, hresult, h⟩ := bind_eq_ok.mp h
  obtain ⟨signed, hsigned, h⟩ := bind_eq_ok.mp h
  obtain ⟨rfl, hhonest⟩ := Prod.mk.inj (Except.ok.inj h)
  refine .sign before hsigned fun prepared' result' hprepare' hresult' => ?_
  obtain rfl := Except.ok.inj (hprepare.symm.trans hprepare')
  obtain rfl := Except.ok.inj (hresult.symm.trans hresult')
  exact honest_of_isHonest hhonest

/-- Both calls, one after the other. -/
theorem exists_run : ∃ signed, SigningRun demoEnv sampleDraft [firstCall, secondCall] signed := by
  obtain ⟨_, h, rfl⟩ : ∃ honest, (do
      let (once, first) ← perform sampleDraft firstCall
      let (_, second) ← perform once secondCall
      return first && second) = .ok honest ∧ honest = true := exists_of_map (by decide +kernel)
  obtain ⟨⟨once, first⟩, honce, h⟩ := bind_eq_ok.mp h
  obtain ⟨⟨twice, second⟩, htwice, h⟩ := bind_eq_ok.mp h
  obtain ⟨rfl, rfl⟩ := (Bool.and_eq_true _ _).mp (Except.ok.inj h)
  exact ⟨twice, run_of_perform (run_of_perform .start honce) htwice⟩

theorem sampleDraft_inYears : ¬CreatedAtLeavesYears sampleDraft := by
  obtain ⟨⟨createdAt, issues⟩, h⟩ := exists_ok_of_isSome (show (Receipt.checkCreatedAt demoEnv
    (sampleDraft.get (lit "created_at"))).toOption.isSome = true by decide +kernel)
  exact (Receipt.checkCreatedAt_returns_iff demoEnv sampleDraft).mp ⟨createdAt, issues, h⟩

theorem lists_trustKeyOf (hcall : samplePublicRegistry.get call.keyId = (trustKeyOf call).toJson) :
    Lists samplePublicRegistry sampleDraft call (trustKeyOf call) := by
  refine ⟨hcall, rfl, rfl, rfl, rfl, sampleDraft_inYears, fun t _ => ⟨?_, ?_⟩⟩
  all_goals
    intro text htext
    cases htext

theorem verifyReceipt_of_run_sample : ∃ signed res,
    verifyReceipt demoEnv signed samplePublicRegistry = .ok res ∧
      Agrees sampleDraft [firstCall, secondCall] res := by
  obtain ⟨signed, hrun⟩ := exists_run
  obtain ⟨res, hres⟩ := verifyReceipt_of_run hrun (by simp) (by decide)
    (show sampleDraft.get (lit "release_class") = .str (lit "B") by decide)
    fun call hcall => ⟨trustKeyOf call, lists_trustKeyOf (by
      rcases List.mem_pair.mp hcall with rfl | rfl <;> decide)⟩
  exact ⟨signed, res, hres⟩

end Sentinel.Signing
