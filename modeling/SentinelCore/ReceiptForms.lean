import SentinelCore.ReceiptRule
import SentinelCore.SignedContent
import SentinelCore.Py.JsonSame

/-!
# Receipts in other forms

`verifyReceipt` looks at a receipt through its members only, so receipts that mean the same get the same answer
from every trust registry, or the same exception (`verifyReceipt_congr`). A receipt can therefore be written
with any `ensure_ascii`, `sort_keys`, `indent` and separators of `json.dumps` and read again without any change
for its verification, as long as its strings and floats are read back (`verifyReceipt_rewritten`).
-/

namespace Sentinel.Receipt

open Py Lib

variable {env : Env} {receipt receipt' : Dict}

/-! ## Members -/

theorem intOf?_congr {v w : Json} (h : v.meaning = w.meaning) : intOf? v = intOf? w := by
  rcases Json.eq_or_container h with rfl | ⟨items, items', rfl, rfl⟩ | ⟨fields, fields', rfl, rfl⟩
  · rfl
  · rfl
  · rfl

theorem isSha256UrnStr_congr {v w : Json} (h : v.meaning = w.meaning) : isSha256UrnStr v = isSha256UrnStr w := by
  rcases Json.eq_or_container h with rfl | ⟨items, items', rfl, rfl⟩ | ⟨fields, fields', rfl, rfl⟩
  · rfl
  · rfl
  · rfl

theorem checkCreatedAt_congr {v w : Json} (h : v.meaning = w.meaning) :
    checkCreatedAt env v = checkCreatedAt env w := by
  rcases Json.eq_or_container h with rfl | ⟨items, items', rfl, rfl⟩ | ⟨fields, fields', rfl, rfl⟩
  · rfl
  · rfl
  · rfl

section Congr

variable (h : receipt.toJson.meaning = receipt'.toJson.meaning)

include h

theorem chainOf_congr : (chainOf receipt).toJson.meaning = (chainOf receipt').toJson.meaning :=
  Json.dictOrEmpty_congr (receipt.get_wellFormed _) (receipt'.get_wellFormed _) (Dict.get_of_meaning h _)

theorem policyOf_congr : (policyOf receipt).toJson.meaning = (policyOf receipt').toJson.meaning :=
  Json.dictOrEmpty_congr (receipt.get_wellFormed _) (receipt'.get_wellFormed _) (Dict.get_of_meaning h _)

theorem buildUnsignedReceiptPayload_congr :
    buildUnsignedReceiptPayload env receipt = buildUnsignedReceiptPayload env receipt' := by
  unfold buildUnsignedReceiptPayload canonicalizeJson
  refine Json.dumps_of_meaning (unsignedReceipt_wellFormed _) (unsignedReceipt_wellFormed _) ?_ _
  refine unsignedReceipt_meaning_eq_iff.mpr ⟨fun name _ => Dict.get_of_meaning h _, fun name _ => ?_⟩
  exact Dict.get_of_meaning (chainOf_congr h) _

/-- Both lists of signatures are empty, or they go along with each other. -/
theorem signaturesOf_congr :
    (signaturesOf receipt).map Json.meaning = (signaturesOf receipt').map Json.meaning := by
  have hget := Dict.get_of_meaning h (lit "signatures")
  unfold signaturesOf
  rcases Json.eq_or_container hget with heq | ⟨items, items', hv, hw⟩ | ⟨fields, fields', hv, hw⟩
  · rw [heq]
  · rw [hv, hw] at hget ⊢
    exact Json.map_meaning hget
  · rw [hv, hw]

end Congr

/-! ## The policy -/

section Policy

variable {policy policy' : Dict} (h : policy.toJson.meaning = policy'.toJson.meaning)

include h

theorem minSignaturesOf?_congr : minSignaturesOf? policy = minSignaturesOf? policy' := by
  unfold minSignaturesOf?
  rw [intOf?_congr (Dict.get_of_meaning h _)]

theorem requiredRolesOf?_congr : requiredRolesOf? policy = requiredRolesOf? policy' := by
  have hget : ((policy.get? (lit "required_roles")).getD (.arr [])).meaning =
      ((policy'.get? (lit "required_roles")).getD (.arr [])).meaning := by
    have hdefault : ∀ o : Option Json, (o.getD (.arr [])).meaning = (o.map Json.meaning).getD (Json.arr []).meaning := by
      intro o
      cases o <;> rfl
    rw [hdefault, hdefault, Dict.get?_of_meaning h]
  unfold requiredRolesOf?
  rcases Json.eq_or_container hget with heq | ⟨items, items', hv, hw⟩ | ⟨fields, fields', hv, hw⟩
  · rw [heq]
  · rw [hv, hw] at hget ⊢
    exact Json.strItems?_congr (Json.map_meaning hget)
  · rw [hv, hw]

end Policy

/-! ## Signatures -/

section Signatures

variable {signature signature' : Dict} (h : signature.toJson.meaning = signature'.toJson.meaning)

include h

theorem signatureMetadata_congr : signatureMetadata signature = signatureMetadata signature' := by
  have hstr := fun key => Json.str?_congr (Dict.get_of_meaning h key)
  have hview : ∀ d : Dict, signatureMetadata d = (do
      let kid ← (d.get (lit "kid")).str?
      let signerRole ← (d.get (lit "signer_role")).str?
      if d.get (lit "alg") = .str (lit "ES256") then some (kid, signerRole) else none) := by
    intro d
    unfold signatureMetadata
    cases d.get (lit "kid") <;> cases d.get (lit "signer_role") <;> rfl
  rw [hview, hview, hstr, hstr]
  simp only [Dict.get_str_of_meaning h]

theorem signatureParts_congr : signatureParts signature = signatureParts signature' := by
  have hstr := fun key => Json.nonEmptyStr?_congr (Dict.get_of_meaning h key)
  unfold signatureParts
  rw [hstr, hstr, hstr]

end Signatures

theorem verifySignature_congr {entry entry' : Json} (hwf : entry.wellFormed = true)
    (hwf' : entry'.wellFormed = true) (h : entry.meaning = entry'.meaning) (registry : Dict)
    (createdAt : Option Instant) (payload : PyStr) :
    verifySignature env registry createdAt payload entry =
      verifySignature env registry createdAt payload entry' := by
  unfold verifySignature
  rcases Json.toDict?_congr hwf hwf' h with ⟨hnone, hnone'⟩ | ⟨d, e, rfl, rfl, hde⟩
  · rw [hnone, hnone']
  · rw [Dict.toDict?_toJson, Dict.toDict?_toJson]
    simp only [Check.ofOption, pure_bind, signatureMetadata_congr hde, signatureParts_congr hde]

variable (env) in
/-- Entries that mean the same are tallied the same. -/
theorem tally_congr {entries entries' : List Json} (hwf : ∀ v ∈ entries, v.wellFormed = true)
    (hwf' : ∀ v ∈ entries', v.wellFormed = true) (h : entries.map Json.meaning = entries'.map Json.meaning)
    (registry : Dict) (createdAt : Option Instant) (payload : PyStr)
    (tally : Tally ReceiptVerificationIssue PyStr PyStr) :
    entries.foldlM (Tally.step duplicateIssue (verifySignature env registry createdAt payload)) tally =
      entries'.foldlM (Tally.step duplicateIssue (verifySignature env registry createdAt payload)) tally := by
  induction entries generalizing entries' tally with
  | nil =>
    obtain rfl := List.map_eq_nil_iff.mp h.symm
    rfl
  | cons v entries ih =>
    cases entries' with
    | nil => cases h
    | cons w entries' =>
      obtain ⟨hvw, hrest⟩ := List.cons.inj h
      obtain ⟨hv, hvs⟩ := List.forall_mem_cons.mp hwf
      obtain ⟨hw, hws⟩ := List.forall_mem_cons.mp hwf'
      have hstep : ∀ t : Tally ReceiptVerificationIssue PyStr PyStr,
          Tally.step duplicateIssue (verifySignature env registry createdAt payload) t v =
            Tally.step duplicateIssue (verifySignature env registry createdAt payload) t w := by
        intro t
        unfold Tally.step
        rw [verifySignature_congr hv hw hvw]
      rw [List.foldlM_cons, List.foldlM_cons, hstep]
      exact congrArg _ (funext fun t => ih hvs hws hrest t)

/-! ## The whole receipt -/

theorem signaturesOf_wellFormed (receipt : Dict) : ∀ v ∈ signaturesOf receipt, v.wellFormed = true := by
  intro v hv
  have hwf := receipt.get_wellFormed (lit "signatures")
  unfold signaturesOf at hv
  cases hget : receipt.get (lit "signatures") with
  | arr items =>
    rw [hget] at hv hwf
    exact Json.wellFormed_arr.mp hwf v hv
  | _ =>
    rw [hget] at hv
    cases hv

section Congr

variable (h : receipt.toJson.meaning = receipt'.toJson.meaning)

include h

theorem policyIssues_congr (strict : Bool) : policyIssues receipt strict = policyIssues receipt' strict := by
  have hpolicy := policyOf_congr h
  have hobject := Json.isSome_toDict?_congr (receipt.get_wellFormed (lit "policy"))
    (receipt'.get_wellFormed (lit "policy")) (Dict.get_of_meaning h _)
  have hmissing : (policyOf receipt).get? (lit "min_signatures") = none ↔
      (policyOf receipt').get? (lit "min_signatures") = none := by
    rw [← Option.map_eq_none_iff (f := Json.meaning), Dict.get?_of_meaning hpolicy, Option.map_eq_none_iff]
  unfold policyIssues minSignaturesOf
  simp only [hobject, hmissing, minSignaturesOf?_congr hpolicy]

theorem fieldIssues_congr (createdAtIssues : List ReceiptVerificationIssue) (classKnown : Bool)
    (expectedHash : PyStr) : fieldIssues receipt createdAtIssues classKnown expectedHash =
      fieldIssues receipt' createdAtIssues classKnown expectedHash := by
  have hchain := chainOf_congr h
  have hpolicy := policyOf_congr h
  have hnone : signaturesOf receipt = [] ↔ signaturesOf receipt' = [] := by
    rw [← List.map_eq_nil_iff (f := Json.meaning), signaturesOf_congr h, List.map_eq_nil_iff]
  unfold fieldIssues minSignaturesOf
  simp only [ne_eq, Dict.get_str_of_meaning h, Dict.get_str_of_meaning hchain,
    intOf?_congr (Dict.get_of_meaning hchain _), isSha256UrnStr_congr (Dict.get_of_meaning hchain _), hnone,
    requiredRolesOf?_congr hpolicy, minSignaturesOf?_congr hpolicy]

theorem checkFields_congr (issues : List ReceiptVerificationIssue) :
    checkFields env receipt issues = checkFields env receipt' issues := by
  unfold checkFields receiptHash payloadB64
  rw [checkCreatedAt_congr (Dict.get_of_meaning h _), Json.inSet_congr (Dict.get_of_meaning h _),
    buildUnsignedReceiptPayload_congr h]
  simp only [fieldIssues_congr h]

theorem finish_congr (findings : Findings) (tally : Tally ReceiptVerificationIssue PyStr PyStr) :
    finish receipt findings tally = finish receipt' findings tally := by
  have hpolicy := policyOf_congr h
  unfold finish minSignaturesOf
  simp only [minSignaturesOf?_congr hpolicy, requiredRolesOf?_congr hpolicy, Dict.get_str_of_meaning h]

/-- Receipts that mean the same are verified the same. -/
theorem verifyReceipt_congr (registry : Dict) : verifyReceipt env receipt registry = verifyReceipt env receipt' registry := by
  have htally := fun findings : Findings => tally_congr env (signaturesOf_wellFormed receipt)
    (signaturesOf_wellFormed receipt') (signaturesOf_congr h) registry findings.createdAt
    findings.expectedPayloadB64 (Tally.start findings.issues)
  unfold verifyReceipt emptyRegistryResult minSignaturesOf
  rw [Json.inSet_congr (Dict.get_of_meaning h _)]
  simp only [policyIssues_congr h, minSignaturesOf?_congr (policyOf_congr h), checkFields_congr h, htally,
    finish_congr h]

end Congr

/-- **A receipt can be written with any arguments of `json.dumps`**: what is read from that text is verified as
the receipt itself, by every trust registry. -/
theorem verifyReceipt_rewritten {f : JsonFormat} (hkeeps : env.Keeps f receipt.toJson)
    (hdepth : receipt.toJson.depth ≤ env.maxDumpDepth) {w : PyStr} (hw : skipSpace w = []) :
    ∃ (text : PyStr) (receipt' : Dict), env.dumpsWith f receipt.toJson = .ok text ∧
      loads env.toRuntime (text ++ w) = .ok receipt'.toJson ∧
      ∀ registry, verifyReceipt env receipt' registry = verifyReceipt env receipt registry := by
  have hlimits := (Runtime.checkLimits_ok env.toRuntime).mpr ⟨hdepth, hkeeps.intsPrintable⟩
  let receipt' : Dict :=
    ⟨f.order (Json.orderedFields f receipt.fields), Json.wellFormed_ordered (f := f) receipt.toJson_wellFormed⟩
  have hsame : receipt'.toJson.meaning = receipt.toJson.meaning :=
    Json.meaning_ordered (f := f) receipt.toJson_wellFormed
  exact ⟨_, receipt', Runtime.dumpsWith_eq_ok.mpr ⟨hlimits, rfl⟩,
    loads_render hkeeps (hdepth.trans env.maxDumpDepth_le) hw,
    fun registry => verifyReceipt_congr hsame registry⟩

/-- The strings of the signed receipt can be encoded, and there is no float in it. -/
theorem sampleReceipt_keeps : demoEnv.Keeps (.ofArgs true true (some 2)) sampleReceipt.toJson := by
  have hencodable : isEncodable sampleReceipt.toJson.text = true := by decide +kernel
  have hunsigned : ∀ hash, (sampleUnsigned hash).toJson.Atoms (fun _ => True) demoEnv.ReadsFloat := by
    intro hash
    refine Dict.atoms_set ?_ _ trivial ?_
    · simp [Dict.toJson, sampleBase, Json.Atoms, Json.AtomsItems, Json.AtomsFields]
    · simp [sampleChain, Json.Atoms, Json.AtomsFields]
  have hfloats : sampleReceipt.toJson.Atoms (fun _ => True) demoEnv.ReadsFloat := by
    refine Dict.atoms_set (hunsigned _) _ trivial ?_
    simp [sampleSignature, Json.Atoms, Json.AtomsItems, Json.AtomsFields]
  refine ⟨isSeparated_ofArgs _ _ _, sampleReceipt.toJson_wellFormed, by decide +kernel, ?_⟩
  exact ((Json.atoms_of_encodable hencodable).and _ hfloats).mono
    (fun s hs => JsonFormat.separable_of_encodable _ hs.1) fun _ hq => hq.2

theorem verifyReceipt_rewritten_sample : ∃ (text : PyStr) (receipt' : Dict),
    demoEnv.dumpsWith (.ofArgs true true (some 2)) sampleReceipt.toJson = .ok text ∧
      loads demoEnv.toRuntime (text ++ lit "\n") = .ok receipt'.toJson ∧
      ∀ registry, verifyReceipt demoEnv receipt' registry = verifyReceipt demoEnv sampleReceipt registry :=
  verifyReceipt_rewritten sampleReceipt_keeps (by decide +kernel) rfl

end Sentinel.Receipt
