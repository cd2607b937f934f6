import SentinelCore.ReceiptGuarantees
import SentinelCore.Lib.TallyOrder

/-!
# The order of the signatures

The fields that are checked before the signatures, and the payload the signatures are for, do not
include the list of signatures (`checkFields_reordered`). The body of the loop does not see what was
counted before, so it comes to the same verdicts in another order (`verdicts_reordered`), and the tally
over them is one of the same contents (`Tally.foldl_perm`).
-/

namespace Sentinel.Receipt

open Py Lib

variable {env : Env} {receipt receipt' registry : Dict}

/-- The receipts differ in the order of the signatures only. -/
structure Reordered (receipt receipt' : Dict) : Prop where
  fields : ∀ key, key ≠ lit "signatures" → receipt'.get? key = receipt.get? key
  entries : ∃ entries entries', receipt.get (lit "signatures") = .arr entries ∧
    receipt'.get (lit "signatures") = .arr entries' ∧ entries.Perm entries'

namespace Reordered

variable (h : Reordered receipt receipt')

include h

theorem get_eq {key : PyStr} (hkey : key ≠ lit "signatures") : receipt'.get key = receipt.get key := by
  rw [Dict.get, h.fields key hkey]
  rfl

theorem signaturesOf_perm : (signaturesOf receipt).Perm (signaturesOf receipt') := by
  obtain ⟨entries, entries', he, he', hperm⟩ := h.entries
  rw [signaturesOf, signaturesOf, he, he']
  exact hperm

theorem policyOf_eq : policyOf receipt' = policyOf receipt := by
  rw [policyOf, h.get_eq (by decide)]
  rfl

theorem chainOf_eq : chainOf receipt' = chainOf receipt := by
  rw [chainOf, h.get_eq (by decide)]
  rfl

theorem policyIssues_eq (strict : Bool) : policyIssues receipt' strict = policyIssues receipt strict := by
  rw [policyIssues, h.policyOf_eq, h.get_eq (by decide)]
  rfl

/-- The list of signatures is not signed. -/
theorem unsignedReceipt_eq : unsignedReceipt receipt' = unsignedReceipt receipt := by
  have hsigned : selectFields receipt' signedFields = selectFields receipt signedFields := by
    refine List.map_congr_left fun name hname => ?_
    have hne : ∀ n ∈ signedFields, lit n ≠ lit "signatures" := by decide
    rw [h.get_eq (hne name hname)]
  rw [unsignedReceipt, hsigned, h.chainOf_eq]
  rfl

theorem fieldIssues_eq (createdAtIssues : List ReceiptVerificationIssue) (classKnown : Bool)
    (expectedHash : PyStr) : fieldIssues receipt' createdAtIssues classKnown expectedHash =
      fieldIssues receipt createdAtIssues classKnown expectedHash := by
  have hnil : signaturesOf receipt' = [] ↔ signaturesOf receipt = [] := by
    rw [← List.length_eq_zero_iff, ← h.signaturesOf_perm.length_eq, List.length_eq_zero_iff]
  have hmissing : ∀ issue, issueIf (signaturesOf receipt' = []) issue =
      issueIf (signaturesOf receipt = []) issue := fun issue => if_congr hnil rfl rfl
  rw [fieldIssues, hmissing, h.chainOf_eq, h.policyOf_eq, h.get_eq (by decide)]
  rfl

theorem checkFields_eq (issues : List ReceiptVerificationIssue) :
    checkFields env receipt' issues = checkFields env receipt issues := by
  have hpayload : buildUnsignedReceiptPayload env receipt' = buildUnsignedReceiptPayload env receipt :=
    congrArg (canonicalizeJson env) h.unsignedReceipt_eq
  simp only [checkFields, receiptHash, payloadB64, hpayload, h.fieldIssues_eq,
    h.get_eq (show lit "created_at" ≠ lit "signatures" by decide),
    h.get_eq (show lit "release_class" ≠ lit "signatures" by decide)]

/-- The verdicts come in the order of the entries. -/
theorem verdicts {findings : Findings} {vs : List (Except ReceiptVerificationIssue (PyStr × PyStr))}
    (hvs : Verdicts env receipt registry findings vs) :
    ∃ vs', Verdicts env receipt' registry findings vs' ∧ vs.Perm vs' := by
  obtain ⟨vs', hvs', hperm⟩ :=
    List.perm_comp_forall₂ h.signaturesOf_perm.symm hvs
  exact ⟨vs', hvs', hperm.symm⟩

end Reordered

/-- A key has one role, whatever the entries say and whether or not the moment is known. -/
theorem consistent_verdicts {findings : Findings}
    {vs : List (Except ReceiptVerificationIssue (PyStr × PyStr))}
    (hvs : Verdicts env receipt registry findings vs)
    (hp : payloadB64 env receipt = .ok findings.expectedPayloadB64) :
    Tally.Consistent (Tally.accepted vs) := by
  have hkey : ∀ kid role, (kid, role) ∈ Tally.accepted vs →
      ∃ trustKey : Dict, registry.get kid = trustKey.toJson ∧ trustKey.get (lit "role") = .str role := by
    intro kid role hmem
    rw [Tally.mem_accepted, mem_of_mapM (mapM_eq_ok.mpr hvs)] at hmem
    obtain ⟨entry, -, haccepts⟩ := hmem
    obtain ⟨signature, trustKey, -, hsigned, -⟩ :=
      (accepts_signedBy (payloadB64_ne_nil hp)).mp haccepts
    exact ⟨trustKey, hsigned.known, hsigned.role⟩
  rintro ⟨kid, role⟩ h ⟨kid', role'⟩ h' hkid
  obtain rfl : kid = kid' := hkid
  obtain ⟨trustKey, hknown, hrole⟩ := hkey kid role h
  obtain ⟨trustKey', hknown', hrole'⟩ := hkey kid role' h'
  obtain rfl := Dict.toJson_injective (hknown.symm.trans hknown')
  exact Json.str.inj (hrole.symm.trans hrole')

/-- The results are the same up to the order of the issues. -/
structure SameResult (res res' : ReceiptVerificationResult) : Prop where
  status : res'.status = res.status
  verified : res'.verified = res.verified
  validSignatures : res'.validSignatures = res.validSignatures
  requiredSignatures : res'.requiredSignatures = res.requiredSignatures
  matchedRoles : res'.matchedRoles = res.matchedRoles
  receiptHash : res'.receiptHash = res.receiptHash
  issues : res'.issues.Perm res.issues

/-- Tallies of the same contents give the same result. -/
theorem sameResult_finish (h : Reordered receipt receipt') (findings : Findings)
    {tally tally' : Tally ReceiptVerificationIssue PyStr PyStr} (hcount : tally'.count = tally.count)
    (hroles : tally'.roles.Perm tally.roles) (hissues : tally'.issues.Perm tally.issues) :
    SameResult (finish receipt findings tally) (finish receipt' findings tally') := by
  have hperm : (finish receipt' findings tally').issues.Perm (finish receipt findings tally).issues := by
    have hmissing : ∀ role issue, issueIf (role ∉ tally'.roles) issue =
        issueIf (role ∉ tally.roles) issue := fun role issue =>
      if_congr (not_congr hroles.mem_iff) rfl rfl
    simp only [finish, h.policyOf_eq, h.get_eq (show lit "release_class" ≠ lit "signatures" by decide),
      hcount, hmissing]
    exact ((hissues.append_right _).append_right _).append_right _
  have herrors := hperm.any_eq (f := isError)
  have hsorted : tally'.roles.insertionSort (· ≤ ·) = tally.roles.insertionSort (· ≤ ·) :=
    List.Perm.eq_of_pairwise' (List.pairwise_insertionSort _ _) (List.pairwise_insertionSort _ _)
      (((List.perm_insertionSort _ _).trans hroles).trans (List.perm_insertionSort _ _).symm)
  exact {
    status := congrArg (fun b => if b = true then ReceiptStatus.notVerified else .rcVerified) herrors
    verified := congrArg not herrors
    validSignatures := hcount
    requiredSignatures := congrArg minSignaturesOf h.policyOf_eq
    matchedRoles := hsorted
    receiptHash := rfl
    issues := hperm }

/-- **The order of the signatures does not matter.** -/
theorem verifyReceipt_reordered {res : ReceiptVerificationResult}
    (h : verifyReceipt env receipt registry = .ok res) (hr : Reordered receipt receipt') :
    ∃ res', verifyReceipt env receipt' registry = .ok res' ∧ SameResult res res' := by
  have hclass := hr.get_eq (show lit "release_class" ≠ lit "signatures" by decide)
  by_cases hempty : registry.fields = []
  · rw [verifyReceipt_empty hempty] at h ⊢
    rw [hclass]
    cases hs : (receipt.get (lit "release_class")).inSet [lit "B", lit "C"] with
    | error e =>
      rw [hs] at h
      cases h
    | ok strict =>
      rw [hs] at h
      obtain rfl := Except.ok.inj h
      refine ⟨emptyRegistryResult receipt' (policyIssues receipt' strict), rfl, ?_⟩
      rw [hr.policyIssues_eq]
      exact ⟨rfl, rfl, rfl, congrArg minSignaturesOf hr.policyOf_eq, rfl, rfl, List.Perm.refl _⟩
  · obtain ⟨strict, findings, vs, hs, hf, hvs, rfl⟩ := (verifyReceipt_eq_ok hempty).mp h
    obtain ⟨vs', hvs', hperm⟩ := hr.verdicts hvs
    obtain ⟨_, _, -, -, -, hp, -⟩ := checkFields_eq_ok.mp hf
    obtain ⟨hcount, hroles, hissues⟩ := Tally.foldl_perm hperm (consistent_verdicts hvs hp)
      findings.issues (t := tallyOf findings vs) rfl rfl
    refine ⟨_, (verifyReceipt_eq_ok hempty).mpr ⟨strict, findings, vs', ?_, ?_, hvs', rfl⟩,
      sameResult_finish hr findings hcount.symm hroles.symm hissues.symm⟩
    · rw [hclass, hs]
    · rw [hr.policyIssues_eq, hr.checkFields_eq, hf]

/-! ## A receipt with a malformed and a repeated entry -/

def sampleEntry : Json := (signaturesOf sampleReceipt).headD .null

def mixedReceipt : Dict :=
  sampleReceipt.set (lit "signatures") (.arr [.null, sampleEntry, sampleEntry]) (by decide +kernel)

def reversedReceipt : Dict :=
  sampleReceipt.set (lit "signatures") (.arr [sampleEntry, sampleEntry, .null]) (by decide +kernel)

theorem mixedReceipt_reordered : Reordered mixedReceipt reversedReceipt where
  fields key hkey := by
    rw [reversedReceipt, mixedReceipt, Dict.get?_set, Dict.get?_set, if_neg hkey.symm, if_neg hkey.symm]
  entries := by
    refine ⟨[.null, sampleEntry, sampleEntry], _, ?_, ?_, (List.reverse_perm _).symm⟩
    · rw [mixedReceipt, Dict.get_set, if_pos rfl]
    · rw [reversedReceipt, Dict.get_set, if_pos rfl]
      rfl

theorem mixedReceipt_returns : ∃ res, verifyReceipt demoEnv mixedReceipt sampleRegistry = .ok res :=
  exists_ok_of_isSome (by decide +kernel)

theorem verifyReceipt_reordered_mixed : ∃ res res',
    verifyReceipt demoEnv mixedReceipt sampleRegistry = .ok res ∧
      verifyReceipt demoEnv reversedReceipt sampleRegistry = .ok res' ∧ SameResult res res' := by
  obtain ⟨res, h⟩ := mixedReceipt_returns
  obtain ⟨res', h', hsame⟩ := verifyReceipt_reordered h mixedReceipt_reordered
  exact ⟨res, res', h, h', hsame⟩

end Sentinel.Receipt
