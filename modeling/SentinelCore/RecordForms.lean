import SentinelCore.VerifierRule
import SentinelCore.Py.JsonSame

/-!
# Records in other forms

A record is a `dict`, and it can be written to a text in many ways. Two records that mean the same are hashed,
verified and authorized alike (`computeChainLink_congr`, `verifyEvidenceRecord_congr`).

1. The canonical text of a record is read back as a record with the same chain link (`chainLink_reads_back`).
2. An accepted record can be written with any `ensure_ascii`, `sort_keys`, `indent` and separators of
   `json.dumps`, and what is read from that text is accepted with the same result (`accepted_of_rewritten`).
-/

namespace Sentinel

open Py Lib

variable {env : Env} {record record' : Dict}

/-! ## The unsigned record -/

theorem unsignedRecord_of_signature {signature : Dict}
    (h : record.get (lit "signature") = signature.toJson) :
    unsignedRecord record = record.set (lit "signature") (blankValue signature).toJson
      (blankValue signature).toJson_wellFormed := by
  unfold unsignedRecord
  rw [h, Dict.toDict?_toJson]

theorem unsignedRecord_of_none (h : (record.get (lit "signature")).toDict? = none) :
    unsignedRecord record = record := by
  unfold unsignedRecord
  rw [h]

section Congr

variable (h : record.toJson.meaning = record'.toJson.meaning)

include h

/-- The signature objects of the records. -/
theorem signature_congr :
    ((record.get (lit "signature")).toDict? = none ∧ (record'.get (lit "signature")).toDict? = none) ∨
      ∃ d e : Dict, record.get (lit "signature") = d.toJson ∧ record'.get (lit "signature") = e.toJson ∧
        d.toJson.meaning = e.toJson.meaning :=
  Json.toDict?_congr (record.get_wellFormed _) (record'.get_wellFormed _) (Dict.get_of_meaning h _)

theorem unsignedRecord_congr :
    (unsignedRecord record).toJson.meaning = (unsignedRecord record').toJson.meaning := by
  rcases signature_congr h with ⟨hnone, hnone'⟩ | ⟨d, e, hd, he, hde⟩
  · rw [unsignedRecord_of_none hnone, unsignedRecord_of_none hnone']
    exact h
  · rw [unsignedRecord_of_signature hd, unsignedRecord_of_signature he]
    exact Dict.set_of_meaning h _ _ _ (Dict.set_of_meaning hde _ _ _ rfl)

/-- The chain link depends on the meaning of the record only. -/
theorem computeChainLink_congr : computeChainLink env record = computeChainLink env record' := by
  unfold computeChainLink canonicalizeJson
  rw [Json.dumps_of_meaning (Dict.toJson_wellFormed _) (Dict.toJson_wellFormed _) (unsignedRecord_congr h)]

end Congr

/-- The unsigned record has a blank signature value already. -/
theorem unsignedRecord_unsignedRecord (record : Dict) :
    (unsignedRecord (unsignedRecord record)).toJson.meaning = (unsignedRecord record).toJson.meaning := by
  cases hd : (record.get (lit "signature")).toDict? with
  | none => rw [unsignedRecord_of_none hd, unsignedRecord_of_none hd]
  | some signature =>
    have hsig := Json.toDict?_eq_some.mp hd
    have hget : (unsignedRecord record).get (lit "signature") = (blankValue signature).toJson := by
      rw [unsignedRecord_of_signature hsig, Dict.get_set, if_pos rfl]
    rw [unsignedRecord_of_signature hget]
    refine Dict.meaning_ext fun key => ?_
    rw [Dict.get?_set]
    split
    · next hkey =>
      subst hkey
      have hblank : (blankValue (blankValue signature)).toJson.meaning = (blankValue signature).toJson.meaning := by
        refine Dict.meaning_ext fun k => ?_
        unfold blankValue
        rw [Dict.get?_set, Dict.get?_set]
        split <;> rfl
      rw [unsignedRecord_of_signature hsig, Dict.get?_set, if_pos rfl]
      exact congrArg some hblank
    · rfl

/-! ## The canonical text -/

/-- The interpreter reads back the floats of a value. -/
def FloatsKept (env : Env) (v : Json) : Prop := v.Atoms (fun _ => True) env.ReadsFloat

/-- What holds of the strings and floats of a record holds of those of the unsigned one. -/
theorem atoms_unsignedRecord {p : PyStr → Prop} {q : PyFloat → Prop} (h : record.toJson.Atoms p q)
    (hsignature : p (lit "signature")) (hvalue : p (lit "value")) (hempty : p []) :
    (unsignedRecord record).toJson.Atoms p q := by
  cases hd : (record.get (lit "signature")).toDict? with
  | none =>
    rw [unsignedRecord_of_none hd]
    exact h
  | some signature =>
    have hsig := Json.toDict?_eq_some.mp hd
    have hget : record.get? (lit "signature") = some signature.toJson := by
      unfold Dict.get at hsig
      cases hmember : record.get? (lit "signature") with
      | none =>
        rw [hmember] at hsig
        cases hsig
      | some v =>
        rw [hmember] at hsig
        exact congrArg some hsig
    rw [unsignedRecord_of_signature hsig]
    exact Dict.atoms_set h _ hsignature
      (Dict.atoms_set (Dict.atoms_iff.mp h _ _ hget).2 _ hvalue hempty)

/-- **The canonical text of a record is read back as a record with the same chain link**, which differs from the
record in the order of its members and in the value of the signature only. -/
theorem chainLink_reads_back {link : ChainLink} (h : computeChainLink env record = .ok link)
    (hfloats : FloatsKept env record.toJson) :
    ∃ body : Dict, loads env.toRuntime link.canonicalJson = .ok body.toJson ∧
      body.toJson.meaning = (unsignedRecord record).toJson.meaning ∧
      computeChainLink env body = .ok link := by
  obtain ⟨hcanonical, -⟩ := computeChainLink_eq_ok.mp h
  obtain ⟨hlimits, htext⟩ := (Runtime.dumps_ok env.toRuntime).mp hcanonical
  obtain ⟨hdepth, hints⟩ := (Runtime.checkLimits_ok env.toRuntime).mp hlimits
  have hwf := (unsignedRecord record).toJson_wellFormed
  have hatoms := atoms_unsignedRecord hfloats trivial trivial trivial
  have hkeeps : env.Keeps .canonical (unsignedRecord record).toJson :=
    ⟨isSeparated_canonical, hwf, hints, hatoms.mono (fun _ _ hoff => by cases hoff) (fun _ hx => hx)⟩
  have hread := loads_render hkeeps (hdepth.trans env.maxDumpDepth_le) (w := []) rfl
  rw [List.append_nil, Json.render_canonical, htext] at hread
  let body : Dict := ⟨JsonFormat.canonical.order (Json.orderedFields .canonical (unsignedRecord record).fields),
    Json.wellFormed_ordered (f := .canonical) hwf⟩
  have hmeaning : body.toJson.meaning = (unsignedRecord record).toJson.meaning :=
    Json.meaning_ordered (f := .canonical) hwf
  refine ⟨body, hread, hmeaning, ?_⟩
  have hunsigned : (unsignedRecord body).toJson.meaning = (unsignedRecord record).toJson.meaning :=
    (unsignedRecord_congr hmeaning).trans (unsignedRecord_unsignedRecord record)
  rw [← h]
  unfold computeChainLink canonicalizeJson
  rw [Json.dumps_of_meaning (Dict.toJson_wellFormed _) (Dict.toJson_wellFormed _) hunsigned]

theorem sampleRecord_floatsKept : FloatsKept demoEnv sampleRecord.toJson := by
  simp [FloatsKept, Dict.toJson, sampleRecord, Json.Atoms, Json.AtomsFields]

theorem sampleRecord_runs : (∃ link, computeChainLink demoEnv sampleRecord = .ok link) ∧
    ∃ res, verifyEvidenceRecord demoEnv sampleRecord sampleOptions = .ok res ∧ res.ok = true :=
  ⟨exists_ok_of_isSome (by decide +kernel), exists_of_map (by decide +kernel)⟩

theorem chainLink_reads_back_sample : ∃ (link : ChainLink) (body : Dict),
    computeChainLink demoEnv sampleRecord = .ok link ∧
      loads demoEnv.toRuntime link.canonicalJson = .ok body.toJson ∧
      body.toJson.meaning = (unsignedRecord sampleRecord).toJson.meaning ∧
      computeChainLink demoEnv body = .ok link := by
  obtain ⟨link, hlink⟩ := sampleRecord_runs.1
  obtain ⟨body, hbody⟩ := chainLink_reads_back hlink sampleRecord_floatsKept
  exact ⟨link, body, hlink, hbody⟩

/-! ## Verification -/

section Congr

variable (h : record.toJson.meaning = record'.toJson.meaning)

include h

theorem conforms_congr (hc : Conforms record) : Conforms record' :=
  Schema.valid_of_meaning record'.toJson_wellFormed h hc

theorem resolveSigner_congr (registry : TrustRegistry) :
    resolveSigner env record registry = resolveSigner env record' registry := by
  unfold resolveSigner
  rw [Json.str?_congr (Dict.get_of_meaning h _)]
  rcases signature_congr h with ⟨hnone, hnone'⟩ | ⟨d, e, hd, he, hde⟩
  · rw [hnone, hnone']
  · have href : keyReference d = keyReference e := by
      unfold keyReference
      rw [Json.str?_congr (Dict.get_of_meaning hde _), Json.str?_congr (Dict.get_of_meaning hde _)]
    rw [hd, he, Dict.toDict?_toJson, Dict.toDict?_toJson]
    simp only [Check.ofOption, pure_bind, href]

theorem verifyEddsaRecord_congr (publicKey : PyStr) :
    verifyEddsaRecord env record publicKey = verifyEddsaRecord env record' publicKey := by
  have hbytes : ∀ value, verifyBytes env record value publicKey = verifyBytes env record' value publicKey := by
    intro value
    unfold verifyBytes
    rw [computeChainLink_congr h]
  unfold verifyEddsaRecord
  rcases signature_congr h with ⟨hnone, hnone'⟩ | ⟨d, e, hd, he, hde⟩
  · rw [hnone, hnone']
  · rw [hd, he, Dict.toDict?_toJson, Dict.toDict?_toJson]
    simp only [hbytes, ne_eq, Dict.get_str_of_meaning hde, Json.nonEmptyStr?_congr (Dict.get_of_meaning hde _)]

theorem checkTrust_congr (trustRegistry : Option TrustRegistry) (required : Bool) :
    checkTrust env record trustRegistry required = checkTrust env record' trustRegistry required := by
  have hsignature : checkSignature env record = checkSignature env record' := by
    funext key
    unfold checkSignature
    rw [verifyEddsaRecord_congr h]
  unfold checkTrust
  simp only [resolveSigner_congr h, hsignature]

theorem checkPolicy_congr (policyRegistry : Option PolicyRegistry) (role : Option PyStr) (required : Bool) :
    checkPolicy env record policyRegistry role required = checkPolicy env record' policyRegistry role required := by
  have hfield : requiredField record = requiredField record' := by
    funext name
    unfold requiredField
    rw [Json.nonEmptyStr?_congr (Dict.get_of_meaning h _)]
  unfold checkPolicy authorizeRecord
  simp only [hfield]

/-- **A record is accepted with the same result as every record that means the same.** -/
theorem verifyEvidenceRecord_congr {opts : Options} {res : VerificationResult}
    (hverify : verifyEvidenceRecord env record opts = .ok res) (hok : res.ok = true) :
    verifyEvidenceRecord env record' opts = .ok res := by
  have hissues : ∀ {c : Check PyExc PyStr Unit}, c.Accepts () → c.issues = .ok [] := by
    intro c hc
    unfold Check.issues
    rw [hc]
    rfl
  obtain ⟨schemaErrors, previousErrors, trust, policy, hs, hprev, ht, hp, rfl⟩ :=
    verifyEvidenceRecord_eq_ok.mp hverify
  obtain ⟨rfl, rfl, -, hvalue, -⟩ := conclude_ok.mp hok
  have hconforms := accepts_checkSchema.mp ((Check.issues_eq_ok hs).mp rfl)
  have hconforms' := conforms_congr h hconforms
  have hprevious := accepts_checkPreviousHash.mp ((Check.issues_eq_ok hprev).mp rfl)
  obtain ⟨value', hvalue', hne'⟩ := hconforms'.signatureValue
  refine verifyEvidenceRecord_eq_ok.mpr ⟨[], [], trust, policy, hissues (accepts_checkSchema.mpr hconforms'),
    hissues (accepts_checkPreviousHash.mpr ((Dict.get_str_of_meaning h).mp hprevious)), ?_, ?_, ?_⟩
  · rw [← checkTrust_congr h]
    exact ht
  · rw [← checkPolicy_congr h]
    exact hp
  · unfold conclude computeDigest
    rw [computeChainLink_congr h, hvalue, (signatureValueErrors_eq_nil hvalue').mpr fun _ => hne']

end Congr

/-! ## Accepted records -/

def IsStr (v : Json) : Prop := ∃ s, v = .str s

/-- The members of a conforming record are strings, but for its signature, whose members are strings. -/
theorem Conforms.flat (h : Conforms record) : ∀ kv ∈ record.fields,
    IsStr kv.2 ∨ ∃ inner, kv.2 = .obj inner ∧ ∀ kv' ∈ inner, IsStr kv'.2 := by
  have hstring : ∀ {assertions : List Assertion} {v : Json}, (Schema.string assertions).Valid v → IsStr v := by
    intro assertions v hv
    obtain ⟨s, rfl, -⟩ := Schema.valid_string.mp hv
    exact ⟨s, rfl⟩
  have hrecord : ∀ {P : Json → Prop} {properties : List (PyStr × Schema)} {v : Json}, v.wellFormed = true →
      (∀ kv ∈ properties, ∀ w : Json, w.wellFormed = true → kv.2.Valid w → P w) →
      (Schema.record properties).Valid v → ∃ fields, v = .obj fields ∧ ∀ kv ∈ fields, P kv.2 := by
    intro P properties v hwf hproperties hv
    obtain ⟨fields, rfl, hkeys, hmembers⟩ := Schema.valid_record.mp hv
    obtain ⟨hn, hwell⟩ := Json.wellFormed_obj.mp hwf
    refine ⟨fields, rfl, fun kv hkv => ?_⟩
    obtain ⟨property, hproperty, hname⟩ := List.mem_map.mp (hkeys kv hkv)
    obtain ⟨w, hget, hvalid⟩ := hmembers property hproperty
    rw [hname, getField_of_mem hn hkv] at hget
    obtain rfl := Option.some.inj hget
    exact hproperties property hproperty _ (hwell kv hkv) hvalid
  obtain ⟨fields, hfields, hmembers⟩ := hrecord (P := fun v => IsStr v ∨ ∃ inner, v = .obj inner ∧
    ∀ kv' ∈ inner, IsStr kv'.2) record.toJson_wellFormed (by
      simp only [List.forall_mem_cons]
      refine ⟨?_, ?_, ?_, ?_, ?_, ?_, ?_, ?_, ?_, by simp⟩
      iterate 8 exact fun w _ hw => .inl (hstring hw)
      refine fun w hwf hw => .inr (hrecord hwf ?_ hw)
      simp only [List.forall_mem_cons]
      exact ⟨fun w _ hw => hstring hw, fun w _ hw => hstring hw, fun w _ hw => hstring hw, by simp⟩) h
  obtain rfl := Json.obj.inj hfields
  exact hmembers

theorem Conforms.checkLimits (h : Conforms record) : env.checkLimits record.toJson = .ok () := by
  refine (Runtime.checkLimits_ok env.toRuntime).mpr ⟨?_, ?_⟩
  · have hdepth : Json.depthFields record.fields ≤ 1 := by
      refine Json.depthFields_le.mpr fun kv hkv => ?_
      rcases h.flat kv hkv with ⟨s, hs⟩ | ⟨inner, hinner, hmembers⟩
      · rw [hs]
        exact Nat.zero_le _
      · rw [hinner]
        refine Nat.succ_le_succ (Json.depthFields_le.mpr fun kv' hkv' => ?_)
        obtain ⟨s, hs⟩ := hmembers kv' hkv'
        rw [hs]
        exact le_rfl
    exact (Nat.succ_le_succ hdepth).trans env.two_le_maxDumpDepth
  · refine Json.intsPrintableFields_iff.mpr fun kv hkv => ?_
    rcases h.flat kv hkv with ⟨s, hs⟩ | ⟨inner, hinner, hmembers⟩
    · rw [hs]
      rfl
    · rw [hinner]
      refine Json.intsPrintableFields_iff.mpr fun kv' hkv' => ?_
      obtain ⟨s, hs⟩ := hmembers kv' hkv'
      rw [hs]
      rfl

/-- There is no float in a conforming record. -/
theorem Conforms.atoms {q : PyFloat → Prop} (h : Conforms record) : record.toJson.Atoms (fun _ => True) q := by
  refine Json.atoms_obj.mpr fun kv hkv => ⟨trivial, ?_⟩
  rcases h.flat kv hkv with ⟨s, hs⟩ | ⟨inner, hinner, hmembers⟩
  · rw [hs]
    trivial
  · rw [hinner]
    refine Json.atoms_obj.mpr fun kv' hkv' => ⟨trivial, ?_⟩
    obtain ⟨s, hs⟩ := hmembers kv' hkv'
    rw [hs]
    trivial

/-- What holds of the strings of the unsigned record and of the signature value holds of all strings. -/
theorem atoms_of_unsignedRecord {p : PyStr → Prop} {q : PyFloat → Prop} {signature : Dict} {value : PyStr}
    (h : (unsignedRecord record).toJson.Atoms p q) (hsig : record.get (lit "signature") = signature.toJson)
    (hvalue : signature.get (lit "value") = .str value) (hp : p value) : record.toJson.Atoms p q := by
  rw [unsignedRecord_of_signature hsig] at h
  have hblank := Dict.atoms_iff.mp h (lit "signature") (blankValue signature).toJson
    (by rw [Dict.get?_set, if_pos rfl])
  refine Dict.atoms_iff.mpr fun key v hget => ?_
  by_cases hkey : lit "signature" = key
  · subst hkey
    have hv : v = signature.toJson := by
      unfold Dict.get at hsig
      rw [hget] at hsig
      exact hsig
    subst hv
    refine ⟨hblank.1, Dict.atoms_iff.mpr fun k x hx => ?_⟩
    by_cases hk : lit "value" = k
    · subst hk
      have hx' : x = .str value := by
        unfold Dict.get at hvalue
        rw [hx] at hvalue
        exact hvalue
      subst hx'
      exact ⟨(Dict.atoms_iff.mp hblank.2 (lit "value") (.str []) (by
        unfold blankValue
        rw [Dict.get?_set, if_pos rfl])).1, hp⟩
    · refine Dict.atoms_iff.mp hblank.2 k x ?_
      unfold blankValue
      rw [Dict.get?_set, if_neg hk]
      exact hx
  · refine Dict.atoms_iff.mp h key v ?_
    rw [Dict.get?_set, if_neg hkey]
    exact hget

/-- **An accepted record can be written with any arguments of `json.dumps`**, as long as its separators are a
comma and a colon with white space around them, and what is read from that text is accepted with the same
result. Only the signature value could be changed on the way, if it has surrogates. -/
theorem accepted_of_rewritten {opts : Options} {res : VerificationResult}
    (hverify : verifyEvidenceRecord env record opts = .ok res) (hok : res.ok = true) {f : JsonFormat}
    (hseparated : f.IsSeparated)
    (hvalue : ∀ value, signatureValue record = .str value → f.Separable value) {w : PyStr}
    (hw : skipSpace w = []) :
    ∃ (text : PyStr) (record' : Dict), env.dumpsWith f record.toJson = .ok text ∧
      loads env.toRuntime (text ++ w) = .ok record'.toJson ∧
      verifyEvidenceRecord env record' opts = .ok res := by
  obtain ⟨schemaErrors, previousErrors, trust, policy, hs, -, -, -, hres⟩ :=
    verifyEvidenceRecord_eq_ok.mp hverify
  rw [← hres] at hok
  obtain ⟨hschema, -, hdigest, -⟩ := conclude_ok.mp hok
  have hconforms := accepts_checkSchema.mp ((Check.issues_eq_ok hs).mp hschema)
  obtain ⟨link, hlink, -⟩ := digest_errors.mp hdigest
  obtain ⟨signature, value, hsig, hstr, -⟩ := hconforms.signature
  obtain ⟨hcanonical, hsha⟩ := computeChainLink_eq_ok.mp hlink
  obtain ⟨data, hdata, -⟩ := sha256Prefixed_eq_ok.mp hsha
  have hencodable : isEncodable (unsignedRecord record).toJson.text = true := by
    rw [((Runtime.dumps_ok env.toRuntime).mp hcanonical).2]
    exact encodeUtf8_ok_iff.mp ⟨data, hdata⟩
  have hseparable : f.Separable value := by
    refine hvalue value ?_
    unfold signatureValue
    rw [hsig, Json.dictOrEmpty_toJson, hstr]
  have hstrings : record.toJson.Atoms f.Separable fun _ => True :=
    atoms_of_unsignedRecord ((Json.atoms_of_encodable hencodable).mono
      (fun s hs => f.separable_of_encodable hs) fun _ h => h) hsig hstr hseparable
  have hlimits : env.checkLimits record.toJson = .ok () := hconforms.checkLimits
  obtain ⟨hdepth, hints⟩ := (Runtime.checkLimits_ok env.toRuntime).mp hlimits
  have hkeeps : env.Keeps f record.toJson :=
    ⟨hseparated, record.toJson_wellFormed, hints,
      (hstrings.and _ hconforms.atoms).mono (fun _ h => h.1) fun _ h => h.2⟩
  have hread := loads_render hkeeps (hdepth.trans env.maxDumpDepth_le) hw
  let record' : Dict :=
    ⟨f.order (Json.orderedFields f record.fields), Json.wellFormed_ordered (f := f) record.toJson_wellFormed⟩
  have hsame : record.toJson.meaning = record'.toJson.meaning :=
    (Json.meaning_ordered (f := f) record.toJson_wellFormed).symm
  refine ⟨_, record', Runtime.dumpsWith_eq_ok.mpr ⟨hlimits, rfl⟩, hread, ?_⟩
  exact verifyEvidenceRecord_congr hsame hverify (hres ▸ hok)

theorem accepted_of_rewritten_sample : ∃ (res : VerificationResult) (text : PyStr) (record' : Dict),
    res.ok = true ∧ demoEnv.dumpsWith (.ofArgs true false none) sampleRecord.toJson = .ok text ∧
      loads demoEnv.toRuntime (text ++ lit "\n") = .ok record'.toJson ∧
      verifyEvidenceRecord demoEnv record' sampleOptions = .ok res := by
  obtain ⟨res, h, hok⟩ := sampleRecord_runs.2
  have hvalue : ∀ value, signatureValue sampleRecord = .str value →
      (JsonFormat.ofArgs true false none).Separable value := by
    intro value hvalue
    have hsample : signatureValue sampleRecord = .str sampleRecordSignature := rfl
    obtain rfl := Json.str.inj (hsample.symm.trans hvalue)
    exact fun _ => rfl
  obtain ⟨text, record', hrest⟩ :=
    accepted_of_rewritten h hok (isSeparated_ofArgs true false none) hvalue (w := lit "\n") rfl
  exact ⟨res, text, record', hok, hrest⟩

end Sentinel
