import SentinelCore.Receipt
import SentinelCore.Py.JsonSame

/-!
# What the signed bytes say

The canonical text of a value, the payload of a receipt and the canonical JSON of an evidence record
each determine what they are made from, with objects read as maps. For a receipt that is the listed
fields, a missing one read as null; for an evidence record it is the whole record with the signature
value blanked (`blankSignature`).
-/

namespace Sentinel

open Py Lib

theorem toJson_meaning (d : Dict) :
    d.toJson.meaning = .obj fun key => (d.get? key).map Json.meaning := by
  unfold Dict.toJson
  rw [Json.meaning, Json.meaningFields_eq]
  rfl

/-- The meaning of an object depends on the meanings of its members. -/
theorem meaning_obj_of_map {fields fields' : List (PyStr × Json)}
    (h : fields.map (fun kv => (kv.1, kv.2.meaning)) =
      fields'.map fun kv => (kv.1, kv.2.meaning)) :
    (Json.obj fields).meaning = (Json.obj fields').meaning := by
  rw [Json.meaning, Json.meaning, JsonValue.obj.injEq]
  funext key
  induction fields generalizing fields' with
  | nil =>
    cases fields' with
    | nil => rfl
    | cons kv' fields' => cases h
  | cons kv fields ih =>
    cases fields' with
    | nil => cases h
    | cons kv' fields' =>
      obtain ⟨hkv, htail⟩ := List.cons.inj h
      obtain ⟨hk, hv⟩ := Prod.mk.inj hkv
      rw [Json.meaningFields, Json.meaningFields, hk, hv, ih htail]

/-! ## Receipts -/

namespace Receipt

theorem getField_selectFields_append (d : Dict) (names : List String)
    (rest : List (PyStr × Json)) (name : String) :
    getField (selectFields d names ++ rest) (lit name) =
      if name ∈ names then some (d.get (lit name)) else getField rest (lit name) := by
  induction names with
  | nil => rfl
  | cons n names ih =>
    change (if lit n = lit name then some (d.get (lit n))
      else getField (selectFields d names ++ rest) (lit name)) = _
    by_cases hn : n = name
    · subst hn
      rw [if_pos rfl, if_pos List.mem_cons_self]
    · rw [if_neg (fun h => hn (lit_inj.mp h)), ih]
      simp only [List.mem_cons, Ne.symm hn, false_or]

theorem getField_selectFields {d : Dict} {names : List String} {name : String}
    (h : name ∈ names) : getField (selectFields d names) (lit name) = some (d.get (lit name)) := by
  have := getField_selectFields_append d names [] name
  rwa [List.append_nil, if_pos h] at this

theorem selectFields_keys (d : Dict) (names : List String) :
    (selectFields d names).map Prod.fst = names.map lit := by
  unfold selectFields
  rw [List.map_map]
  rfl

theorem selectFields_wellFormed (d : Dict) (names : List String) :
    ∀ kv ∈ selectFields d names, kv.2.wellFormed = true := by
  intro kv hkv
  obtain ⟨name, -, rfl⟩ := List.mem_map.mp hkv
  exact d.get_wellFormed _

theorem unsignedReceipt_wellFormed (receipt : Dict) :
    (unsignedReceipt receipt).wellFormed = true := by
  unfold unsignedReceipt
  rw [Json.wellFormed_obj]
  constructor
  · rw [List.map_append, selectFields_keys]
    change (signedFields.map lit ++ [lit "chain"]).Nodup
    decide
  · intro kv hkv
    rcases List.mem_append.mp hkv with h | h
    · exact selectFields_wellFormed _ _ kv h
    · rw [List.mem_singleton.mp h, Json.wellFormed_obj]
      refine ⟨?_, selectFields_wellFormed _ _⟩
      rw [selectFields_keys]
      decide

/-- The receipts agree on what is signed. -/
structure SameSigned (r r' : Dict) : Prop where
  fields : ∀ name ∈ signedFields, (r.get (lit name)).meaning = (r'.get (lit name)).meaning
  chain : ∀ name ∈ signedChainFields,
    ((chainOf r).get (lit name)).meaning = ((chainOf r').get (lit name)).meaning

theorem selectFields_map_congr {d d' : Dict} {names : List String}
    (h : ∀ name ∈ names, (d.get (lit name)).meaning = (d'.get (lit name)).meaning) :
    (selectFields d names).map (fun kv => (kv.1, kv.2.meaning)) =
      (selectFields d' names).map fun kv => (kv.1, kv.2.meaning) := by
  unfold selectFields
  rw [List.map_map, List.map_map]
  exact List.map_congr_left fun name hname => Prod.ext rfl (h name hname)

theorem unsignedReceipt_meaning_eq_iff {r r' : Dict} :
    (unsignedReceipt r).meaning = (unsignedReceipt r').meaning ↔ SameSigned r r' := by
  constructor
  · intro h
    unfold unsignedReceipt at h
    rw [Json.meaning, Json.meaning, Json.meaningFields_eq, Json.meaningFields_eq,
      JsonValue.obj.injEq] at h
    refine ⟨fun name hname => ?_, fun name hname => ?_⟩
    · have hfield := congrFun h (lit name)
      rw [getField_selectFields_append, getField_selectFields_append, if_pos hname,
        if_pos hname] at hfield
      exact Option.some.inj hfield
    · have hchain := congrFun h (lit "chain")
      have hnot : "chain" ∉ signedFields := by decide
      rw [getField_selectFields_append, getField_selectFields_append, if_neg hnot,
        if_neg hnot] at hchain
      have hchain := Option.some.inj hchain
      rw [Json.meaning, Json.meaning, Json.meaningFields_eq, Json.meaningFields_eq,
        JsonValue.obj.injEq] at hchain
      have hfield := congrFun hchain (lit name)
      rw [getField_selectFields hname, getField_selectFields hname] at hfield
      exact Option.some.inj hfield
  · rintro ⟨hfields, hchain⟩
    apply meaning_obj_of_map
    rw [List.map_append, List.map_append, selectFields_map_congr hfields]
    congr 1
    rw [List.map_cons, List.map_cons, meaning_obj_of_map (selectFields_map_congr hchain)]

end Receipt

/-! ## Evidence records -/

/-- A signature object with its value blanked. -/
def blankSignatureValue : JsonValue → JsonValue
  | .obj members => .obj fun key => if key = lit "value" then some (.str []) else members key
  | v => v

/-- A record with the value of its signature object blanked. -/
def blankSignature : JsonValue → JsonValue
  | .obj members => .obj fun key =>
    if key = lit "signature" then (members key).map blankSignatureValue else members key
  | v => v

theorem blankValue_meaning (signature : Dict) :
    (blankValue signature).toJson.meaning = blankSignatureValue signature.toJson.meaning := by
  rw [toJson_meaning, toJson_meaning, blankSignatureValue, JsonValue.obj.injEq]
  funext key
  unfold blankValue
  rw [Dict.get?_set]
  by_cases hk : key = lit "value"
  · rw [if_pos hk.symm, if_pos hk]
    rfl
  · rw [if_neg (Ne.symm hk), if_neg hk]

theorem blankSignatureValue_of_not_obj {v : Json} (h : ∀ fields, v ≠ .obj fields) :
    blankSignatureValue v.meaning = v.meaning := by
  cases v with
  | obj fields => exact absurd rfl (h fields)
  | _ => rfl

theorem unsignedRecord_meaning (record : Dict) :
    (unsignedRecord record).toJson.meaning = blankSignature record.toJson.meaning := by
  rw [toJson_meaning, toJson_meaning, blankSignature, JsonValue.obj.injEq]
  funext key
  unfold unsignedRecord
  split
  · next signature hs =>
    rw [Dict.get?_set]
    by_cases hk : key = lit "signature"
    · subst hk
      rw [if_pos rfl, if_pos rfl]
      rw [Json.toDict?_eq_some, Dict.get] at hs
      cases hget : record.get? (lit "signature") with
      | none => rw [hget] at hs; cases hs
      | some v =>
        rw [hget, Option.getD_some] at hs
        rw [hs, Option.map_some, Option.map_some, Option.map_some, blankValue_meaning]
    · rw [if_neg (Ne.symm hk), if_neg hk]
  · next hs =>
    by_cases hk : key = lit "signature"
    · subst hk
      rw [if_pos rfl]
      cases hget : record.get? (lit "signature") with
      | none => rfl
      | some v =>
        rw [Dict.get, hget, Option.getD_some] at hs
        have hobj := (Json.toDict?_eq_none (Dict.get?_wellFormed hget)).mp hs
        rw [Option.map_some, Option.map_some, blankSignatureValue_of_not_obj hobj]
    · rw [if_neg hk]

/-! ## The texts determine the contents -/

/-- Of two values the first of which is written, the other is written the same exactly if it means the
same. -/
theorem canonicalizeJson_eq_iff {env : Env} {v w : Json} {s : PyStr} (hv : v.wellFormed = true)
    (hw : w.wellFormed = true) (hs : canonicalizeJson env v = .ok s) :
    canonicalizeJson env w = .ok s ↔ v.meaning = w.meaning := by
  constructor
  · intro ht
    obtain ⟨-, hvs⟩ := env.dumps_ok.mp hs
    obtain ⟨-, hws⟩ := env.dumps_ok.mp ht
    exact (Json.text_eq_iff hv hw).mp (hvs.trans hws.symm)
  · intro h
    rw [← hs]
    exact (Json.dumps_of_meaning hv hw h env.toRuntime).symm

theorem payload_eq_iff {env : Env} {r r' : Dict} {s : PyStr}
    (hs : Receipt.buildUnsignedReceiptPayload env r = .ok s) :
    Receipt.buildUnsignedReceiptPayload env r' = .ok s ↔ Receipt.SameSigned r r' :=
  (canonicalizeJson_eq_iff (Receipt.unsignedReceipt_wellFormed r)
    (Receipt.unsignedReceipt_wellFormed r') hs).trans Receipt.unsignedReceipt_meaning_eq_iff

theorem computeChainLink_eq_iff {env : Env} {r r' : Dict} {l : ChainLink} (hl : computeChainLink env r = .ok l) :
    (∃ l', computeChainLink env r' = .ok l' ∧ l'.canonicalJson = l.canonicalJson) ↔
      blankSignature r.toJson.meaning = blankSignature r'.toJson.meaning := by
  obtain ⟨hcanonical, hdigest⟩ := computeChainLink_eq_ok.mp hl
  rw [← unsignedRecord_meaning, ← unsignedRecord_meaning, ← canonicalizeJson_eq_iff
    (unsignedRecord r).toJson_wellFormed (unsignedRecord r').toJson_wellFormed hcanonical]
  constructor
  · rintro ⟨l', hl', hsame⟩
    rw [← hsame]
    exact (computeChainLink_eq_ok.mp hl').1
  · intro h
    exact ⟨l, computeChainLink_eq_ok.mpr ⟨h, hdigest⟩, rfl⟩

/-- **The signed bytes determine the signed content**: of any value, of a receipt and of an evidence
record. What one of them is written as, another is written as exactly if it has the same content. -/
theorem signedBytes_determine_content (env : Env) :
    (∀ (v w : Json) (s : PyStr), v.wellFormed = true → w.wellFormed = true →
      canonicalizeJson env v = .ok s → (canonicalizeJson env w = .ok s ↔ v.meaning = w.meaning)) ∧
    (∀ (r r' : Dict) (s : PyStr), Receipt.buildUnsignedReceiptPayload env r = .ok s →
      (Receipt.buildUnsignedReceiptPayload env r' = .ok s ↔ Receipt.SameSigned r r')) ∧
    ∀ (r r' : Dict) (l : ChainLink), computeChainLink env r = .ok l →
      ((∃ l', computeChainLink env r' = .ok l' ∧ l'.canonicalJson = l.canonicalJson) ↔
        blankSignature r.toJson.meaning = blankSignature r'.toJson.meaning) :=
  ⟨fun _ _ _ hv hw hs => canonicalizeJson_eq_iff hv hw hs, fun _ _ _ hs => payload_eq_iff hs,
    fun _ _ _ hl => computeChainLink_eq_iff hl⟩

/-- Two spellings of `{"a": 1, "b": ""}` have one canonical text. -/
theorem signedBytes_determine_content_pair :
    canonicalizeJson demoEnv (.obj [(lit "a", .int 1), (lit "b", .str [])]) =
        .ok (lit "\x7b\"a\":1,\"b\":\"\"\x7d") ∧
      canonicalizeJson demoEnv (.obj [(lit "b", .str []), (lit "a", .int 1)]) =
        .ok (lit "\x7b\"a\":1,\"b\":\"\"\x7d") ∧
      (Json.obj [(lit "a", .int 1), (lit "b", .str [])]).meaning =
        (Json.obj [(lit "b", .str []), (lit "a", .int 1)]).meaning := by
  have h : canonicalizeJson demoEnv (.obj [(lit "a", .int 1), (lit "b", .str [])]) =
      .ok (lit "\x7b\"a\":1,\"b\":\"\"\x7d") := by decide +kernel
  have h' : canonicalizeJson demoEnv (.obj [(lit "b", .str []), (lit "a", .int 1)]) =
      .ok (lit "\x7b\"a\":1,\"b\":\"\"\x7d") := by decide +kernel
  exact ⟨h, h', ((signedBytes_determine_content demoEnv).1 _ _ _ (by decide) (by decide) h).mp h'⟩

end Sentinel
