import SentinelCore.Py.JsonReads
import SentinelCore.Py.JsonSchema

/-!
# Values that mean the same

Two values with the same `meaning` differ in the order of the members of their objects only. They keep to the
same limits (`checkLimits_of_meaning`), are written the same by a format that sorts, have the same values under
the same keys, and conform to the same schemas (`valid_of_meaning`).
-/

namespace Py

namespace Json

theorem getField_of_meaning {fields fields' : List (PyStr × Json)}
    (h : (obj fields).meaning = (obj fields').meaning) (key : PyStr) :
    (getField fields key).map meaning = (getField fields' key).map meaning := by
  rw [meaning_obj, meaning_obj, JsonValue.obj.injEq] at h
  exact congrFun h key

/-- A member of one object has its counterpart in the other. -/
theorem exists_member {fields fields' : List (PyStr × Json)} (hn : (fields.map Prod.fst).Nodup)
    (h : (obj fields).meaning = (obj fields').meaning) {kv : PyStr × Json} (hkv : kv ∈ fields) :
    ∃ w, getField fields' kv.1 = some w ∧ kv.2.meaning = w.meaning := by
  have hkey := getField_of_meaning h kv.1
  rw [getField_of_mem hn hkv, Option.map_some] at hkey
  obtain ⟨w, hw, hmeaning⟩ := Option.map_eq_some_iff.mp hkey.symm
  exact ⟨w, hw, hmeaning.symm⟩

/-! ### Limits -/

theorem map_meaning {items items' : List Json} (h : (arr items).meaning = (arr items').meaning) :
    items.map meaning = items'.map meaning := by
  rw [meaning_arr, meaning_arr] at h
  exact JsonValue.arr.inj h

theorem depth_le_of_meaning {v w : Json} (hv : v.wellFormed = true) (h : v.meaning = w.meaning) :
    v.depth ≤ w.depth := by
  induction v using induct generalizing w with
  | null | bool | int | float | str => exact Nat.zero_le _
  | arr items ih =>
    cases w with
    | arr items' =>
      refine Nat.succ_le_succ (depthItems_le.mpr fun v hmem => ?_)
      have hmap : v.meaning ∈ items'.map meaning := by
        rw [← map_meaning h]
        exact List.mem_map_of_mem hmem
      obtain ⟨w, hw, hmeaning⟩ := List.mem_map.mp hmap
      exact (ih v hmem (wellFormed_arr.mp hv v hmem) hmeaning.symm).trans (depthItems_le.mp le_rfl w hw)
    | _ => cases h
  | obj fields ih =>
    cases w with
    | obj fields' =>
      obtain ⟨hn, hwf⟩ := wellFormed_obj.mp hv
      refine Nat.succ_le_succ (depthFields_le.mpr fun kv hmem => ?_)
      obtain ⟨w, hw, hmeaning⟩ := exists_member hn h hmem
      exact (ih kv hmem (hwf kv hmem) hmeaning).trans (depthFields_le.mp le_rfl _ (mem_of_getField hw))
    | _ => cases h

theorem intsPrintable_of_meaning {v w : Json} (hv : v.wellFormed = true) (h : v.meaning = w.meaning)
    (hw : w.intsPrintable = true) : v.intsPrintable = true := by
  induction v using induct generalizing w with
  | null | bool | float | str => rfl
  | int i =>
    cases w with
    | int j =>
      obtain rfl := JsonValue.int.inj h
      exact hw
    | _ => cases h
  | arr items ih =>
    cases w with
    | arr items' =>
      refine intsPrintableItems_iff.mpr fun v hmem => ?_
      have hmap : v.meaning ∈ items'.map meaning := by
        rw [← map_meaning h]
        exact List.mem_map_of_mem hmem
      obtain ⟨w, hwmem, hmeaning⟩ := List.mem_map.mp hmap
      exact ih v hmem (wellFormed_arr.mp hv v hmem) hmeaning.symm (intsPrintableItems_iff.mp hw w hwmem)
    | _ => cases h
  | obj fields ih =>
    cases w with
    | obj fields' =>
      obtain ⟨hn, hwf⟩ := wellFormed_obj.mp hv
      refine intsPrintableFields_iff.mpr fun kv hmem => ?_
      obtain ⟨w, hget, hmeaning⟩ := exists_member hn h hmem
      exact ih kv hmem (hwf kv hmem) hmeaning (intsPrintableFields_iff.mp hw _ (mem_of_getField hget))
    | _ => cases h

variable {v w : Json} (hv : v.wellFormed = true) (hw : w.wellFormed = true) (h : v.meaning = w.meaning)

include hv hw h

theorem limitsOf_of_meaning (limit : ℕ) (call : StdCall) :
    Runtime.limitsOf limit call v = Runtime.limitsOf limit call w := by
  have hdepth : v.depth = w.depth :=
    le_antisymm (depth_le_of_meaning hv h) (depth_le_of_meaning hw h.symm)
  have hints : v.intsPrintable = w.intsPrintable := by
    rw [Bool.eq_iff_iff]
    exact ⟨intsPrintable_of_meaning hw h.symm, intsPrintable_of_meaning hv h⟩
  unfold Runtime.limitsOf
  rw [hdepth, hints]

theorem checkLimits_of_meaning (rt : Runtime) : rt.checkLimits v = rt.checkLimits w :=
  limitsOf_of_meaning hv hw h _ _

theorem dumps_of_meaning (rt : Runtime) : rt.dumps v = rt.dumps w := by
  unfold Runtime.dumps
  rw [checkLimits_of_meaning hv hw h, text_of_meaning v w hv hw h]

end Json

/-! ### Members -/

section Atoms

variable {p : PyStr → Prop} {q : PyFloat → Prop} {d : Dict}

theorem Dict.atoms_iff : d.toJson.Atoms p q ↔ ∀ key v, d.get? key = some v → p key ∧ v.Atoms p q := by
  refine Json.atoms_obj.trans ⟨fun h key v hget => h (key, v) (mem_of_getField hget), fun h kv hkv => ?_⟩
  exact h kv.1 kv.2 (getField_of_mem d.keys_nodup hkv)

theorem Dict.atoms_set (h : d.toJson.Atoms p q) {key : PyStr} {v : Json} (hv : v.wellFormed = true) (hkey : p key)
    (hatoms : v.Atoms p q) : (d.set key v hv).toJson.Atoms p q := by
  refine Dict.atoms_iff.mpr fun k x hget => ?_
  rw [Dict.get?_set] at hget
  split_ifs at hget with hk
  · obtain rfl := Option.some.inj hget
    exact ⟨hk ▸ hkey, hatoms⟩
  · exact Dict.atoms_iff.mp h k x hget

end Atoms

section Members

variable {d e : Dict} (h : d.toJson.meaning = e.toJson.meaning)

theorem Json.str_of_meaning {v : Json} {s : PyStr} (h : v.meaning = (Json.str s).meaning) : v = .str s := by
  cases v with
  | str t => exact congrArg Json.str (JsonValue.str.inj h)
  | _ => cases h

/-- A value that means the same as a `dict` is one. -/
theorem Json.dict_of_meaning {v : Json} (hv : v.wellFormed = true) (h : v.meaning = d.toJson.meaning) :
    ∃ e : Dict, v = e.toJson ∧ d.toJson.meaning = e.toJson.meaning := by
  cases v with
  | obj fields => exact ⟨⟨fields, hv⟩, rfl, h.symm⟩
  | _ => cases h

include h

theorem Dict.get?_of_meaning (key : PyStr) : (d.get? key).map Json.meaning = (e.get? key).map Json.meaning :=
  Json.getField_of_meaning h key

theorem Dict.get_of_meaning (key : PyStr) : (d.get key).meaning = (e.get key).meaning := by
  have hget := Dict.get?_of_meaning h key
  unfold Dict.get
  cases hd : d.get? key with
  | none =>
    rw [hd, Option.map_none] at hget
    rw [Option.map_eq_none_iff.mp hget.symm]
  | some v =>
    rw [hd, Option.map_some] at hget
    obtain ⟨w, hw, hmeaning⟩ := Option.map_eq_some_iff.mp hget.symm
    rw [hw]
    exact hmeaning.symm

theorem Dict.get_str_of_meaning {key s : PyStr} : d.get key = .str s ↔ e.get key = .str s := by
  have hget := Dict.get_of_meaning h key
  constructor
  · intro hd
    rw [hd] at hget
    exact Json.str_of_meaning hget.symm
  · intro he
    rw [he] at hget
    exact Json.str_of_meaning hget

omit h in
/-- Dictionaries mean the same if they hold values of the same meanings under the same keys. -/
theorem Dict.meaning_ext (h : ∀ key, (d.get? key).map Json.meaning = (e.get? key).map Json.meaning) :
    d.toJson.meaning = e.toJson.meaning := by
  unfold Dict.toJson
  rw [Json.meaning, Json.meaning, Json.meaningFields_eq, Json.meaningFields_eq]
  exact congrArg _ (funext h)

/-- Members with the same meanings give the same meaning. -/
theorem Dict.set_of_meaning (key : PyStr) {v w : Json} (hv : v.wellFormed = true) (hw : w.wellFormed = true)
    (hvw : v.meaning = w.meaning) : (d.set key v hv).toJson.meaning = (e.set key w hw).toJson.meaning := by
  refine Dict.meaning_ext fun k => ?_
  rw [Dict.get?_set, Dict.get?_set]
  split
  · exact congrArg some hvw
  · exact Dict.get?_of_meaning h k

end Members

/-! ### Views of a value -/

/-- A value is the same as one it means the same as, or both are arrays, or both are objects. -/
theorem Json.eq_or_container {v w : Json} (h : v.meaning = w.meaning) :
    v = w ∨ (∃ items items', v = .arr items ∧ w = .arr items') ∨
      ∃ fields fields', v = .obj fields ∧ w = .obj fields' := by
  cases v with
  | arr items =>
    cases w with
    | arr items' => exact .inr (.inl ⟨items, items', rfl, rfl⟩)
    | _ => cases h
  | obj fields =>
    cases w with
    | obj fields' => exact .inr (.inr ⟨fields, fields', rfl, rfl⟩)
    | _ => cases h
  | _ =>
    refine .inl ?_
    cases w <;> cases h
    rfl

/-- A value is a `dict` or none, and so is every value that means the same. -/
theorem Json.toDict?_congr {v w : Json} (hv : v.wellFormed = true) (hw : w.wellFormed = true)
    (h : v.meaning = w.meaning) :
    (v.toDict? = none ∧ w.toDict? = none) ∨
      ∃ d e : Dict, v = d.toJson ∧ w = e.toJson ∧ d.toJson.meaning = e.toJson.meaning := by
  cases hd : v.toDict? with
  | some d =>
    obtain rfl := Json.toDict?_eq_some.mp hd
    obtain ⟨e, rfl, hde⟩ := Json.dict_of_meaning hw h.symm
    exact .inr ⟨d, e, rfl, rfl, hde⟩
  | none =>
    refine .inl ⟨rfl, ?_⟩
    cases he : w.toDict? with
    | none => rfl
    | some e =>
      obtain rfl := Json.toDict?_eq_some.mp he
      obtain ⟨d, rfl, -⟩ := Json.dict_of_meaning hv h
      rw [Dict.toDict?_toJson] at hd
      cases hd

theorem Json.nonEmptyStr?_congr {v w : Json} (h : v.meaning = w.meaning) : v.nonEmptyStr? = w.nonEmptyStr? := by
  rcases Json.eq_or_container h with rfl | ⟨items, items', rfl, rfl⟩ | ⟨fields, fields', rfl, rfl⟩
  · rfl
  · rfl
  · rfl

theorem Json.str?_congr {v w : Json} (h : v.meaning = w.meaning) : v.str? = w.str? := by
  rcases Json.eq_or_container h with rfl | ⟨items, items', rfl, rfl⟩ | ⟨fields, fields', rfl, rfl⟩
  · rfl
  · rfl
  · rfl

theorem Json.isSome_toDict?_congr {v w : Json} (hv : v.wellFormed = true) (hw : w.wellFormed = true)
    (h : v.meaning = w.meaning) : v.toDict?.isSome = w.toDict?.isSome := by
  rcases Json.toDict?_congr hv hw h with ⟨hnone, hnone'⟩ | ⟨d, e, rfl, rfl, -⟩
  · rw [hnone, hnone']
  · rw [Dict.toDict?_toJson, Dict.toDict?_toJson]
    rfl

theorem Json.dictOrEmpty_congr {v w : Json} (hv : v.wellFormed = true) (hw : w.wellFormed = true)
    (h : v.meaning = w.meaning) : v.dictOrEmpty.toJson.meaning = w.dictOrEmpty.toJson.meaning := by
  unfold Json.dictOrEmpty
  rcases Json.toDict?_congr hv hw h with ⟨hnone, hnone'⟩ | ⟨d, e, rfl, rfl, hde⟩
  · rw [hnone, hnone']
  · rw [Dict.toDict?_toJson, Dict.toDict?_toJson]
    exact hde

theorem Json.inSet_congr {v w : Json} (h : v.meaning = w.meaning) (names : List PyStr) :
    v.inSet names = w.inSet names := by
  rcases Json.eq_or_container h with rfl | ⟨items, items', rfl, rfl⟩ | ⟨fields, fields', rfl, rfl⟩
  · rfl
  · rfl
  · rfl

theorem Json.strItems?_congr {items items' : List Json} (h : items.map Json.meaning = items'.map Json.meaning) :
    Json.strItems? items = Json.strItems? items' := by
  unfold Json.strItems?
  induction items generalizing items' with
  | nil =>
    obtain rfl := List.map_eq_nil_iff.mp h.symm
    rfl
  | cons v items ih =>
    cases items' with
    | nil => cases h
    | cons w items' =>
      obtain ⟨hvw, hrest⟩ := List.cons.inj h
      rw [List.mapM_cons, List.mapM_cons, ih hrest, Json.str?_congr hvw]

/-! ### Schemas -/

theorem Assertion.holds_of_meaning {a : Assertion} {v w : Json} (hw : w.wellFormed = true)
    (h : v.meaning = w.meaning) (hv : a.holds v = true) : a.holds w = true := by
  rcases Json.eq_or_container h with rfl | ⟨items, items', rfl, rfl⟩ | ⟨fields, fields', rfl, rfl⟩
  · exact hv
  · cases a with
    | type name => cases name <;> cases hv
    | const value => simp [Assertion.holds] at hv
    | enum values =>
      obtain ⟨value, -, heq⟩ := List.any_eq_true.mp hv
      cases of_decide_eq_true heq
    | minLength | pattern | required | noAdditional => rfl
  · cases a with
    | type name =>
      cases name with
      | string => cases hv
      | object => rfl
    | const value => simp [Assertion.holds] at hv
    | enum values =>
      obtain ⟨value, -, heq⟩ := List.any_eq_true.mp hv
      cases of_decide_eq_true heq
    | minLength | pattern => rfl
    | required key =>
      have hkey : (getField fields key).isSome = true := hv
      show (getField fields' key).isSome = true
      rw [← Option.isSome_map (f := Json.meaning), ← Json.getField_of_meaning h, Option.isSome_map]
      exact hkey
    | noAdditional known =>
      have hkeys := List.all_eq_true.mp hv
      refine List.all_eq_true.mpr fun kv hkv => ?_
      obtain ⟨v, hget, -⟩ := Json.exists_member (Json.wellFormed_obj.mp hw).1 h.symm hkv
      exact hkeys (kv.1, v) (mem_of_getField hget)

theorem Schema.valid_of_meaning {schema : Schema} {v w : Json} (hw : w.wellFormed = true)
    (h : v.meaning = w.meaning) (hv : schema.Valid v) : schema.Valid w := by
  induction schema using Schema.induct generalizing v w with
  | mk assertions properties ih =>
    obtain ⟨hown, hmembers⟩ := valid_mk.mp hv
    refine valid_mk.mpr ⟨fun a ha => a.holds_of_meaning hw h (hown a ha), fun kv hkv x hx => ?_⟩
    rcases Json.eq_or_container h with rfl | ⟨items, items', rfl, rfl⟩ | ⟨fields, fields', rfl, rfl⟩
    · exact hmembers kv hkv x hx
    · cases hx
    · have hkey := Json.getField_of_meaning h kv.1
      have hx' : getField fields' kv.1 = some x := hx
      rw [hx', Option.map_some] at hkey
      obtain ⟨y, hy, hmeaning⟩ := Option.map_eq_some_iff.mp hkey
      exact ih kv hkv ((Json.wellFormed_obj.mp hw).2 _ (mem_of_getField hx')) hmeaning
        (hmembers kv hkv y hy)

end Py
