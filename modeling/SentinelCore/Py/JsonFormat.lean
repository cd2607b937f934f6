import SentinelCore.Py.JsonText
import SentinelCore.Py.JsonPairs

/-!
# `json.dumps` and its arguments

`render` is the text of `json.dumps` with the arguments of a `JsonFormat`: whether characters outside of
ASCII are escaped, whether the members of objects are sorted, the indentation and the separators. The
canonical text and the compact text are two of its cases (`render_canonical`, `render_compact`).

`ordered` is a value with its members in the order in which a format writes them; it means the same
(`meaning_ordered`), and a format that sorts nothing keeps it as it is (`ordered_eq`).
-/

namespace Py

/-- The arguments of `json.dumps`. -/
structure JsonFormat where
  ensureAscii : Bool
  sortKeys : Bool
  indent : Option ℕ
  itemSeparator : PyStr
  keySeparator : PyStr

def unitDigits (n : ℕ) : PyStr :=
  [hexDigit (n / 4096), hexDigit (n / 256 % 16), hexDigit (n / 16 % 16), hexDigit (n % 16)]

/-- `\uXXXX`. -/
def unitEscape (n : ℕ) : PyStr := chr '\\' :: chr 'u' :: unitDigits n

/-- How `json.dumps` writes one character of a string when `ensure_ascii` is on. -/
def asciiChar (c : CodePoint) : PyStr :=
  if c.val < 0x7F then escapeChar c
  else if c.val < 0x10000 then unitEscape c.val
  else
    unitEscape (0xD800 + (c.val - 0x10000) / 1024) ++ unitEscape (0xDC00 + (c.val - 0x10000) % 1024)

namespace JsonFormat

variable (f : JsonFormat)

/-- Without the argument `separators`, which then depend on the indentation. -/
def ofArgs (ensureAscii sortKeys : Bool) (indent : Option ℕ) : JsonFormat :=
  ⟨ensureAscii, sortKeys, indent, if indent = none then lit ", " else lit ",", lit ": "⟩

/-- `sort_keys=True, separators=(",", ":"), ensure_ascii=False`. -/
def canonical : JsonFormat := ⟨false, true, none, lit ",", lit ":"⟩

/-- `separators=(",", ":"), ensure_ascii=False`. -/
def compact : JsonFormat := ⟨false, false, none, lit ",", lit ":"⟩

def char (c : CodePoint) : PyStr := if f.ensureAscii then asciiChar c else escapeChar c

/-- A string after its opening quote. -/
def tail (s : PyStr) : PyStr := s.flatMap f.char ++ [chr '"']

def quote (s : PyStr) : PyStr := chr '"' :: f.tail s

/-- The line break before the items of a level. -/
def newLine (level : ℕ) : PyStr :=
  match f.indent with
  | none => []
  | some n => chr '\n' :: List.replicate (n * level) (chr ' ')

/-- The items after the first one. -/
def moreItems (level : ℕ) (items : List PyStr) : PyStr :=
  items.flatMap fun item => f.itemSeparator ++ (f.newLine (level + 1) ++ item)

/-- A container of a level with the texts of its items. -/
def block (opening closing : CodePoint) (level : ℕ) : List PyStr → PyStr
  | [] => [opening, closing]
  | item :: items =>
    opening :: (f.newLine (level + 1) ++ (item ++ (f.moreItems level items ++
      (f.newLine level ++ [closing]))))

/-- The members of an object in the order in which they are written. -/
def order {α : Type} (fields : List (PyStr × α)) : List (PyStr × α) :=
  if f.sortKeys then sortFields fields else fields

/-- A member of an object. -/
def member (kt : PyStr × PyStr) : PyStr := f.quote kt.1 ++ (f.keySeparator ++ kt.2)

section Order

variable {f} {α β : Type} {fields : List (PyStr × α)}

theorem order_perm : (f.order fields).Perm fields := by
  unfold order
  split
  · exact sortFields_perm fields
  · exact .refl _

theorem order_map (g : α → β) :
    f.order (fields.map fun kv => (kv.1, g kv.2)) = (f.order fields).map fun kv => (kv.1, g kv.2) := by
  unfold order
  split
  · exact sortFields_map g fields
  · rfl

theorem order_nodup (h : (fields.map Prod.fst).Nodup) : ((f.order fields).map Prod.fst).Nodup :=
  (order_perm.map Prod.fst).nodup_iff.mpr h

end Order

end JsonFormat

namespace Json

variable (f : JsonFormat)

mutual

/-- The text of a value that stands at a level. -/
def render (level : ℕ) : Json → PyStr
  | .null => lit "null"
  | .bool true => lit "true"
  | .bool false => lit "false"
  | .int i => intText i
  | .float x => x.text
  | .str s => f.quote s
  | .arr items => f.block (chr '[') (chr ']') level (renderItems level items)
  | .obj fields => f.block (chr '{') (chr '}') level ((f.order (renderFields level fields)).map f.member)

def renderItems (level : ℕ) : List Json → List PyStr
  | [] => []
  | v :: rest => render (level + 1) v :: renderItems level rest

def renderFields (level : ℕ) : List (PyStr × Json) → List (PyStr × PyStr)
  | [] => []
  | (k, v) :: rest => (k, render (level + 1) v) :: renderFields level rest

end

mutual

/-- The value with its members in the order in which they are written. -/
def ordered : Json → Json
  | .arr items => .arr (orderedItems items)
  | .obj fields => .obj (f.order (orderedFields fields))
  | .null => .null
  | .bool b => .bool b
  | .int i => .int i
  | .float x => .float x
  | .str s => .str s

def orderedItems : List Json → List Json
  | [] => []
  | v :: rest => ordered v :: orderedItems rest

def orderedFields : List (PyStr × Json) → List (PyStr × Json)
  | [] => []
  | (k, v) :: rest => (k, ordered v) :: orderedFields rest

end

mutual

/-- Every string of the value, keys included, satisfies `p`, and every float `q`. -/
def Atoms (p : PyStr → Prop) (q : PyFloat → Prop) : Json → Prop
  | .arr items => AtomsItems p q items
  | .obj fields => AtomsFields p q fields
  | .str s => p s
  | .float x => q x
  | .null | .bool _ | .int _ => True

def AtomsItems (p : PyStr → Prop) (q : PyFloat → Prop) : List Json → Prop
  | [] => True
  | v :: rest => Atoms p q v ∧ AtomsItems p q rest

def AtomsFields (p : PyStr → Prop) (q : PyFloat → Prop) : List (PyStr × Json) → Prop
  | [] => True
  | (k, v) :: rest => (p k ∧ Atoms p q v) ∧ AtomsFields p q rest

end

variable {f}

theorem renderItems_eq (level : ℕ) (items : List Json) :
    renderItems f level items = items.map (render f (level + 1)) := by
  induction items with
  | nil => rfl
  | cons v rest ih => exact congrArg (render f (level + 1) v :: ·) ih

theorem renderFields_eq (level : ℕ) (fields : List (PyStr × Json)) :
    renderFields f level fields = fields.map fun kv => (kv.1, render f (level + 1) kv.2) := by
  induction fields with
  | nil => rfl
  | cons kv rest ih => exact congrArg ((kv.1, render f (level + 1) kv.2) :: ·) ih

theorem orderedItems_eq (items : List Json) : orderedItems f items = items.map (ordered f) := by
  induction items with
  | nil => rfl
  | cons v rest ih => exact congrArg (ordered f v :: ·) ih

theorem orderedFields_eq (fields : List (PyStr × Json)) :
    orderedFields f fields = fields.map fun kv => (kv.1, ordered f kv.2) := by
  induction fields with
  | nil => rfl
  | cons kv rest ih => exact congrArg ((kv.1, ordered f kv.2) :: ·) ih

theorem render_arr (level : ℕ) (items : List Json) : (arr items).render f level =
    f.block (chr '[') (chr ']') level (items.map (render f (level + 1))) :=
  congrArg (f.block (chr '[') (chr ']') level) (renderItems_eq level items)

theorem render_obj (level : ℕ) (fields : List (PyStr × Json)) : (obj fields).render f level =
    f.block (chr '{') (chr '}') level
      ((f.order (fields.map fun kv => (kv.1, render f (level + 1) kv.2))).map f.member) :=
  congrArg (fun texts => f.block _ _ level ((f.order texts).map f.member)) (renderFields_eq level fields)

theorem ordered_arr (items : List Json) : (arr items).ordered f = .arr (items.map (ordered f)) :=
  congrArg arr (orderedItems_eq items)

theorem ordered_obj (fields : List (PyStr × Json)) :
    (obj fields).ordered f = .obj (f.order (fields.map fun kv => (kv.1, ordered f kv.2))) :=
  congrArg (fun texts => obj (f.order texts)) (orderedFields_eq fields)

theorem meaning_arr (items : List Json) : (arr items).meaning = .arr (items.map meaning) :=
  congrArg JsonValue.arr (meaningItems_eq items)

theorem meaning_obj (fields : List (PyStr × Json)) :
    (obj fields).meaning = .obj fun key => (getField fields key).map meaning :=
  congrArg JsonValue.obj (meaningFields_eq fields)

theorem atoms_arr {p : PyStr → Prop} {q : PyFloat → Prop} {items : List Json} :
    (arr items).Atoms p q ↔ ∀ v ∈ items, v.Atoms p q := by
  show AtomsItems p q items ↔ _
  induction items with
  | nil => exact ⟨fun _ => List.forall_mem_nil _, fun _ => trivial⟩
  | cons v rest ih =>
    rw [List.forall_mem_cons]
    exact and_congr_right fun _ => ih

theorem atoms_obj {p : PyStr → Prop} {q : PyFloat → Prop} {fields : List (PyStr × Json)} :
    (obj fields).Atoms p q ↔ ∀ kv ∈ fields, p kv.1 ∧ kv.2.Atoms p q := by
  show AtomsFields p q fields ↔ _
  induction fields with
  | nil => exact ⟨fun _ => List.forall_mem_nil _, fun _ => trivial⟩
  | cons kv rest ih =>
    rw [List.forall_mem_cons]
    exact and_congr_right fun _ => ih

theorem Atoms.mono {p p' : PyStr → Prop} {q q' : PyFloat → Prop} (hp : ∀ s, p s → p' s)
    (hq : ∀ x, q x → q' x) : ∀ v : Json, v.Atoms p q → v.Atoms p' q' := by
  intro v
  induction v using Json.induct with
  | null | bool | int => exact fun _ => trivial
  | float x => exact hq x
  | str s => exact hp s
  | arr items ih => exact fun h => atoms_arr.mpr fun v hv => ih v hv (atoms_arr.mp h v hv)
  | obj fields ih =>
    exact fun h => atoms_obj.mpr fun kv hkv =>
      ⟨hp _ (atoms_obj.mp h kv hkv).1, ih kv hkv (atoms_obj.mp h kv hkv).2⟩

theorem Atoms.and {p p' : PyStr → Prop} {q q' : PyFloat → Prop} : ∀ v : Json, v.Atoms p q → v.Atoms p' q' →
    v.Atoms (fun s => p s ∧ p' s) fun x => q x ∧ q' x := by
  intro v
  induction v using Json.induct with
  | null | bool | int => exact fun _ _ => trivial
  | float | str => exact fun h h' => ⟨h, h'⟩
  | arr items ih =>
    exact fun h h' => atoms_arr.mpr fun v hv => ih v hv (atoms_arr.mp h v hv) (atoms_arr.mp h' v hv)
  | obj fields ih =>
    intro h h'
    refine atoms_obj.mpr fun kv hkv => ?_
    have hm := atoms_obj.mp h kv hkv
    have hm' := atoms_obj.mp h' kv hkv
    exact ⟨⟨hm.1, hm'.1⟩, ih kv hkv hm.2 hm'.2⟩

/-! ## The texts of the program -/

theorem quote_ascii_off (h : f.ensureAscii = false) (s : PyStr) : f.quote s = Py.quote s := by
  unfold JsonFormat.quote JsonFormat.tail Py.quote quoteTail JsonFormat.char
  rw [h]
  rfl

/-- Without an indentation a container is its items with commas between them. -/
theorem block_joinComma (h : f.indent = none) (hcomma : f.itemSeparator = lit ",")
    (opening closing : CodePoint) (level : ℕ) (items : List PyStr) :
    f.block opening closing level items = opening :: joinComma items ++ [closing] := by
  have hline : ∀ n, f.newLine n = [] := by
    intro n
    unfold JsonFormat.newLine
    rw [h]
  have hjoin : ∀ (t : PyStr) (ts : List PyStr), joinComma (t :: ts) = t ++ f.moreItems level ts := by
    intro t ts
    unfold JsonFormat.moreItems
    induction ts generalizing t with
    | nil => simp [joinComma]
    | cons u ts ih => rw [joinComma, ih, List.flatMap_cons, hline, hcomma]; rfl
  cases items with
  | nil => rfl
  | cons t ts =>
    rw [JsonFormat.block, hline, hline, hjoin]
    simp

theorem member_compact (h : f.keySeparator = lit ":") (ha : f.ensureAscii = false) (kt : PyStr × PyStr) :
    f.member kt = memberText kt := by
  unfold JsonFormat.member memberText
  rw [quote_ascii_off ha, h]
  rfl

/-- The canonical text is that of `json.dumps` with sorted keys. -/
theorem render_canonical (v : Json) : ∀ level, v.render .canonical level = v.text := by
  induction v using induct with
  | null => exact fun _ => rfl
  | bool b => exact fun _ => by cases b <;> rfl
  | int | float => exact fun _ => rfl
  | str s => exact fun _ => quote_ascii_off rfl s
  | arr items ih =>
    intro level
    rw [render_arr, text_arr, block_joinComma rfl rfl, List.map_congr_left fun v hv => ih v hv (level + 1)]
    rfl
  | obj fields ih =>
    intro level
    have hmember : JsonFormat.canonical.member = memberText := funext fun kt => member_compact rfl rfl kt
    have htexts : (fields.map fun kv => (kv.1, kv.2.render .canonical (level + 1))) =
        fields.map fun kv => (kv.1, kv.2.text) :=
      List.map_congr_left fun kv hkv => congrArg (kv.1, ·) (ih kv hkv (level + 1))
    rw [render_obj, text_obj, block_joinComma rfl rfl, hmember, htexts, JsonFormat.order_map, List.map_map]
    rfl

theorem compactItems_eq (items : List Json) : compactItems items = items.map compactText := by
  induction items with
  | nil => rfl
  | cons v rest ih => exact congrArg (compactText v :: ·) ih

theorem compactMembers_eq (fields : List (PyStr × Json)) :
    compactMembers fields = fields.map fun kv => memberText (kv.1, kv.2.compactText) := by
  induction fields with
  | nil => rfl
  | cons kv rest ih => exact congrArg (memberText (kv.1, kv.2.compactText) :: ·) ih

theorem render_compact (v : Json) : ∀ level, v.render .compact level = v.compactText := by
  induction v using induct with
  | null => exact fun _ => rfl
  | bool b => exact fun _ => by cases b <;> rfl
  | int | float => exact fun _ => rfl
  | str s => exact fun _ => quote_ascii_off rfl s
  | arr items ih =>
    intro level
    show _ = chr '[' :: joinComma (compactItems items) ++ [chr ']']
    rw [render_arr, block_joinComma rfl rfl, compactItems_eq, List.map_congr_left fun v hv => ih v hv (level + 1)]
  | obj fields ih =>
    intro level
    have hmember : JsonFormat.compact.member = memberText := funext fun kt => member_compact rfl rfl kt
    have htexts : (fields.map fun kv => (kv.1, kv.2.render .compact (level + 1))) =
        fields.map fun kv => (kv.1, kv.2.compactText) :=
      List.map_congr_left fun kv hkv => congrArg (kv.1, ·) (ih kv hkv (level + 1))
    show _ = chr '{' :: joinComma (compactMembers fields) ++ [chr '}']
    rw [render_obj, block_joinComma rfl rfl, hmember, htexts, JsonFormat.order_map, List.map_map, compactMembers_eq]
    rfl

/-! ## The order -/

/-- A format that does not sort keeps the value. -/
theorem ordered_eq (h : f.sortKeys = false) (v : Json) : v.ordered f = v := by
  have horder : ∀ fields : List (PyStr × Json), f.order fields = fields := by
    intro fields
    unfold JsonFormat.order
    rw [h]
    rfl
  induction v using induct with
  | null | bool | int | float | str => rfl
  | arr items ih =>
    rw [ordered_arr, List.map_congr_left ih, List.map_id']
  | obj fields ih =>
    rw [ordered_obj, horder, List.map_congr_left fun kv hkv => by rw [ih kv hkv], List.map_id']

theorem wellFormed_ordered {v : Json} : v.wellFormed = true → (v.ordered f).wellFormed = true := by
  induction v using induct with
  | null | bool | int | float | str => exact id
  | arr items ih =>
    intro h
    rw [ordered_arr]
    refine wellFormed_arr.mpr (List.forall_mem_map.mpr fun v hv => ih v hv (wellFormed_arr.mp h v hv))
  | obj fields ih =>
    intro h
    obtain ⟨hn, hf⟩ := wellFormed_obj.mp h
    rw [ordered_obj]
    have hkeys : ((fields.map fun kv => (kv.1, ordered f kv.2)).map Prod.fst).Nodup := by
      rw [List.map_map]
      exact hn
    refine wellFormed_obj.mpr ⟨JsonFormat.order_nodup hkeys, fun kv hkv => ?_⟩
    obtain ⟨kv', hkv', rfl⟩ := List.mem_map.mp (JsonFormat.order_perm.mem_iff.mp hkv)
    exact ih kv' hkv' (hf kv' hkv')

/-- A value in order means the same. -/
theorem meaning_ordered {v : Json} : v.wellFormed = true → (v.ordered f).meaning = v.meaning := by
  induction v using induct with
  | null | bool | int | float | str => exact fun _ => rfl
  | arr items ih =>
    intro h
    rw [ordered_arr, meaning_arr, meaning_arr, List.map_map]
    exact congrArg _ (List.map_congr_left fun v hv => ih v hv (wellFormed_arr.mp h v hv))
  | obj fields ih =>
    intro h
    obtain ⟨hn, hf⟩ := wellFormed_obj.mp h
    have hkeys : ((fields.map fun kv => (kv.1, ordered f kv.2)).map Prod.fst).Nodup := by
      rw [List.map_map]
      exact hn
    rw [ordered_obj, meaning_obj, meaning_obj]
    refine congrArg _ (funext fun key => ?_)
    have hget : getField (f.order (fields.map fun kv => (kv.1, ordered f kv.2))) key =
        (getField fields key).map (ordered f) := by
      cases hkey : getField fields key with
      | none =>
        rw [getField_eq_none] at hkey
        refine getField_eq_none.mpr fun hmem => hkey ?_
        rwa [(JsonFormat.order_perm.map Prod.fst).mem_iff, List.map_map] at hmem
      | some v =>
        refine getField_of_mem (JsonFormat.order_nodup hkeys) (JsonFormat.order_perm.mem_iff.mpr ?_)
        exact List.mem_map.mpr ⟨(key, v), mem_of_getField hkey, rfl⟩
    rw [hget, Option.map_map]
    cases hkey : getField fields key with
    | none => rfl
    | some v => exact congrArg some (ih _ (mem_of_getField hkey) (hf _ (mem_of_getField hkey)))

/-! ## ASCII -/

section Ascii

theorem isAscii_append {s t : PyStr} : isAscii (s ++ t) = true ↔ isAscii s = true ∧ isAscii t = true := by
  unfold isAscii
  rw [List.all_append, Bool.and_eq_true]

theorem isAscii_cons {c : CodePoint} {s : PyStr} (hc : c.val < 0x80) (hs : isAscii s = true) :
    isAscii (c :: s) = true := by
  unfold isAscii
  rw [List.all_cons, Bool.and_eq_true]
  exact ⟨decide_eq_true hc, hs⟩

theorem isEncodable_of_isAscii {s : PyStr} (h : isAscii s = true) : isEncodable s = true := by
  refine List.all_eq_true.mpr fun c hc => ?_
  have hlt : c.val < 0x80 := of_decide_eq_true (List.all_eq_true.mp h c hc)
  have hnot : isSurrogate c.val = false := by
    simp only [isSurrogate, Bool.and_eq_false_iff, decide_eq_false_iff_not]
    omega
  rw [hnot]
  rfl

theorem isAscii_flatMap {α : Type} {g : α → PyStr} {l : List α} (h : ∀ a ∈ l, isAscii (g a) = true) :
    isAscii (l.flatMap g) = true := by
  refine List.all_eq_true.mpr fun c hc => ?_
  obtain ⟨a, ha, hc⟩ := List.mem_flatMap.mp hc
  exact List.all_eq_true.mp (h a ha) c hc

theorem hexDigit_lt {n : ℕ} (h : n < 16) : (hexDigit n).val < 0x80 := by
  have hall : ∀ n < 16, (hexDigit n).val < 0x80 := by decide
  exact hall n h

theorem isAscii_unitEscape {n : ℕ} (h : n < 0x10000) : isAscii (unitEscape n) = true := by
  unfold unitEscape unitDigits
  refine isAscii_cons (by decide) (isAscii_cons (by decide) (isAscii_cons (hexDigit_lt (by omega))
    (isAscii_cons (hexDigit_lt (by omega)) (isAscii_cons (hexDigit_lt (by omega))
      (isAscii_cons (hexDigit_lt (by omega)) rfl)))))

theorem isAscii_asciiChar (c : CodePoint) : isAscii (asciiChar c) = true := by
  have hc := c.isLt
  unfold asciiChar
  split_ifs with hascii hplane
  · have hall : ∀ n : Fin 0x7F, isAscii (escapeChar ⟨n.val, n.isLt.trans (by decide)⟩) = true := by decide +kernel
    exact hall ⟨c.val, hascii⟩
  · exact isAscii_unitEscape hplane
  · exact isAscii_append.mpr ⟨isAscii_unitEscape (by omega), isAscii_unitEscape (by omega)⟩

theorem isAscii_intText (i : ℤ) : isAscii (intText i) = true := by
  have hdigits : ∀ n, isAscii (digitsText n) = true := by
    refine fun n => List.all_eq_true.mpr fun c hc => decide_eq_true ?_
    have hdigit := digitsText_isDigit n c hc
    simp only [isAsciiDigit, Bool.and_eq_true, decide_eq_true_eq] at hdigit
    omega
  unfold intText
  split_ifs
  · exact isAscii_cons (by decide) (hdigits _)
  · exact hdigits _

theorem isAscii_quote (h : f.ensureAscii = true) (s : PyStr) : isAscii (f.quote s) = true := by
  refine isAscii_cons (by decide) (isAscii_append.mpr ⟨isAscii_flatMap fun c _ => ?_, rfl⟩)
  unfold JsonFormat.char
  rw [if_pos h]
  exact isAscii_asciiChar c

theorem isAscii_newLine (level : ℕ) : isAscii (f.newLine level) = true := by
  unfold JsonFormat.newLine
  cases f.indent with
  | none => rfl
  | some n =>
    refine isAscii_cons (by decide) (List.all_eq_true.mpr fun c hc => ?_)
    rw [List.eq_of_mem_replicate hc]
    rfl

theorem isAscii_block (hitem : isAscii f.itemSeparator = true) {opening closing : CodePoint}
    (ho : opening.val < 0x80) (hc : closing.val < 0x80) (level : ℕ) {items : List PyStr} (h : ∀ t ∈ items, isAscii t = true) :
    isAscii (f.block opening closing level items) = true := by
  cases items with
  | nil => exact isAscii_cons ho (isAscii_cons hc rfl)
  | cons t ts =>
    obtain ⟨ht, hts⟩ := List.forall_mem_cons.mp h
    refine isAscii_cons ho (isAscii_append.mpr ⟨isAscii_newLine _, isAscii_append.mpr ⟨ht,
      isAscii_append.mpr ⟨isAscii_flatMap fun u hu => ?_,
        isAscii_append.mpr ⟨isAscii_newLine _, isAscii_cons hc rfl⟩⟩⟩⟩)
    exact isAscii_append.mpr ⟨hitem, isAscii_append.mpr ⟨isAscii_newLine _, hts u hu⟩⟩

/-- A text is ASCII when everything outside of it is escaped, if the floats and the separators are. -/
theorem isAscii_render (h : f.ensureAscii = true) (hitem : isAscii f.itemSeparator = true)
    (hkey : isAscii f.keySeparator = true) {v : Json} :
    v.Atoms (fun _ => True) (fun x => isAscii x.text = true) → ∀ level, isAscii (v.render f level) = true := by
  induction v using induct with
  | null => exact fun _ _ => rfl
  | bool b => exact fun _ _ => by cases b <;> rfl
  | int i => exact fun _ _ => isAscii_intText i
  | float x => exact fun hx _ => hx
  | str s => exact fun _ _ => isAscii_quote h s
  | arr items ih =>
    intro hatoms level
    rw [render_arr]
    refine isAscii_block hitem (by decide) (by decide) level fun t ht => ?_
    obtain ⟨v, hv, rfl⟩ := List.mem_map.mp ht
    exact ih v hv (atoms_arr.mp hatoms v hv) (level + 1)
  | obj fields ih =>
    intro hatoms level
    rw [render_obj]
    refine isAscii_block hitem (by decide) (by decide) level fun t ht => ?_
    obtain ⟨kt, hkt, rfl⟩ := List.mem_map.mp ht
    obtain ⟨kv, hkv, rfl⟩ := List.mem_map.mp (JsonFormat.order_perm.mem_iff.mp hkt)
    exact isAscii_append.mpr ⟨isAscii_quote h kv.1, isAscii_append.mpr
      ⟨hkey, ih kv hkv (atoms_obj.mp hatoms kv hkv).2 (level + 1)⟩⟩

end Ascii

end Json

/-- `json.dumps(value, …)` with the arguments of the format. -/
def Runtime.dumpsWith (rt : Runtime) (f : JsonFormat) (v : Json) : Except PyExc PyStr := do
  rt.checkLimits v
  return v.render f 0

theorem Runtime.dumpsWith_eq_ok {rt : Runtime} {f : JsonFormat} {v : Json} {t : PyStr} :
    rt.dumpsWith f v = .ok t ↔ rt.checkLimits v = .ok () ∧ v.render f 0 = t := by
  unfold Runtime.dumpsWith
  cases rt.checkLimits v with
  | error e => simp [bind, Except.bind]
  | ok u => simp [bind, Except.bind, pure, Except.pure]

/-- The canonical text is what `json.dumps` gives with the canonical arguments. -/
theorem Runtime.dumpsWith_canonical (rt : Runtime) (v : Json) : rt.dumpsWith .canonical v = rt.dumps v := by
  unfold Runtime.dumpsWith Runtime.dumps
  rw [Json.render_canonical]

end Py
