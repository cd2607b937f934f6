import SentinelCore.Py.JsonDecoder

/-!
# The canonical text determines the value

`JsonValue` is a JSON value with its objects read as maps: `v.meaning` forgets the order in which the
members of an object stand. `text_eq_iff` says that two well-formed values have the same canonical
text exactly when they mean the same.

1. Every text is recognisable from its first character (`textTag`), and a number ends where the
   first delimiter stands (`token_append_inj`).
2. A string literal ends at its closing quote: one escaped character can be read back
   (`scanChar_escapeChar`), so two literals with the same text spell the same string.
3. By induction on the value, a text followed by a delimiter determines the value's meaning and
   what follows (`text_append_inj`).
4. Conversely the sorted members of an object depend on its meaning only (`sortFields_eq`).
-/

namespace Py

/-! ## Values with objects as maps -/

inductive JsonValue where
  | null
  | bool (b : Bool)
  | int (i : ℤ)
  | float (x : PyFloat)
  | str (s : PyStr)
  | arr (items : List JsonValue)
  | obj (members : PyStr → Option JsonValue)

namespace Json

mutual

/-- The value a JSON text stands for. -/
def meaning : Json → JsonValue
  | .null => .null
  | .bool b => .bool b
  | .int i => .int i
  | .float x => .float x
  | .str s => .str s
  | .arr items => .arr (meaningItems items)
  | .obj fields => .obj (meaningFields fields)

def meaningItems : List Json → List JsonValue
  | [] => []
  | v :: rest => meaning v :: meaningItems rest

def meaningFields : List (PyStr × Json) → PyStr → Option JsonValue
  | [], _ => none
  | (k, v) :: rest, key => if k = key then some (meaning v) else meaningFields rest key

end

theorem meaningItems_eq (items : List Json) : meaningItems items = items.map meaning := by
  induction items with
  | nil => rfl
  | cons v rest ih => rw [meaningItems, ih, List.map_cons]

theorem meaningFields_eq (fields : List (PyStr × Json)) :
    meaningFields fields = fun key => (getField fields key).map meaning := by
  funext key
  induction fields with
  | nil => rfl
  | cons kv rest ih =>
    rw [meaningFields, getField, ih]
    split_ifs <;> rfl

end Json

/-! ## Sorted members -/

section Members

variable {α β : Type}

theorem sortFields_perm (fields : List (PyStr × α)) : (sortFields fields).Perm fields :=
  List.perm_insertionSort _ _

theorem sortFields_map (f : α → β) (fields : List (PyStr × α)) :
    sortFields (fields.map fun kv => (kv.1, f kv.2)) =
      (sortFields fields).map fun kv => (kv.1, f kv.2) :=
  (List.map_insertionSort (fun a b : PyStr × α => a.1 ≤ b.1) (fun a b : PyStr × β => a.1 ≤ b.1)
    (fun kv => (kv.1, f kv.2)) fields fun _ _ _ _ => Iff.rfl).symm

theorem sortFields_pairwise (fields : List (PyStr × α)) :
    (sortFields fields).Pairwise fun a b => a.1 ≤ b.1 := by
  have : Std.Total (fun a b : PyStr × α => a.1 ≤ b.1) := ⟨fun a b => le_total a.1 b.1⟩
  have : IsTrans (PyStr × α) (fun a b => a.1 ≤ b.1) := ⟨fun _ _ _ h h' => h.trans h'⟩
  exact List.pairwise_insertionSort _ fields

/-- Members with distinct keys are sorted in one way only. -/
theorem sortFields_eq_of_perm {fields fields' : List (PyStr × α)}
    (hn : (fields.map Prod.fst).Nodup) (h : fields.Perm fields') :
    sortFields fields = sortFields fields' := by
  refine @List.Perm.eq_of_pairwise _ (fun a b => a.1 ≤ b.1) _ _ ?_ (sortFields_pairwise fields)
    (sortFields_pairwise fields')
    ((sortFields_perm fields).trans (h.trans (sortFields_perm fields').symm))
  intro a b ha hb hab hba
  have ha' := (sortFields_perm fields).mem_iff.mp ha
  have hb' := h.mem_iff.mpr ((sortFields_perm fields').mem_iff.mp hb)
  exact List.inj_on_of_nodup_map hn ha' hb' (le_antisymm hab hba)

end Members

/-! ## Tokens -/

def isDelimiter (c : CodePoint) : Bool := c = chr ',' || c = chr ']' || c = chr '}'

/-- The text ends or goes on with a delimiter. -/
def Delimited (r : PyStr) : Prop := ∀ c ∈ r.head?, isDelimiter c = true

theorem delimited_cons {c : CodePoint} {r : PyStr} (h : isDelimiter c = true) :
    Delimited (c :: r) := by
  intro d hd
  obtain rfl : c = d := by simpa using hd
  exact h

/-- A token without delimiters ends at the first delimiter. -/
theorem token_append_inj {a b r r' : PyStr} (ha : ∀ c ∈ a, isDelimiter c = false)
    (hb : ∀ c ∈ b, isDelimiter c = false) (hr : Delimited r) (hr' : Delimited r')
    (h : a ++ r = b ++ r') : a = b ∧ r = r' := by
  induction a generalizing b with
  | nil =>
    cases b with
    | nil => exact ⟨rfl, h⟩
    | cons c b =>
      have h1 := hr c (by rw [← List.nil_append r, h]; rfl)
      rw [hb c List.mem_cons_self] at h1
      cases h1
  | cons c a ih =>
    cases b with
    | nil =>
      have h1 := hr' c (by rw [← List.nil_append r', ← h]; rfl)
      rw [ha c List.mem_cons_self] at h1
      cases h1
    | cons d b =>
      rw [List.cons_append, List.cons_append, List.cons.injEq] at h
      obtain ⟨rfl, h⟩ := h
      obtain ⟨rfl, hrest⟩ := ih (fun x hx => ha x (List.mem_cons_of_mem _ hx))
        (fun x hx => hb x (List.mem_cons_of_mem _ hx)) h
      exact ⟨rfl, hrest⟩

/-! ### Integers -/

theorem digitsText_isDigit (n : ℕ) : ∀ c ∈ digitsText n, isAsciiDigit c = true := by
  intro c hc
  obtain ⟨d, hd, rfl⟩ := List.mem_map.mp hc
  have h := Nat.isDigit_of_mem_toDigits (by decide) (by decide) hd
  simp only [Char.isDigit, ge_iff_le, Bool.and_eq_true, decide_eq_true_eq] at h
  rw [isAsciiDigit, Bool.and_eq_true, decide_eq_true_eq, decide_eq_true_eq]
  exact h

theorem digitsText_ne_nil (n : ℕ) : digitsText n ≠ [] := by
  unfold digitsText
  rw [Nat.toDigits_eq_if (by decide)]
  split_ifs <;> simp

theorem digitsValue_append (s : PyStr) (c : CodePoint) :
    digitsValue (s ++ [c]) = digitsValue s * 10 + (c.val - 0x30) := by
  unfold digitsValue
  rw [List.foldl_append, List.foldl_cons, List.foldl_nil]

theorem chr_digitChar : ∀ n < 10, (chr n.digitChar).val - 0x30 = n := by decide

/-- Reading the digits of a number back gives the number. -/
theorem digitsValue_digitsText (n : ℕ) : digitsValue (digitsText n) = n := by
  induction n using Nat.strong_induction_on with
  | _ n ih =>
    unfold digitsText
    rw [Nat.toDigits_eq_if (by decide)]
    split_ifs with h
    · have := chr_digitChar n h
      simpa [digitsValue] using this
    · rw [List.map_append, List.map_cons, List.map_nil, digitsValue_append, ← digitsText,
        ih (n / 10) (by omega), chr_digitChar _ (Nat.mod_lt _ (by decide))]
      omega

theorem digitsText_injective : Function.Injective digitsText := by
  intro a b h
  rw [← digitsValue_digitsText a, h, digitsValue_digitsText]

theorem minus_not_digit : isAsciiDigit (chr '-') = false := by decide

theorem digitsText_ne_minus (n : ℕ) (t : PyStr) : digitsText n ≠ chr '-' :: t := by
  intro h
  have := digitsText_isDigit n (chr '-') (by rw [h]; exact List.mem_cons_self)
  rw [minus_not_digit] at this
  cases this

theorem intText_injective : Function.Injective intText := by
  intro a b h
  unfold intText at h
  split_ifs at h with ha hb hb
  · have := digitsText_injective (List.cons.inj h).2
    omega
  · exact absurd h.symm (digitsText_ne_minus _ _)
  · exact absurd h (digitsText_ne_minus _ _)
  · have := digitsText_injective h
    omega

theorem intText_chars (i : ℤ) : ∀ c ∈ intText i, isAsciiDigit c = true ∨ c = chr '-' := by
  intro c hc
  unfold intText at hc
  split_ifs at hc
  · rcases List.mem_cons.mp hc with rfl | hc
    · exact .inr rfl
    · exact .inl (digitsText_isDigit _ c hc)
  · exact .inl (digitsText_isDigit _ c hc)

theorem not_delimiter_of_digit {c : CodePoint} (h : isAsciiDigit c = true) :
    isDelimiter c = false := by
  simp only [isAsciiDigit, Bool.and_eq_true, decide_eq_true_eq] at h
  have hne : ∀ d : Char, (chr d).val < 0x30 ∨ 0x39 < (chr d).val → c ≠ chr d := by
    rintro d hd rfl
    omega
  simp [isDelimiter, hne ',' (by decide), hne ']' (by decide), hne '}' (by decide)]

theorem intText_not_delimiter (i : ℤ) : ∀ c ∈ intText i, isDelimiter c = false := by
  intro c hc
  rcases intText_chars i c hc with h | rfl
  · exact not_delimiter_of_digit h
  · decide

/-! ### Floats -/

theorem isFloatText_cases {t : PyStr} (h : isFloatText t = true) :
    t = lit "NaN" ∨ t = lit "Infinity" ∨ t = lit "-Infinity" ∨
      ((∀ c ∈ t, isAsciiDigit c = true ∨ c ∈ lit "-+.e") ∧
        (∃ c u, t = c :: u ∧ (isAsciiDigit c = true ∨ c = chr '-')) ∧
        ∃ c ∈ t, c = chr '.' ∨ c = chr 'e') := by
  simp only [isFloatText, Bool.or_eq_true, Bool.and_eq_true, decide_eq_true_eq, List.all_eq_true,
    List.any_eq_true, or_assoc] at h
  rcases h with h | h | h | ⟨⟨h1, h2⟩, h3⟩
  · exact .inl h
  · exact .inr (.inl h)
  · exact .inr (.inr (.inl h))
  · refine .inr (.inr (.inr ⟨fun c hc => ?_, ?_, h3⟩))
    · rcases h1 c hc with h | rfl | rfl | rfl | rfl
      · exact .inl h
      all_goals exact .inr (by decide)
    · cases t with
      | nil => simp at h2
      | cons c u => exact ⟨c, u, rfl, by simpa using h2⟩

theorem float_not_delimiter (x : PyFloat) : ∀ c ∈ x.text, isDelimiter c = false := by
  intro c hc
  have key : ∀ s : PyStr, (s.all fun c => !isDelimiter c) = true → c ∈ s →
      isDelimiter c = false := fun s hs hc => by simpa using List.all_eq_true.mp hs c hc
  rcases isFloatText_cases x.shape with h | h | h | ⟨h, -, -⟩
  · exact key _ (by decide) (h ▸ hc)
  · exact key _ (by decide) (h ▸ hc)
  · exact key _ (by decide) (h ▸ hc)
  · rcases h c hc with h | h
    · exact not_delimiter_of_digit h
    · exact key _ (by decide) h

theorem intText_ne_float (i : ℤ) (x : PyFloat) : intText i ≠ x.text := by
  intro h
  have hch : ∀ c ∈ x.text, isAsciiDigit c = true ∨ c = chr '-' := h ▸ intText_chars i
  -- every float text has a character that no integer text has
  have hodd : ∃ c ∈ x.text, c = chr 'N' ∨ c = chr 'I' ∨ c = chr '.' ∨ c = chr 'e' := by
    rcases isFloatText_cases x.shape with h | h | h | ⟨-, -, c, hc, h⟩
    · exact ⟨chr 'N', by rw [h]; decide, .inl rfl⟩
    · exact ⟨chr 'I', by rw [h]; decide, .inr (.inl rfl)⟩
    · exact ⟨chr 'I', by rw [h]; decide, .inr (.inl rfl)⟩
    · exact ⟨c, hc, .inr (.inr h)⟩
  obtain ⟨c, hc, h⟩ := hodd
  have := hch c hc
  rcases h with rfl | rfl | rfl | rfl <;> revert this <;> decide

/-! ## String literals -/

theorem hexValue_hexDigit : ∀ n < 16, hexValue (hexDigit n) = some n := by decide

/-- One written character can be read back. -/
theorem scanChar_escapeChar (c : CodePoint) (rest : PyStr) :
    scanChar (escapeChar c ++ rest) = some (c, rest) := by
  have hbs : ∀ t, scanChar (chr '\\' :: t) = scanEscape t := fun t => by
    rw [scanChar, if_pos rfl]
  unfold escapeChar
  split_ifs with h1 h2 h3 h4 h5 h6 h7 h8
  · subst h1; rw [List.cons_append, hbs]; rfl
  · subst h2; rw [List.cons_append, hbs]; rfl
  · subst h3; rw [List.cons_append, hbs]; rfl
  · subst h4; rw [List.cons_append, hbs]; rfl
  · subst h5; rw [List.cons_append, hbs]; rfl
  · obtain rfl : c = 0x0C := Fin.ext h6
    rw [List.cons_append, hbs]; rfl
  · obtain rfl : c = 0x08 := Fin.ext h7
    rw [List.cons_append, hbs]; rfl
  · have hunit : scanUnit (chr '0' :: chr '0' :: hexDigit (c.val / 16) ::
        hexDigit (c.val % 16) :: rest) = some (c, rest) := by
      have hhex : scanHex4 (chr '0' :: chr '0' :: hexDigit (c.val / 16) ::
          hexDigit (c.val % 16) :: rest) = some (c.val, rest) := by
        rw [scanHex4, hexValue_hexDigit _ (by omega), hexValue_hexDigit _ (by omega),
          show hexValue (chr '0') = some 0 by decide]
        simp only [Option.bind_eq_bind, Option.bind_some, Option.pure_def, Option.some.injEq,
          Prod.mk.injEq, and_true]
        omega
      have hlow : isHighSurrogate c.val = false := by
        simp only [isHighSurrogate, Bool.and_eq_false_iff, decide_eq_false_iff_not]; omega
      rw [scanUnit, hhex]
      simp [hlow, point_val]
    rw [List.cons_append, hbs]
    exact hunit
  · rw [List.cons_append, scanChar, if_neg h2, if_neg h8]; rfl

theorem escapeChar_head (c : CodePoint) :
    ∃ d t, escapeChar c = d :: t ∧ d ≠ chr '"' := by
  unfold escapeChar
  split_ifs with h1
  all_goals first
    | exact ⟨_, _, rfl, by decide⟩
    | exact ⟨_, _, rfl, h1⟩

/-- A string literal ends at its closing quote. -/
theorem quoteTail_append_inj {s t r r' : PyStr} (h : quoteTail s ++ r = quoteTail t ++ r') :
    s = t ∧ r = r' := by
  have hcons : ∀ (c : CodePoint) (s r : PyStr),
      quoteTail (c :: s) ++ r = escapeChar c ++ (quoteTail s ++ r) := by
    intro c s r
    simp [quoteTail, List.append_assoc]
  induction s generalizing t with
  | nil =>
    cases t with
    | nil => exact ⟨rfl, (List.cons.inj h).2⟩
    | cons d t =>
      obtain ⟨e, u, he, hne⟩ := escapeChar_head d
      rw [hcons, he] at h
      exact absurd (List.cons.inj h).1.symm hne
  | cons c s ih =>
    cases t with
    | nil =>
      obtain ⟨e, u, he, hne⟩ := escapeChar_head c
      rw [hcons, he] at h
      exact absurd (List.cons.inj h).1 hne
    | cons d t =>
      rw [hcons, hcons] at h
      have h' := congrArg scanChar h
      rw [scanChar_escapeChar, scanChar_escapeChar, Option.some.injEq, Prod.mk.injEq] at h'
      obtain ⟨rfl, h'⟩ := h'
      obtain ⟨rfl, hr⟩ := ih h'
      exact ⟨rfl, hr⟩

theorem quote_append_inj {s t r r' : PyStr} (h : quote s ++ r = quote t ++ r') :
    s = t ∧ r = r' :=
  quoteTail_append_inj (List.cons.inj h).2

/-! ## Separated lists -/

/-- What follows the first element of a list, up to its closing bracket and beyond. -/
def joinTail (close : CodePoint) (r : PyStr) : List PyStr → PyStr
  | [] => close :: r
  | t :: ts => chr ',' :: (joinComma (t :: ts) ++ close :: r)

theorem joinComma_cons (t : PyStr) (ts : List PyStr) (close : CodePoint) (r : PyStr) :
    joinComma (t :: ts) ++ close :: r = t ++ joinTail close r ts := by
  cases ts with
  | nil => rfl
  | cons u ts => simp [joinComma, joinTail, List.append_assoc]

section Lists

variable {α β : Type} {text : α → PyStr} {meaning : α → β} {close : CodePoint}
  (hclose : isDelimiter close = true) (hcomma : close ≠ chr ',')
  (hhead : ∀ x, ∃ c t, text x = c :: t ∧ c ≠ close)

include hclose in
theorem joinTail_delimited (r : PyStr) (ts : List PyStr) : Delimited (joinTail close r ts) := by
  cases ts with
  | nil => exact delimited_cons hclose
  | cons t ts => exact delimited_cons (by decide)

variable (text meaning close) in
include hclose hcomma hhead in
/-- A list of self-delimiting texts determines what its elements mean. -/
theorem joinComma_append_inj {xs ys : List α} {r r' : PyStr}
    (hinj : ∀ x ∈ xs, ∀ y ∈ ys, ∀ u u', Delimited u → Delimited u' →
      text x ++ u = text y ++ u' → meaning x = meaning y ∧ u = u')
    (h : joinComma (xs.map text) ++ close :: r = joinComma (ys.map text) ++ close :: r') :
    xs.map meaning = ys.map meaning ∧ r = r' := by
  induction xs generalizing ys with
  | nil =>
    cases ys with
    | nil => exact ⟨rfl, (List.cons.inj h).2⟩
    | cons y ys =>
      obtain ⟨c, t, hc, hne⟩ := hhead y
      rw [List.map_cons, joinComma_cons, hc] at h
      exact absurd (List.cons.inj h).1.symm hne
  | cons x xs ih =>
    cases ys with
    | nil =>
      obtain ⟨c, t, hc, hne⟩ := hhead x
      rw [List.map_cons, joinComma_cons, hc] at h
      exact absurd (List.cons.inj h).1 hne
    | cons y ys =>
      rw [List.map_cons, List.map_cons, joinComma_cons, joinComma_cons] at h
      obtain ⟨hxy, htail⟩ := hinj x List.mem_cons_self y List.mem_cons_self _ _
        (joinTail_delimited hclose _ _) (joinTail_delimited hclose _ _) h
      have hsub : ∀ x ∈ xs, ∀ y ∈ ys, ∀ u u', Delimited u → Delimited u' →
          text x ++ u = text y ++ u' → meaning x = meaning y ∧ u = u' := fun x hx y hy =>
        hinj x (List.mem_cons_of_mem _ hx) y (List.mem_cons_of_mem _ hy)
      have hrest : joinComma (xs.map text) ++ close :: r =
          joinComma (ys.map text) ++ close :: r' := by
        cases xs with
        | nil =>
          cases ys with
          | nil => exact htail
          | cons y' ys => exact absurd (List.cons.inj htail).1 hcomma
        | cons x' xs =>
          cases ys with
          | nil => exact absurd (List.cons.inj htail).1.symm hcomma
          | cons y' ys => exact (List.cons.inj htail).2
      obtain ⟨hmap, hr⟩ := ih hsub hrest
      exact ⟨by rw [List.map_cons, List.map_cons, hxy, hmap], hr⟩

end Lists

/-! ## The text determines the meaning -/

/-- The kind of value that starts with a character; no value starts with a delimiter. -/
def charTag (c : CodePoint) : ℕ :=
  if c = chr 'n' then 0
  else if c = chr 't' || c = chr 'f' then 1
  else if c = chr '"' then 3
  else if c = chr '[' then 4
  else if c = chr '{' then 5
  else if isDelimiter c then 6
  else 2

namespace Json

def tag : Json → ℕ
  | .null => 0
  | .bool _ => 1
  | .int _ | .float _ => 2
  | .str _ => 3
  | .arr _ => 4
  | .obj _ => 5

theorem text_obj (fields : List (PyStr × Json)) :
    (obj fields).text = chr '{' :: (joinComma ((sortFields fields).map fun kv =>
      memberText (kv.1, kv.2.text)) ++ [chr '}']) := by
  rw [text, fieldTexts_eq, sortFields_map, List.map_map]
  rfl

theorem text_arr (items : List Json) :
    (arr items).text = chr '[' :: (joinComma (items.map text) ++ [chr ']']) := by
  rw [text, itemTexts_eq]
  rfl

end Json

theorem charTag_of_digit {c : CodePoint} (h : isAsciiDigit c = true) : charTag c = 2 := by
  have hd := not_delimiter_of_digit h
  simp only [isAsciiDigit, Bool.and_eq_true, decide_eq_true_eq] at h
  have hne : ∀ d : Char, (chr d).val < 0x30 ∨ 0x39 < (chr d).val → c ≠ chr d := by
    rintro d hd rfl
    omega
  simp [charTag, hne 'n' (by decide), hne 't' (by decide), hne 'f' (by decide),
    hne '"' (by decide), hne '[' (by decide), hne '{' (by decide), hd]

namespace Json

/-- The first character of a text tells the kind of the value. -/
theorem text_head (v : Json) : ∃ c t, v.text = c :: t ∧ charTag c = v.tag := by
  cases v with
  | null => exact ⟨_, _, rfl, by decide⟩
  | bool b => cases b <;> exact ⟨_, _, rfl, by decide⟩
  | int i =>
    rw [text, intText]
    split_ifs
    · exact ⟨_, _, rfl, by rw [tag]; decide⟩
    · obtain ⟨c, t, ht⟩ := List.exists_cons_of_ne_nil (digitsText_ne_nil i.natAbs)
      refine ⟨c, t, ht, charTag_of_digit ?_⟩
      exact digitsText_isDigit i.natAbs c (by rw [ht]; exact List.mem_cons_self)
  | float x =>
    rw [text, tag]
    rcases isFloatText_cases x.shape with h | h | h | ⟨-, ⟨c, t, h, hc⟩, -⟩
    · exact ⟨_, _, h, by decide⟩
    · exact ⟨_, _, h, by decide⟩
    · exact ⟨_, _, h, by decide⟩
    · refine ⟨c, t, h, ?_⟩
      rcases hc with hc | rfl
      · exact charTag_of_digit hc
      · decide
  | str s => exact ⟨_, _, rfl, by rw [tag]; decide⟩
  | arr items => exact ⟨_, _, text_arr items, by rw [tag]; decide⟩
  | obj fields => exact ⟨_, _, text_obj fields, by rw [tag]; decide⟩

theorem tag_eq_of_text {v w : Json} {r r' : PyStr} (h : v.text ++ r = w.text ++ r') :
    v.tag = w.tag := by
  obtain ⟨c, t, hv, hc⟩ := text_head v
  obtain ⟨d, u, hw, hd⟩ := text_head w
  rw [hv, hw] at h
  rw [← hc, ← hd, (List.cons.inj h).1]

theorem getField_sortFields {fields : List (PyStr × Json)}
    (hn : (fields.map Prod.fst).Nodup) (key : PyStr) :
    getField (sortFields fields) key = getField fields key := by
  have hn' : ((sortFields fields).map Prod.fst).Nodup :=
    ((sortFields_perm fields).map Prod.fst).nodup_iff.mpr hn
  cases h : getField fields key with
  | some v => exact getField_of_mem hn' ((sortFields_perm fields).mem_iff.mpr (mem_of_getField h))
  | none =>
    rw [getField_eq_none] at h ⊢
    rwa [((sortFields_perm fields).map Prod.fst).mem_iff]

theorem meaning_obj_of_sorted {fields fields' : List (PyStr × Json)}
    (hn : (fields.map Prod.fst).Nodup) (hn' : (fields'.map Prod.fst).Nodup)
    (h : (sortFields fields).map (fun kv => (kv.1, kv.2.meaning)) =
      (sortFields fields').map fun kv => (kv.1, kv.2.meaning)) :
    (obj fields).meaning = (obj fields').meaning := by
  have key : ∀ (l : List (PyStr × Json)) (k : PyStr), (getField l k).map meaning =
      ((l.map fun kv => (kv.1, kv.2.meaning)).find? fun kv => kv.1 = k).map Prod.snd := by
    intro l k
    induction l with
    | nil => rfl
    | cons kv l ih =>
      rw [getField, List.map_cons, List.find?_cons]
      by_cases hk : kv.1 = k <;> simp [hk, ih]
  rw [meaning, meaning, meaningFields_eq, meaningFields_eq]
  congr 1
  funext k
  rw [← getField_sortFields hn, ← getField_sortFields hn', key, key, h]

/-- **A text determines the meaning** of its value and where it ends. -/
theorem text_append_inj : ∀ v w : Json, v.wellFormed = true → w.wellFormed = true →
    ∀ r r', Delimited r → Delimited r' → v.text ++ r = w.text ++ r' →
      v.meaning = w.meaning ∧ r = r' := by
  intro v
  induction v using Json.induct with
  | null =>
    intro w _ _ r r' _ _ h
    cases w with
    | null => exact ⟨rfl, List.append_cancel_left h⟩
    | _ => cases tag_eq_of_text h
  | bool b =>
    intro w _ _ r r' _ _ h
    cases w with
    | bool b' =>
      cases b <;> cases b'
      · exact ⟨rfl, List.append_cancel_left h⟩
      · exact absurd (List.cons.inj h).1 (by decide)
      · exact absurd (List.cons.inj h).1 (by decide)
      · exact ⟨rfl, List.append_cancel_left h⟩
    | _ => cases tag_eq_of_text h
  | int i =>
    intro w _ _ r r' hr hr' h
    cases w with
    | int j =>
      obtain ⟨hij, hrr⟩ := token_append_inj (intText_not_delimiter i) (intText_not_delimiter j)
        hr hr' h
      exact ⟨by rw [intText_injective hij], hrr⟩
    | float x =>
      obtain ⟨hij, -⟩ := token_append_inj (intText_not_delimiter i) (float_not_delimiter x)
        hr hr' h
      exact absurd hij (intText_ne_float i x)
    | _ => cases tag_eq_of_text h
  | float x =>
    intro w _ _ r r' hr hr' h
    cases w with
    | int j =>
      obtain ⟨hij, -⟩ := token_append_inj (float_not_delimiter x) (intText_not_delimiter j)
        hr hr' h
      exact absurd hij.symm (intText_ne_float j x)
    | float y =>
      obtain ⟨hxy, hrr⟩ := token_append_inj (float_not_delimiter x) (float_not_delimiter y)
        hr hr' h
      obtain ⟨xt, hx⟩ := x
      obtain rfl : xt = y.text := hxy
      exact ⟨rfl, hrr⟩
    | _ => cases tag_eq_of_text h
  | str s =>
    intro w _ _ r r' _ _ h
    cases w with
    | str t =>
      obtain ⟨rfl, hrr⟩ := quote_append_inj h
      exact ⟨rfl, hrr⟩
    | _ => cases tag_eq_of_text h
  | arr items ih =>
    intro w hv hw r r' _ _ h
    cases w with
    | arr items' =>
      rw [wellFormed_arr] at hv hw
      rw [text_arr, text_arr, List.cons_append, List.cons_append, List.append_assoc,
        List.append_assoc] at h
      obtain ⟨hmap, hrr⟩ := joinComma_append_inj text meaning (chr ']') (by decide) (by decide)
        (fun x => by
          obtain ⟨c, t, hc, htag⟩ := text_head x
          refine ⟨c, t, hc, fun e => ?_⟩
          subst e
          cases x <;> exact absurd htag (by rw [tag]; decide))
        (fun x hx y hy u u' hu hu' => ih x hx y (hv x hx) (hw y hy) u u' hu hu')
        (List.cons.inj h).2
      exact ⟨by rw [meaning, meaning, meaningItems_eq, meaningItems_eq, hmap], hrr⟩
    | _ => cases tag_eq_of_text h
  | obj fields ih =>
    intro w hv hw r r' _ _ h
    cases w with
    | obj fields' =>
      rw [wellFormed_obj] at hv hw
      rw [text_obj, text_obj, List.cons_append, List.cons_append, List.append_assoc,
        List.append_assoc] at h
      obtain ⟨hmap, hrr⟩ := joinComma_append_inj
        (fun kv : PyStr × Json => memberText (kv.1, kv.2.text))
        (fun kv : PyStr × Json => (kv.1, kv.2.meaning)) (chr '}') (by decide) (by decide)
        (fun x => ⟨chr '"', _, rfl, by decide⟩)
        (fun x hx y hy u u' hu hu' huu => by
          have hx' := (sortFields_perm fields).mem_iff.mp hx
          have hy' := (sortFields_perm fields').mem_iff.mp hy
          dsimp only [memberText] at huu
          rw [List.append_assoc, List.append_assoc] at huu
          obtain ⟨hk, huu⟩ := quote_append_inj huu
          obtain ⟨hm, huu⟩ := ih x hx' y.2 (hv.2 x hx') (hw.2 y hy') u u' hu hu'
            (List.cons.inj huu).2
          exact ⟨Prod.ext hk hm, huu⟩)
        (List.cons.inj h).2
      exact ⟨meaning_obj_of_sorted hv.1 hw.1 hmap, hrr⟩
    | _ => cases tag_eq_of_text h

/-! ## The meaning determines the text -/

theorem map_eq_of_map_eq {α β γ : Type} {f : α → β} {g : α → γ} {xs ys : List α}
    (hfg : ∀ x ∈ xs, ∀ y ∈ ys, f x = f y → g x = g y) (h : xs.map f = ys.map f) :
    xs.map g = ys.map g := by
  induction xs generalizing ys with
  | nil =>
    cases ys with
    | nil => rfl
    | cons y ys => cases h
  | cons x xs ih =>
    cases ys with
    | nil => cases h
    | cons y ys =>
      rw [List.map_cons, List.map_cons, List.cons.injEq] at h
      rw [List.map_cons, List.map_cons, hfg x List.mem_cons_self y List.mem_cons_self h.1,
        ih (fun x hx y hy => hfg x (List.mem_cons_of_mem _ hx) y (List.mem_cons_of_mem _ hy)) h.2]

theorem mem_fieldTexts {fields : List (PyStr × Json)} (hn : (fields.map Prod.fst).Nodup)
    {kt : PyStr × PyStr} :
    kt ∈ fieldTexts fields ↔ ∃ v, getField fields kt.1 = some v ∧ v.text = kt.2 := by
  rw [fieldTexts_eq, List.mem_map]
  constructor
  · rintro ⟨kv, hkv, rfl⟩
    exact ⟨kv.2, getField_of_mem hn hkv, rfl⟩
  · rintro ⟨v, hv, ht⟩
    exact ⟨(kt.1, v), mem_of_getField hv, Prod.ext rfl ht⟩

theorem fieldTexts_keys (fields : List (PyStr × Json)) :
    (fieldTexts fields).map Prod.fst = fields.map Prod.fst := by
  rw [fieldTexts_eq, List.map_map]
  rfl

theorem text_of_meaning : ∀ v w : Json, v.wellFormed = true → w.wellFormed = true →
    v.meaning = w.meaning → v.text = w.text := by
  intro v
  induction v using Json.induct with
  | arr items ih =>
    intro w hv hw h
    cases w with
    | arr items' =>
      rw [wellFormed_arr] at hv hw
      rw [meaning, meaning, meaningItems_eq, meaningItems_eq, JsonValue.arr.injEq] at h
      rw [text_arr, text_arr,
        map_eq_of_map_eq (fun x hx y hy => ih x hx y (hv x hx) (hw y hy)) h]
    | _ => cases h
  | obj fields ih =>
    intro w hv hw h
    cases w with
    | obj fields' =>
      rw [wellFormed_obj] at hv hw
      rw [meaning, meaning, meaningFields_eq, meaningFields_eq, JsonValue.obj.injEq] at h
      have hn : ((fieldTexts fields).map Prod.fst).Nodup := by rw [fieldTexts_keys]; exact hv.1
      have hn' : ((fieldTexts fields').map Prod.fst).Nodup := by rw [fieldTexts_keys]; exact hw.1
      have hperm : (fieldTexts fields).Perm (fieldTexts fields') := by
        rw [List.perm_ext_iff_of_nodup hn.of_map hn'.of_map]
        intro kt
        have hk := congrFun h kt.1
        rw [mem_fieldTexts hv.1, mem_fieldTexts hw.1]
        constructor
        · rintro ⟨x, hx, ht⟩
          rw [hx, Option.map_some] at hk
          obtain ⟨y, hy, hxy⟩ := Option.map_eq_some_iff.mp hk.symm
          have hx' := mem_of_getField hx
          have hy' := mem_of_getField hy
          exact ⟨y, hy, by rw [← ht, ih _ hx' y (hv.2 _ hx') (hw.2 _ hy') hxy.symm]⟩
        · rintro ⟨y, hy, ht⟩
          rw [hy, Option.map_some] at hk
          obtain ⟨x, hx, hxy⟩ := Option.map_eq_some_iff.mp hk
          have hx' := mem_of_getField hx
          have hy' := mem_of_getField hy
          exact ⟨x, hx, by rw [← ht, ih _ hx' y (hv.2 _ hx') (hw.2 _ hy') hxy]⟩
      rw [text, text, sortFields_eq_of_perm hn hperm]
    | _ => cases h
  | _ =>
    intro w _ _ h
    cases w <;> cases h
    rfl

/-- **Two well-formed values have the same text exactly when they mean the same.** -/
theorem text_eq_iff {v w : Json} (hv : v.wellFormed = true) (hw : w.wellFormed = true) :
    v.text = w.text ↔ v.meaning = w.meaning := by
  refine ⟨fun h => ?_, text_of_meaning v w hv hw⟩
  refine (text_append_inj v w hv hw [] [] (by simp [Delimited]) (by simp [Delimited]) ?_).1
  rw [h]

end Json

end Py
