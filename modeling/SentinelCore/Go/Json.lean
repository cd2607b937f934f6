import SentinelCore.Go.Text
import Mathlib.Data.List.Basic

/-!
# `encoding/json`

How `json.Marshal` writes a string and a `map[string]string`, with HTML escaping as it is by default.
A byte at which no rune is encoded is written as the escape `\ufffd`, whichever byte it is; every
rune, U+FFFD included, is written in a way of its own.

1. One written piece can be read back, up to which invalid byte it was (`readChar_escape`).
2. A string literal ends at its closing quote, so its text determines `written`, the runes of the
   string with a hole for each invalid byte (`quote_append_inj`).
3. Only strings that are not valid UTF-8 share their text with others (`eq_of_written`).
-/

namespace Go

open Py (Byte Bytes CodePoint byte point isSurrogate utf8Bytes)

/-! ## Strings -/

/-- The bytes of `htmlSafeSet`. -/
def htmlSafe (n : ℕ) : Bool :=
  0x20 ≤ n && n < 0x80 && n ≠ 0x22 && n ≠ 0x26 && n ≠ 0x3C && n ≠ 0x3E && n ≠ 0x5C

/-- How `appendString` writes one rune. -/
def escapeRune (c : CodePoint) : GoStr :=
  if c.val < 0x80 then
    if htmlSafe c.val then [byte c.val]
    else if c.val = 0x5C ∨ c.val = 0x22 then [byte 0x5C, byte c.val]
    else if c.val = 0x08 then str "\\b"
    else if c.val = 0x0C then str "\\f"
    else if c.val = 0x0A then str "\\n"
    else if c.val = 0x0D then str "\\r"
    else if c.val = 0x09 then str "\\t"
    else str "\\u00" ++ [hexDigit (c.val / 16), hexDigit (c.val % 16)]
  else if c.val = 0x2028 ∨ c.val = 0x2029 then str "\\u202" ++ [hexDigit (c.val % 16)]
  else utf8Bytes c

def escape : Piece → GoStr
  | .rune c => escapeRune c
  | .invalid _ => str "\\ufffd"

/-- `appendString` after the opening quote. -/
def quoteTail (s : GoStr) : GoStr := (pieces s).flatMap escape ++ [byte 0x22]

/-- A string as `json.Marshal` writes it. -/
def quote (s : GoStr) : GoStr := byte 0x22 :: quoteTail s

/-- What the text of a string keeps of it: its runes, with a hole for each invalid byte. -/
def written (s : GoStr) : List (Option CodePoint) := (pieces s).map Piece.rune?

theorem pieces_eq_of_written : ∀ {ps qs : List Piece}, (∀ p ∈ ps, p.rune?.isSome = true) →
    ps.map Piece.rune? = qs.map Piece.rune? → ps = qs := by
  intro ps
  induction ps with
  | nil =>
    intro qs _ h
    exact (List.map_eq_nil_iff.mp h.symm).symm
  | cons p ps ih =>
    intro qs hv h
    cases qs with
    | nil => cases h
    | cons q qs =>
      obtain ⟨hpq, hrest⟩ := List.cons.inj h
      have hp := hv p List.mem_cons_self
      rw [ih (fun x hx => hv x (List.mem_cons_of_mem _ hx)) hrest]
      cases p with
      | invalid b => cases hp
      | rune c =>
        cases q with
        | invalid b => cases hpq
        | rune d =>
          cases hpq
          rfl

/-- A valid string shares its text with no other. -/
theorem eq_of_written {s t : GoStr} (h : written s = written t)
    (hv : validString s = true ∨ s = t) : s = t := by
  rcases hv with hv | rfl
  · have hp := pieces_eq_of_written (List.all_eq_true.mp hv) h
    rw [← pieces_spell s, hp, pieces_spell]
  · rfl

/-! ## Reading back -/

def readHex4 : GoStr → Option (ℕ × GoStr)
  | a :: b :: c :: d :: rest => do
    let a ← hexValue a
    let b ← hexValue b
    let c ← hexValue c
    let d ← hexValue d
    return (((a * 16 + b) * 16 + c) * 16 + d, rest)
  | _ => none

/-- What an escape stands for; `\ufffd` stands for an invalid byte. -/
def readEscape : GoStr → Option (Option CodePoint × GoStr)
  | [] => none
  | b :: rest =>
    if b = byte 0x75 then
      (readHex4 rest).map fun (n, rest) => (if n = 0xFFFD then none else some (point n), rest)
    else if b = byte 0x62 then some (some 0x08, rest)
    else if b = byte 0x66 then some (some 0x0C, rest)
    else if b = byte 0x6E then some (some 0x0A, rest)
    else if b = byte 0x72 then some (some 0x0D, rest)
    else if b = byte 0x74 then some (some 0x09, rest)
    else some (some (point b.val), rest)

/-- One written piece, read back. -/
def readChar : GoStr → Option (Option CodePoint × GoStr)
  | [] => none
  | b :: rest =>
    if b = byte 0x5C then readEscape rest
    else (decodeRune (b :: rest)).map fun (c, rest) => (some c, rest)

theorem readChar_backslash (rest : GoStr) : readChar (byte 0x5C :: rest) = readEscape rest := by
  rw [readChar, if_pos rfl]

theorem readEscape_hex {a b : Byte} {n m l : ℕ} (ha : hexValue a = some n)
    (hb : hexValue b = some m) (h : ((0 * 16 + 0) * 16 + n) * 16 + m = l) (hl : l ≠ 0xFFFD)
    (rest : GoStr) :
    readEscape (byte 0x75 :: byte 0x30 :: byte 0x30 :: a :: b :: rest) =
      some (some (point l), rest) := by
  have h0 : hexValue (byte 0x30) = some 0 := by decide
  have h4 : readHex4 (byte 0x30 :: byte 0x30 :: a :: b :: rest) = some (l, rest) := by
    rw [readHex4, h0, ha, hb, ← h]
    rfl
  rw [readEscape, if_pos rfl, h4, Option.map_some]
  simp only [if_neg hl]

theorem utf8Bytes_head {c : CodePoint} (hc : 0x80 ≤ c.val) :
    ∃ b t, utf8Bytes c = b :: t ∧ 0x80 ≤ b.val := by
  have hlt := c.isLt
  unfold utf8Bytes
  split_ifs with h1 h2 h3
  · omega
  · exact ⟨_, _, rfl, by rw [Py.byte_val (by omega)]; omega⟩
  · exact ⟨_, _, rfl, by rw [Py.byte_val (by omega)]; omega⟩
  · exact ⟨_, _, rfl, by rw [Py.byte_val (by omega)]; omega⟩

theorem byte_ne {n m : ℕ} (hn : n < 256) (hm : m < 256) (h : n ≠ m) : byte n ≠ byte m := by
  intro he
  have hv := congrArg Fin.val he
  rw [Py.byte_val hn, Py.byte_val hm] at hv
  exact h hv

/-- A rune that is written as it is, is read as it is. -/
theorem readChar_utf8Bytes {c : CodePoint} (hc : isSurrogate c.val = false) (hbs : c.val ≠ 0x5C)
    (rest : GoStr) : readChar (utf8Bytes c ++ rest) = some (some c, rest) := by
  obtain ⟨b, t, hb, hne⟩ : ∃ b t, utf8Bytes c = b :: t ∧ b ≠ byte 0x5C := by
    by_cases h : c.val < 0x80
    · refine ⟨byte c.val, [], ?_, byte_ne (by omega) (by omega) hbs⟩
      rw [utf8Bytes, if_pos h]
    · obtain ⟨b, t, hb, hle⟩ := utf8Bytes_head (by omega : 0x80 ≤ c.val)
      refine ⟨b, t, hb, ?_⟩
      rintro rfl
      rw [Py.byte_val (by omega)] at hle
      omega
  have hd := decodeRune_utf8Bytes hc rest
  rw [hb, List.cons_append] at hd ⊢
  rw [readChar, if_neg hne, hd]
  rfl

theorem readChar_escapeRune {c : CodePoint} (hc : isSurrogate c.val = false) (rest : GoStr) :
    readChar (escapeRune c ++ rest) = some (some c, rest) := by
  have hp := Py.point_val c
  unfold escapeRune
  split_ifs with h1 hs h2 h3 h4 h5 h6 h7 h8
  · have hbs : c.val ≠ 0x5C := by
      intro h
      rw [h] at hs
      exact absurd hs (by decide)
    have := readChar_utf8Bytes hc hbs rest
    rwa [utf8Bytes, if_pos h1] at this
  · rw [List.cons_append, readChar_backslash]
    rcases h2 with h2 | h2
    · rw [← hp, h2]
      rfl
    · rw [← hp, h2]
      rfl
  · rw [← hp, h3]
    rfl
  · rw [← hp, h4]
    rfl
  · rw [← hp, h5]
    rfl
  · rw [← hp, h6]
    rfl
  · rw [← hp, h7]
    rfl
  · have hl : ((0 * 16 + 0) * 16 + c.val / 16) * 16 + c.val % 16 = c.val := by omega
    have := readEscape_hex (hexValue_hexDigit _ (by omega)) (hexValue_hexDigit _ (by omega)) hl
      (by omega) rest
    rw [hp] at this
    exact this
  · rcases h8 with h8 | h8
    · rw [← hp, h8]
      rfl
    · rw [← hp, h8]
      rfl
  · exact readChar_utf8Bytes hc (by omega) rest

/-- **One written piece can be read back**, up to which invalid byte it was. -/
theorem readChar_escape {p : Piece} (hp : ∀ c, p = .rune c → isSurrogate c.val = false)
    (rest : GoStr) : readChar (escape p ++ rest) = some (p.rune?, rest) := by
  cases p with
  | rune c => exact readChar_escapeRune (hp c rfl) rest
  | invalid b => rfl

theorem escape_head {p : Piece} : ∃ b t, escape p = b :: t ∧ b ≠ byte 0x22 := by
  cases p with
  | invalid b => exact ⟨_, _, rfl, by decide⟩
  | rune c =>
    change ∃ b t, escapeRune c = b :: t ∧ b ≠ byte 0x22
    unfold escapeRune
    split_ifs with h1 hs h2 h3 h4 h5 h6 h7 h8
    · refine ⟨_, _, rfl, byte_ne (by omega) (by omega) fun h => ?_⟩
      rw [h] at hs
      exact absurd hs (by decide)
    all_goals try exact ⟨_, _, rfl, by decide⟩
    obtain ⟨b, t, hb, hle⟩ := utf8Bytes_head (by omega : 0x80 ≤ c.val)
    refine ⟨b, t, hb, ?_⟩
    rintro rfl
    rw [Py.byte_val (by omega)] at hle
    omega

theorem escapes_append_inj : ∀ {ps qs : List Piece} {r r' : GoStr},
    (∀ c, .rune c ∈ ps → isSurrogate c.val = false) →
    (∀ c, .rune c ∈ qs → isSurrogate c.val = false) →
    ps.flatMap escape ++ byte 0x22 :: r = qs.flatMap escape ++ byte 0x22 :: r' →
    ps.map Piece.rune? = qs.map Piece.rune? ∧ r = r' := by
  intro ps
  induction ps with
  | nil =>
    intro qs r r' _ _ h
    cases qs with
    | nil => exact ⟨rfl, (List.cons.inj h).2⟩
    | cons q qs =>
      obtain ⟨b, t, hb, hne⟩ := escape_head
      rw [List.flatMap_cons, hb] at h
      exact absurd (List.cons.inj h).1.symm hne
  | cons p ps ih =>
    intro qs r r' hps hqs h
    cases qs with
    | nil =>
      obtain ⟨b, t, hb, hne⟩ := escape_head
      rw [List.flatMap_cons, hb] at h
      exact absurd (List.cons.inj h).1 hne
    | cons q qs =>
      have hp := readChar_escape  fun c hc => hps c (hc ▸ List.mem_cons_self)
      have hq := readChar_escape  fun c hc => hqs c (hc ▸ List.mem_cons_self)
      rw [List.flatMap_cons, List.flatMap_cons, List.append_assoc, List.append_assoc] at h
      have hread := congrArg readChar h
      rw [hp, hq, Option.some.injEq, Prod.mk.injEq] at hread
      obtain ⟨hmap, hr⟩ := ih (fun c hc => hps c (List.mem_cons_of_mem _ hc))
        (fun c hc => hqs c (List.mem_cons_of_mem _ hc)) hread.2
      exact ⟨by rw [List.map_cons, List.map_cons, hread.1, hmap], hr⟩

/-- **A string literal ends at its closing quote** and determines what was written. -/
theorem quote_append_inj {s t r r' : GoStr} (h : quote s ++ r = quote t ++ r') :
    written s = written t ∧ r = r' := by
  have h' : quoteTail s ++ r = quoteTail t ++ r' := (List.cons.inj h).2
  unfold quoteTail at h'
  rw [List.append_assoc, List.append_assoc] at h'
  exact escapes_append_inj (fun _ hc => mem_pieces hc) (fun _ hc => mem_pieces hc) h'

/-! ## Maps -/

/-- A `map[string]string`, by its entries in the order of their keys. -/
structure StringMap where
  entries : List (GoStr × GoStr)
  sorted : (entries.map Prod.fst).Pairwise (· < ·)

def entryText (kv : GoStr × GoStr) : GoStr := quote kv.1 ++ byte 0x3A :: quote kv.2

def entriesText : List (GoStr × GoStr) → GoStr
  | [] => []
  | [kv] => entryText kv
  | kv :: kv' :: rest => entryText kv ++ byte 0x2C :: entriesText (kv' :: rest)

/-- A map as `json.Marshal` writes it: the keys are sorted. -/
def StringMap.text (m : StringMap) : GoStr :=
  byte 0x7B :: (entriesText m.entries ++ [byte 0x7D])

def writtenEntry (kv : GoStr × GoStr) : List (Option CodePoint) × List (Option CodePoint) :=
  (written kv.1, written kv.2)

/-- What follows the first entry of a map, up to its closing brace and beyond. -/
def entriesTail (r : GoStr) : List (GoStr × GoStr) → GoStr
  | [] => byte 0x7D :: r
  | kv :: rest => byte 0x2C :: (entriesText (kv :: rest) ++ byte 0x7D :: r)

theorem entriesText_cons (kv : GoStr × GoStr) (rest : List (GoStr × GoStr)) (r : GoStr) :
    entriesText (kv :: rest) ++ byte 0x7D :: r = entryText kv ++ entriesTail r rest := by
  cases rest with
  | nil => rfl
  | cons kv' rest => simp [entriesText, entriesTail]

theorem entryText_append_inj {kv kv' : GoStr × GoStr} {r r' : GoStr}
    (h : entryText kv ++ r = entryText kv' ++ r') : writtenEntry kv = writtenEntry kv' ∧ r = r' := by
  unfold entryText at h
  rw [List.append_assoc, List.append_assoc] at h
  obtain ⟨hk, h⟩ := quote_append_inj h
  obtain ⟨hv, hr⟩ := quote_append_inj (List.cons.inj h).2
  exact ⟨Prod.ext hk hv, hr⟩

theorem brace_ne_quote {r s t : GoStr} : byte 0x7D :: r ≠ quote s ++ t := by
  intro h
  exact absurd (List.cons.inj h).1 (by decide)

/-- The entries of a map end at its closing brace. -/
theorem entriesText_append_inj {es fs : List (GoStr × GoStr)} {r r' : GoStr}
    (h : entriesText es ++ byte 0x7D :: r = entriesText fs ++ byte 0x7D :: r') :
    es.map writtenEntry = fs.map writtenEntry ∧ r = r' := by
  induction es generalizing fs with
  | nil =>
    cases fs with
    | nil => exact ⟨rfl, (List.cons.inj h).2⟩
    | cons f fs =>
      rw [entriesText_cons, entryText, List.append_assoc] at h
      exact absurd h brace_ne_quote
  | cons e es ih =>
    cases fs with
    | nil =>
      rw [entriesText_cons, entryText, List.append_assoc] at h
      exact absurd h.symm brace_ne_quote
    | cons f fs =>
      rw [entriesText_cons, entriesText_cons] at h
      obtain ⟨hef, htail⟩ := entryText_append_inj h
      have hrest : entriesText es ++ byte 0x7D :: r = entriesText fs ++ byte 0x7D :: r' := by
        cases es with
        | nil =>
          cases fs with
          | nil => exact htail
          | cons f' fs => exact absurd (List.cons.inj htail).1 (by decide)
        | cons e' es =>
          cases fs with
          | nil => exact absurd (List.cons.inj htail).1 (by decide)
          | cons f' fs => exact (List.cons.inj htail).2
      obtain ⟨hmap, hr⟩ := ih hrest
      exact ⟨by rw [List.map_cons, List.map_cons, hef, hmap], hr⟩

end Go
