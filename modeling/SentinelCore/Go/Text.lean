import SentinelCore.Py.Utf8
import SentinelCore.Py.JsonText

/-!
# Go strings

A Go `string` is any sequence of bytes. `range` splits it into runes and into bytes at which no rune
is encoded (`pieces`), and the pieces spell the string again (`pieces_spell`).

`decodeRune` is `utf8.DecodeRuneInString` without the size: it reads one rune exactly where UTF-8
encodes one (`decodeRune_eq_some`).
-/

namespace Go

open Py (Byte Bytes CodePoint PyStr byte point isSurrogate isSpelled tailBytes utf8Bytes)

/-- A Go `string`. -/
abbrev GoStr := Bytes

/-- The bytes of an ASCII text. -/
def ascii (s : PyStr) : GoStr := s.map fun c => byte c.val

/-- A string literal of the source. -/
def str (s : String) : GoStr := ascii (Py.lit s)

/-- A number in decimal, as `%d` and `strconv.AppendUint` write it. -/
def decimal (n : ℕ) : GoStr := ascii (Py.digitsText n)

/-- A lowercase hexadecimal digit. -/
def hexDigit (n : ℕ) : Byte := byte (Py.hexDigit n).val

/-- `hex.EncodeToString`. -/
def hexText (data : Bytes) : GoStr := data.flatMap fun b => [hexDigit (b.val / 16), hexDigit (b.val % 16)]

/-- `unicode.IsPrint` of the code points of one byte. -/
def isPrint (b : Byte) : Bool := (0x20 ≤ b.val && b.val < 0x7F) || (0xA1 ≤ b.val && b.val ≠ 0xAD)

/-- The text of a `hex.InvalidByteError`, which prints the byte with `%#U`. -/
def invalidByteText (b : Byte) : GoStr :=
  let code := Nat.toDigits 16 b.val
  str "encoding/hex: invalid byte: U+" ++ List.replicate (4 - code.length) (byte 0x30) ++
    code.map (fun c => byte c.toUpper.toNat) ++
    if isPrint b then str " '" ++ utf8Bytes (point b.val) ++ str "'" else []

/-- The value of a hexadecimal digit of either case. -/
def hexValue (b : Byte) : Option ℕ := Py.hexValue (point b.val)

/-- `hex.DecodeString`. -/
def hexDecodeString : GoStr → Except GoStr Bytes
  | [] => .ok []
  | [p] =>
    match hexValue p with
    | none => .error (invalidByteText p)
    | some _ => .error (str "encoding/hex: odd length hex string")
  | p :: q :: rest =>
    match hexValue p, hexValue q with
    | none, _ => .error (invalidByteText p)
    | some _, none => .error (invalidByteText q)
    | some a, some b => (hexDecodeString rest).map (byte (a * 16 + b) :: ·)

theorem hexValue_lt {b : Byte} {n : ℕ} (h : hexValue b = some n) : b.val < 0x80 := by
  have hv : (point b.val).val = b.val := Nat.mod_eq_of_lt (by omega)
  unfold hexValue Py.hexValue Py.isAsciiDigit at h
  rw [hv] at h
  split_ifs at h with h1 h2 h3
  · simp only [Bool.and_eq_true, decide_eq_true_eq] at h1
    omega
  · omega
  · omega

/-- What decodes is ASCII. -/
theorem ascii_of_hexDecodeString {s : GoStr} {data : Bytes} (h : hexDecodeString s = .ok data) :
    ∀ b ∈ s, b.val < 0x80 := by
  induction s using hexDecodeString.induct generalizing data with
  | case1 => simp
  | case2 p hp | case3 p n hp => simp [hexDecodeString, hp] at h
  | case4 p q rest hp => simp [hexDecodeString, hp] at h
  | case5 p q rest a hp hq => simp [hexDecodeString, hp, hq] at h
  | case6 p q rest a b hq hp ih =>
    rw [hexDecodeString, hp, hq] at h
    cases hr : hexDecodeString rest with
    | error e =>
      rw [hr] at h
      cases h
    | ok data' =>
      exact List.forall_mem_cons.mpr ⟨hexValue_lt hp,
        List.forall_mem_cons.mpr ⟨hexValue_lt hq, ih hr⟩⟩

theorem hexValue_hexDigit : ∀ n < 16, hexValue (hexDigit n) = some n := by decide

theorem hexDigit_injOn {n m : ℕ} (hn : n < 16) (hm : m < 16) (h : hexDigit n = hexDigit m) :
    n = m := by
  have := hexValue_hexDigit n hn
  rw [h, hexValue_hexDigit m hm] at this
  exact (Option.some.inj this).symm

theorem hexText_injective : Function.Injective hexText := by
  intro a b h
  induction a generalizing b with
  | nil =>
    cases b with
    | nil => rfl
    | cons y b => cases h
  | cons x a ih =>
    cases b with
    | nil => cases h
    | cons y b =>
      obtain ⟨hhi, h⟩ := List.cons.inj h
      obtain ⟨hlo, h⟩ := List.cons.inj h
      have hdiv := hexDigit_injOn (by omega) (by omega) hhi
      have hmod := hexDigit_injOn (by omega) (by omega) hlo
      rw [ih h, Fin.ext (by omega : x.val = y.val)]

/-- A slice: its length is an `int`. -/
structure Slice (α : Type) where
  elems : List α
  length_lt : elems.length < 2 ^ 63

/-- An ASCII text is determined by its bytes. -/
theorem ascii_inj {s t : PyStr} (hs : Py.isAscii s = true) (ht : Py.isAscii t = true)
    (h : ascii s = ascii t) : s = t := by
  have hback : ∀ u : PyStr, Py.isAscii u = true → Py.ofBytes (ascii u) = u := by
    intro u hu
    unfold Py.ofBytes ascii
    rw [List.map_map]
    conv_rhs => rw [← List.map_id u]
    refine List.map_congr_left fun c hc => Fin.ext ?_
    have hc' : c.val < 0x80 := by simpa using List.all_eq_true.mp hu c hc
    change c.val % 256 = c.val
    omega
  rw [← hback s hs, h, hback t ht]

theorem digitsText_val (n : ℕ) : ∀ c ∈ Py.digitsText n, 0x30 ≤ c.val ∧ c.val ≤ 0x39 := by
  intro c hc
  have := Py.digitsText_isDigit n c hc
  simpa [Py.isAsciiDigit] using this

theorem isAscii_digitsText (n : ℕ) : Py.isAscii (Py.digitsText n) = true := by
  refine List.all_eq_true.mpr fun c hc => ?_
  have := digitsText_val n c hc
  simp only [decide_eq_true_eq]
  omega

theorem comma_notMem_decimal (n : ℕ) : byte 0x2C ∉ decimal n := by
  intro h
  obtain ⟨c, hc, he⟩ := List.mem_map.mp h
  have hv := congrArg Fin.val he
  have := digitsText_val n c hc
  rw [Py.byte_val (by omega), Py.byte_val (by omega)] at hv
  omega

/-- A text ends at the first byte it does not contain. -/
theorem append_cons_inj {b : Byte} {x y r r' : GoStr} (hx : b ∉ x) (hy : b ∉ y)
    (h : x ++ b :: r = y ++ b :: r') : x = y ∧ r = r' := by
  induction x generalizing y with
  | nil =>
    cases y with
    | nil => exact ⟨rfl, (List.cons.inj h).2⟩
    | cons c y => exact absurd ((List.cons.inj h).1 ▸ List.mem_cons_self) hy
  | cons a x ih =>
    cases y with
    | nil => exact absurd ((List.cons.inj h).1 ▸ List.mem_cons_self) hx
    | cons c y =>
      rw [List.cons_append, List.cons_append, List.cons.injEq] at h
      obtain ⟨rfl, h⟩ := h
      obtain ⟨rfl, hr⟩ := ih (fun hm => hx (List.mem_cons_of_mem _ hm))
        (fun hm => hy (List.mem_cons_of_mem _ hm)) h
      exact ⟨rfl, hr⟩

/-- A number ends at the comma after it. -/
theorem decimal_append_inj {n m : ℕ} {r r' : GoStr}
    (h : decimal n ++ byte 0x2C :: r = decimal m ++ byte 0x2C :: r') : n = m ∧ r = r' := by
  obtain ⟨hnm, hr⟩ := append_cons_inj (comma_notMem_decimal n) (comma_notMem_decimal m) h
  have := ascii_inj (isAscii_digitsText n) (isAscii_digitsText m) hnm
  exact ⟨Py.digitsText_injective this, hr⟩

/-! ## Runes -/

/-- The rune whose leading bits are `acc` and which `k` more bytes complete; it must be at least
`low`. -/
def runeTail : ℕ → ℕ → ℕ → GoStr → Option (CodePoint × GoStr)
  | 0, acc, low, rest => if isSpelled low acc then some (point acc, rest) else none
  | _ + 1, _, _, [] => none
  | k + 1, acc, low, b :: rest =>
    if 0x80 ≤ b.val ∧ b.val < 0xC0 then runeTail k (acc * 64 + (b.val - 0x80)) low rest else none

/-- The rune a string starts with, and what follows it. -/
def decodeRune : GoStr → Option (CodePoint × GoStr)
  | [] => none
  | b :: rest =>
    if b.val < 0x80 then some (point b.val, rest)
    else if b.val < 0xC0 then none
    else if b.val < 0xE0 then runeTail 1 (b.val - 0xC0) 0x80 rest
    else if b.val < 0xF0 then runeTail 2 (b.val - 0xE0) 0x800 rest
    else runeTail 3 (b.val - 0xF0) 0x10000 rest

theorem runeTail_tailBytes {n low : ℕ} (h : isSpelled low n = true) (rest : GoStr) :
    ∀ k, runeTail k (n / 64 ^ k) low (tailBytes k n ++ rest) = some (point n, rest) := by
  intro k
  induction k with
  | zero => rw [tailBytes, List.nil_append, pow_zero, Nat.div_one, runeTail, if_pos h]
  | succ k ih =>
    rw [tailBytes, List.cons_append, runeTail, Py.tail_val, if_pos (by omega), Py.shift_in, ih]

/-- An encoded rune is read back. -/
theorem decodeRune_utf8Bytes {c : CodePoint} (hc : isSurrogate c.val = false) (rest : GoStr) :
    decodeRune (utf8Bytes c ++ rest) = some (c, rest) := by
  have hlt := c.isLt
  have htail : ∀ low k, low ≤ c.val →
      runeTail k (c.val / 64 ^ k) low (tailBytes k c.val ++ rest) = some (c, rest) := by
    intro low k hlow
    have hsp : isSpelled low c.val = true := by simp [isSpelled, hc, hlow, hlt]
    rw [runeTail_tailBytes hsp, Py.point_val]
  unfold utf8Bytes
  split_ifs with h1 h2 h3
  · rw [List.cons_append, List.nil_append, decodeRune, Py.byte_val (by omega), if_pos h1,
      Py.point_val]
  · rw [List.cons_append, decodeRune, Py.byte_val (by omega), if_neg (by omega),
      if_neg (by omega), if_pos (by omega), Nat.add_sub_cancel_left]
    simpa using htail 0x80 1 (by omega)
  · rw [List.cons_append, decodeRune, Py.byte_val (by omega), if_neg (by omega),
      if_neg (by omega), if_neg (by omega), if_pos (by omega), Nat.add_sub_cancel_left]
    exact htail 0x800 2 (by omega)
  · rw [List.cons_append, decodeRune, Py.byte_val (by omega), if_neg (by omega),
      if_neg (by omega), if_neg (by omega), if_neg (by omega), Nat.add_sub_cancel_left]
    exact htail 0x10000 3 (by omega)

theorem runeTail_eq_some : ∀ (k acc low : ℕ) (s : GoStr) (c : CodePoint) (rest : GoStr),
    runeTail k acc low s = some (c, rest) →
      s = tailBytes k c.val ++ rest ∧ c.val / 64 ^ k = acc ∧ isSpelled low c.val = true := by
  intro k
  induction k with
  | zero =>
    intro acc low s c rest h
    rw [runeTail] at h
    split_ifs at h with hsp
    cases h
    have hv : (point acc).val = acc := by
      simp only [isSpelled, Bool.and_eq_true, decide_eq_true_eq] at hsp
      exact Nat.mod_eq_of_lt hsp.1.2
    rw [hv, pow_zero, Nat.div_one]
    exact ⟨rfl, rfl, hsp⟩
  | succ k ih =>
    intro acc low s c rest h
    cases s with
    | nil => cases h
    | cons b s =>
      rw [runeTail] at h
      split_ifs at h with hb
      obtain ⟨rfl, hacc, hsp⟩ := ih _ _ _ _ _ h
      have hdiv : c.val / 64 ^ (k + 1) = c.val / 64 ^ k / 64 := by
        rw [pow_succ, Nat.div_div_eq_div_mul]
      have hbyte : byte (0x80 + c.val / 64 ^ k % 64) = b := Py.byte_eq (by omega)
      refine ⟨?_, by omega, hsp⟩
      rw [tailBytes, hbyte, List.cons_append]

/-- What is read as a rune is the encoding of it. -/
theorem decodeRune_eq_some {s rest : GoStr} {c : CodePoint} :
    decodeRune s = some (c, rest) ↔ isSurrogate c.val = false ∧ s = utf8Bytes c ++ rest := by
  constructor
  · intro h
    cases s with
    | nil => cases h
    | cons b s =>
      rw [decodeRune] at h
      split_ifs at h with h1 h2 h3 h4
      · cases h
        have hv : (point b.val).val = b.val := Nat.mod_eq_of_lt (by omega)
        refine ⟨?_, ?_⟩
        · rw [hv]
          simp [isSurrogate]
          omega
        · rw [utf8Bytes, hv, if_pos h1, Py.byte_eq rfl]
          rfl
      all_goals
        obtain ⟨rfl, hacc, hsp⟩ := runeTail_eq_some _ _ _ _ _ _ h
        simp only [isSpelled, Bool.and_eq_true, decide_eq_true_eq, Bool.not_eq_true'] at hsp
        simp only [Nat.reducePow] at hacc
        refine ⟨hsp.2, ?_⟩
        rw [utf8Bytes]
      · have hb : byte (0xC0 + c.val / 64) = b := Py.byte_eq (by omega)
        rw [if_neg (by omega), if_pos (by omega), hb, List.cons_append]
      · have hb : byte (0xE0 + c.val / 64 ^ 2) = b := Py.byte_eq (by omega)
        rw [if_neg (by omega), if_neg (by omega), if_pos (by omega), hb, List.cons_append]
      · have hb : byte (0xF0 + c.val / 64 ^ 3) = b := Py.byte_eq (by omega)
        rw [if_neg (by omega), if_neg (by omega), if_neg (by omega), hb, List.cons_append]
  · rintro ⟨hc, rfl⟩
    exact decodeRune_utf8Bytes hc rest

/-! ## The pieces of a string -/

/-- A rune, or a byte at which no rune is encoded. -/
inductive Piece where
  | rune (c : CodePoint)
  | invalid (b : Byte)
  deriving DecidableEq

def Piece.bytes : Piece → Bytes
  | rune c => utf8Bytes c
  | invalid b => [b]

def Piece.rune? : Piece → Option CodePoint
  | rune c => some c
  | invalid _ => none

def piecesFrom : ℕ → GoStr → List Piece
  | _, [] | 0, _ :: _ => []
  | n + 1, b :: s =>
    match decodeRune (b :: s) with
    | some (c, rest) => .rune c :: piecesFrom n rest
    | none => .invalid b :: piecesFrom n s

/-- What `for _, r := range s` goes over. -/
def pieces (s : GoStr) : List Piece := piecesFrom s.length s

/-- `utf8.ValidString`. -/
def validString (s : GoStr) : Bool := (pieces s).all fun p => p.rune?.isSome

theorem utf8Bytes_ne_nil (c : CodePoint) : utf8Bytes c ≠ [] := by
  unfold utf8Bytes
  split_ifs <;> simp

theorem piecesFrom_spell : ∀ (n : ℕ) (s : GoStr), s.length ≤ n →
    (piecesFrom n s).flatMap Piece.bytes = s := by
  intro n
  induction n with
  | zero =>
    intro s hs
    rw [List.length_eq_zero_iff.mp (Nat.le_zero.mp hs)]
    rfl
  | succ n ih =>
    intro s hs
    cases s with
    | nil => rfl
    | cons b s =>
      rw [piecesFrom]
      cases hd : decodeRune (b :: s) with
      | none =>
        rw [List.length_cons] at hs
        change b :: (piecesFrom n s).flatMap Piece.bytes = b :: s
        rw [ih s (by omega)]
      | some cr =>
        obtain ⟨c, rest⟩ := cr
        obtain ⟨-, hcr⟩ := decodeRune_eq_some.mp hd
        have hlen : rest.length < (b :: s).length := by
          rw [hcr, List.length_append]
          have := List.length_pos_iff.mpr (utf8Bytes_ne_nil c)
          omega
        change utf8Bytes c ++ (piecesFrom n rest).flatMap Piece.bytes = b :: s
        rw [ih rest (by omega), hcr]

/-- The pieces of a string spell it. -/
theorem pieces_spell (s : GoStr) : (pieces s).flatMap Piece.bytes = s :=
  piecesFrom_spell _ s le_rfl

theorem mem_piecesFrom : ∀ (n : ℕ) (s : GoStr) (c : CodePoint), .rune c ∈ piecesFrom n s →
    isSurrogate c.val = false := by
  intro n
  induction n with
  | zero =>
    intro s c h
    cases s <;> cases h
  | succ n ih =>
    intro s c h
    cases s with
    | nil => cases h
    | cons b s =>
      rw [piecesFrom] at h
      cases hd : decodeRune (b :: s) with
      | none =>
        rw [hd] at h
        rcases List.mem_cons.mp h with h | h
        · cases h
        · exact ih _ _ h
      | some cr =>
        obtain ⟨d, rest⟩ := cr
        rw [hd] at h
        rcases List.mem_cons.mp h with h | h
        · cases h
          exact (decodeRune_eq_some.mp hd).1
        · exact ih _ _ h

/-- The runes of a string are no surrogates. -/
theorem mem_pieces {s : GoStr} {c : CodePoint} (h : .rune c ∈ pieces s) :
    isSurrogate c.val = false :=
  mem_piecesFrom _ _ _ h

theorem isSome_of_ascii : ∀ (n : ℕ) (s : GoStr), (∀ b ∈ s, b.val < 0x80) →
    ∀ p ∈ piecesFrom n s, p.rune?.isSome = true := by
  intro n
  induction n with
  | zero =>
    intro s _ p hp
    cases s <;> cases hp
  | succ n ih =>
    intro s hs p hp
    cases s with
    | nil => cases hp
    | cons b s =>
      have hb : decodeRune (b :: s) = some (point b.val, s) := by
        rw [decodeRune, if_pos (hs b List.mem_cons_self)]
      rw [piecesFrom, hb] at hp
      rcases List.mem_cons.mp hp with rfl | hp
      · rfl
      · exact ih s (fun c hc => hs c (List.mem_cons_of_mem _ hc)) p hp

/-- ASCII is valid UTF-8. -/
theorem validString_of_ascii {s : GoStr} (h : ∀ b ∈ s, b.val < 0x80) : validString s = true :=
  List.all_eq_true.mpr (isSome_of_ascii _ s h)

end Go
