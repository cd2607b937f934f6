import SentinelCore.Py.JsonFormat
import SentinelCore.Py.JsonFlat

/-!
# Reading back numbers and strings

The tokens of a text of `json.dumps`, read by `json.loads`. A number ends where the text ends or a delimiter
or a space follows (`matchNumber_append`); an integer that can be printed is converted back, and a float if the
interpreter's conversions are inverse to each other on it (`ReadsFloat`). A string that is escaped to ASCII is
read back if it has no high surrogate right before a low one (`Separable`, `scanString_tail`).
-/

namespace Py

open Lib

/-! ## Numbers -/

/-- The text ends, or goes on with a delimiter or a space. -/
def Ends (r : PyStr) : Prop := ∀ c ∈ r.head?, isDelimiter c = true ∨ isJsonSpace c = true

theorem ends_cons {c : CodePoint} {r : PyStr} (h : isDelimiter c = true ∨ isJsonSpace c = true) :
    Ends (c :: r) := by
  intro d hd
  obtain rfl : c = d := by simpa using hd
  exact h

/-- No character that ends a number is part of one. -/
theorem Ends.not_number {r : PyStr} (h : Ends r) {c : CodePoint} (hc : r.head? = some c) :
    isAsciiDigit c = false ∧ c ∉ lit "-+.eE" := by
  have hspace : isJsonSpace c = true → c = chr ' ' ∨ c = chr '\t' ∨ c = chr '\n' ∨ c = chr '\r' := by
    intro h
    simpa [isJsonSpace, or_assoc] using h
  have hdelimiter : isDelimiter c = true → c = chr ',' ∨ c = chr ']' ∨ c = chr '}' := by
    intro h
    simpa [isDelimiter, or_assoc] using h
  rcases h c (by rw [hc]; rfl) with h | h
  · rcases hdelimiter h with rfl | rfl | rfl <;> decide
  · rcases hspace h with rfl | rfl | rfl | rfl <;> decide

theorem Ends.takeWhile {r : PyStr} (h : Ends r) {p : CodePoint → Bool}
    (hp : ∀ c, p c = true → isAsciiDigit c = true ∨ c ∈ lit "-+.eE") (s : PyStr) :
    (s ++ r).takeWhile p = s.takeWhile p := by
  have hr : r.takeWhile p = [] := by
    cases r with
    | nil => rfl
    | cons c r =>
      have hc := h.not_number rfl
      refine List.takeWhile_cons_of_neg fun hpc => ?_
      rcases hp c hpc with hd | hm
      · rw [hc.1] at hd
        cases hd
      · exact hc.2 hm
  rw [List.takeWhile_append, hr, List.append_nil]
  split
  · next hlen => exact (List.takeWhile_prefix p).eq_of_length hlen |>.symm
  · rfl

theorem Ends.head {r : PyStr} (h : Ends r) {c : CodePoint}
    (hc : isAsciiDigit c = true ∨ c ∈ lit "-+.eE") (s : PyStr) :
    (s ++ r).head? = some c ↔ s.head? = some c := by
  cases s with
  | cons d s => rfl
  | nil =>
    refine iff_of_false (fun hr => ?_) fun hn => by cases hn
    have hno := h.not_number hr
    rcases hc with hd | hm
    · rw [hno.1] at hd
      cases hd
    · exact hno.2 hm

/-! ### The parts of a number -/

def signPart (s : PyStr) : PyStr := (s.takeWhile (· = chr '-')).take 1

def wholePart (s : PyStr) : PyStr :=
  if s.head? = some (chr '0') then [chr '0'] else s.takeWhile isAsciiDigit

def fractionPart (s : PyStr) : PyStr :=
  let digits := s.tail.takeWhile isAsciiDigit
  if s.head? = some (chr '.') ∧ digits ≠ [] then chr '.' :: digits else []

def exponentPart (s : PyStr) : PyStr :=
  let mark := (s.tail.takeWhile fun c => c = chr '+' || c = chr '-').take 1
  let digits := (s.tail.drop mark.length).takeWhile isAsciiDigit
  if (s.head? = some (chr 'e') ∨ s.head? = some (chr 'E')) ∧ digits ≠ [] then s.take 1 ++ mark ++ digits
  else []

theorem matchNumber_eq (s : PyStr) :
    matchNumber s =
      (let s₁ := s.drop (signPart s).length
      let s₂ := s₁.drop (wholePart s₁).length
      let s₃ := s₂.drop (fractionPart s₂).length
      if wholePart s₁ = [] then none
      else some (signPart s ++ wholePart s₁ ++ fractionPart s₂ ++ exponentPart s₃,
        !(fractionPart s₂ ++ exponentPart s₃).isEmpty, s₃.drop (exponentPart s₃).length)) := rfl

theorem eq_cons_of_head {s : PyStr} {c : CodePoint} (h : s.head? = some c) : s = c :: s.tail := by
  cases s with
  | nil => cases h
  | cons d s => rw [Option.some.inj h, List.tail_cons]

theorem signPart_leads (s : PyStr) : signPart s <+: s :=
  (List.take_prefix 1 _).trans (List.takeWhile_prefix _)

theorem wholePart_leads (s : PyStr) : wholePart s <+: s := by
  unfold wholePart
  split
  · next h =>
    rw [eq_cons_of_head h]
    exact List.prefix_append [_] _
  · exact List.takeWhile_prefix _

theorem fractionPart_leads (s : PyStr) : fractionPart s <+: s := by
  unfold fractionPart
  dsimp only
  split
  · next h =>
    rw [eq_cons_of_head h.1, List.tail_cons]
    exact (List.prefix_cons_inj _).mpr (List.takeWhile_prefix _)
  · exact List.nil_prefix

theorem exponentPart_leads (s : PyStr) : exponentPart s <+: s := by
  unfold exponentPart
  dsimp only
  split
  · next h =>
    obtain ⟨c, hc⟩ : ∃ c, s.head? = some c := h.1.elim (fun h => ⟨_, h⟩) fun h => ⟨_, h⟩
    rw [eq_cons_of_head hc, List.tail_cons, List.append_assoc]
    refine (List.prefix_cons_inj _).mpr ?_
    generalize hmark : (s.tail.takeWhile fun c => c = chr '+' || c = chr '-').take 1 = mark
    have hpre : mark <+: s.tail := by
      rw [← hmark]
      exact (List.take_prefix 1 _).trans (List.takeWhile_prefix _)
    obtain ⟨u, hu⟩ := hpre
    rw [← hu, List.drop_left]
    exact (List.prefix_append_right_inj mark).mpr (List.takeWhile_prefix _)
  · exact List.nil_prefix

section Parts

variable {r : PyStr} (h : Ends r) (s : PyStr)

include h

theorem signPart_append : signPart (s ++ r) = signPart s := by
  unfold signPart
  rw [h.takeWhile fun c hc => .inr (by rw [of_decide_eq_true hc]; decide)]

theorem wholePart_append : wholePart (s ++ r) = wholePart s := by
  unfold wholePart
  simp only [h.head (.inl (by decide : isAsciiDigit (chr '0') = true)), h.takeWhile fun c hc => .inl hc]

theorem fractionPart_append : fractionPart (s ++ r) = fractionPart s := by
  unfold fractionPart
  simp only [h.head (.inr (by decide : chr '.' ∈ lit "-+.eE"))]
  by_cases hdot : s.head? = some (chr '.')
  · have htail : (s ++ r).tail = s.tail ++ r := by
      rw [eq_cons_of_head hdot]
      rfl
    rw [htail, h.takeWhile fun c hc => .inl hc]
  · rw [if_neg fun h => hdot h.1, if_neg fun h => hdot h.1]

theorem exponentPart_append : exponentPart (s ++ r) = exponentPart s := by
  unfold exponentPart
  simp only [h.head (.inr (by decide : chr 'e' ∈ lit "-+.eE")),
    h.head (.inr (by decide : chr 'E' ∈ lit "-+.eE"))]
  by_cases hexp : s.head? = some (chr 'e') ∨ s.head? = some (chr 'E')
  · obtain ⟨c, hc⟩ : ∃ c, s.head? = some c := hexp.elim (fun h => ⟨_, h⟩) fun h => ⟨_, h⟩
    have htail : (s ++ r).tail = s.tail ++ r := by
      rw [eq_cons_of_head hc]
      rfl
    have htake : (s ++ r).take 1 = s.take 1 := by
      rw [eq_cons_of_head hc]
      rfl
    have hmark : (s.tail ++ r).takeWhile (fun c => c = chr '+' || c = chr '-') =
        s.tail.takeWhile fun c => c = chr '+' || c = chr '-' := by
      refine h.takeWhile (fun c hc => .inr ?_) _
      rw [Bool.or_eq_true, decide_eq_true_eq, decide_eq_true_eq] at hc
      rcases hc with rfl | rfl <;> decide
    rw [htail, htake, hmark]
    generalize hm : (s.tail.takeWhile fun c => c = chr '+' || c = chr '-').take 1 = mark
    have hlen : mark.length ≤ s.tail.length := by
      rw [← hm]
      exact ((List.take_prefix 1 _).trans (List.takeWhile_prefix _)).length_le
    rw [List.drop_append_of_le_length hlen, h.takeWhile fun c hc => .inl hc]
  · rw [if_neg fun h => hexp h.1, if_neg fun h => hexp h.1]

/-- The number at the start of a text ends where the text ends. -/
theorem matchNumber_append :
    matchNumber (s ++ r) = (matchNumber s).map fun t => (t.1, t.2.1, t.2.2 ++ r) := by
  rw [matchNumber_eq, matchNumber_eq]
  dsimp only
  rw [signPart_append h, List.drop_append_of_le_length (signPart_leads s).length_le]
  generalize s.drop (signPart s).length = s₁
  rw [wholePart_append h, List.drop_append_of_le_length (wholePart_leads s₁).length_le]
  generalize s₁.drop (wholePart s₁).length = s₂
  rw [fractionPart_append h, List.drop_append_of_le_length (fractionPart_leads s₂).length_le]
  generalize s₂.drop (fractionPart s₂).length = s₃
  rw [exponentPart_append h, List.drop_append_of_le_length (exponentPart_leads s₃).length_le]
  split
  · rfl
  · rfl

end Parts

/-! ### Integers and floats -/

/-- Only the text of zero starts with a zero. -/
theorem digitsText_zero {n : ℕ} (h : (digitsText n).head? = some (chr '0')) : digitsText n = [chr '0'] := by
  induction n using Nat.strong_induction_on with
  | _ n ih =>
    unfold digitsText at h ⊢
    rw [Nat.toDigits_eq_if (by decide)] at h ⊢
    split_ifs at h ⊢ with hlt
    · exact congrArg (fun c => [c]) (Option.some.inj h)
    · have hne := digitsText_ne_nil (n / 10)
      have hhead : (digitsText (n / 10)).head? = some (chr '0') := by
        rw [List.map_append] at h
        rwa [← digitsText, List.head?_append_of_ne_nil _ hne] at h
      have hzero := congrArg digitsValue (ih (n / 10) (by omega) hhead)
      rw [digitsValue_digitsText, show digitsValue [chr '0'] = 0 by decide] at hzero
      omega

theorem takeWhile_digitsText (n : ℕ) : (digitsText n).takeWhile isAsciiDigit = digitsText n :=
  List.takeWhile_eq_self_iff.mpr (digitsText_isDigit n)

theorem wholePart_digitsText (n : ℕ) : wholePart (digitsText n) = digitsText n := by
  unfold wholePart
  split
  · next h => exact (digitsText_zero h).symm
  · exact takeWhile_digitsText n

/-- An integer is read to its end. -/
theorem matchNumber_intText (i : ℤ) : matchNumber (intText i) = some (intText i, false, []) := by
  have hdigits : ∀ n, signPart (digitsText n) = [] := by
    intro n
    unfold signPart
    have : (digitsText n).takeWhile (· = chr '-') = [] := by
      cases hd : digitsText n with
      | nil => rfl
      | cons c t =>
        refine List.takeWhile_cons_of_neg fun hc => digitsText_ne_minus n t ?_
        rw [hd, of_decide_eq_true hc]
    rw [this, List.take_nil]
  have hminus : ∀ n, signPart (chr '-' :: digitsText n) = [chr '-'] := by
    intro n
    unfold signPart
    rw [List.takeWhile_cons_of_pos (by decide)]
    rfl
  rw [matchNumber_eq]
  unfold intText
  dsimp only
  split
  · rw [hminus, List.length_singleton, List.drop_one, List.tail_cons, wholePart_digitsText, List.drop_length,
      if_neg (digitsText_ne_nil _)]
    simp [fractionPart, exponentPart]
  · rw [hdigits, List.length_nil, List.drop_zero, wholePart_digitsText, List.drop_length,
      if_neg (digitsText_ne_nil _)]
    simp [fractionPart, exponentPart]

/-- A number starts with a digit, perhaps after a sign. -/
theorem matchNumber_head {s : PyStr} {t : PyStr × Bool × PyStr} (h : matchNumber s = some t) :
    ∃ c u, isAsciiDigit c = true ∧ (s = c :: u ∨ s = chr '-' :: c :: u) := by
  rw [matchNumber_eq] at h
  dsimp only at h
  split_ifs at h with hwhole
  have hs : signPart s ++ s.drop (signPart s).length = s :=
    List.prefix_iff_eq_append.mp (signPart_leads s)
  have hfirst : ∃ c u, isAsciiDigit c = true ∧ s.drop (signPart s).length = c :: u := by
    generalize s.drop (signPart s).length = s₁ at hwhole
    cases s₁ with
    | nil => exact absurd rfl hwhole
    | cons c u =>
      refine ⟨c, u, ?_, rfl⟩
      by_contra hc
      refine hwhole ?_
      unfold wholePart
      rw [if_neg, List.takeWhile_cons_of_neg hc]
      intro hzero
      exact hc (by rw [Option.some.inj hzero]; decide)
  obtain ⟨c, u, hc, hdrop⟩ := hfirst
  refine ⟨c, u, hc, ?_⟩
  have hsign : signPart s = [] ∨ signPart s = [chr '-'] := by
    unfold signPart
    cases htake : s.takeWhile (· = chr '-') with
    | nil => exact .inl rfl
    | cons d w =>
      have hd : d ∈ s.takeWhile (· = chr '-') := by
        rw [htake]
        exact List.mem_cons_self
      have heq : decide (d = chr '-') = true := List.mem_takeWhile_imp (p := (· = chr '-')) hd
      obtain rfl := of_decide_eq_true heq
      exact .inr rfl
  rcases hsign with hsign | hsign
  · exact .inl (by rw [← hdrop, hsign]; rfl)
  · refine .inr ?_
    rw [hdrop, hsign] at hs
    exact hs.symm

theorem length_digitsText {n k : ℕ} (hk : 0 < k) (h : n < 10 ^ k) : (digitsText n).length ≤ k := by
  induction k, hk using Nat.le_induction generalizing n with
  | base =>
    unfold digitsText
    rw [Nat.toDigits_eq_if (by decide), if_pos (by simpa using h)]
    exact le_rfl
  | succ k _ ih =>
    have hdiv : n / 10 < 10 ^ k := by
      rw [Nat.div_lt_iff_lt_mul (by decide), ← pow_succ]
      exact h
    have hshort := ih hdiv
    unfold digitsText at hshort ⊢
    rw [Nat.toDigits_eq_if (by decide)]
    split_ifs
    · simp
    · rw [List.length_map] at hshort
      rw [List.length_map, List.length_append, List.length_singleton]
      omega

/-- A printable integer is converted back. -/
theorem intOfText_intText {i : ℤ} (h : Json.isPrintable i = true) : intOfText (intText i) = .ok i := by
  have hdrop : ∀ n, (digitsText n).dropWhile (· = chr '-') = digitsText n := by
    intro n
    cases hd : digitsText n with
    | nil => rfl
    | cons c t =>
      refine List.dropWhile_cons_of_neg fun hc => digitsText_ne_minus n t ?_
      rw [hd, of_decide_eq_true hc]
  have hdigits : (intText i).dropWhile (· = chr '-') = digitsText i.natAbs := by
    unfold intText
    split
    · rw [List.dropWhile_cons_of_pos (by decide), hdrop]
    · exact hdrop _
  have hlen : (digitsText i.natAbs).length ≤ Json.intDigitsLimit :=
    length_digitsText (Nat.succ_pos _) (of_decide_eq_true h)
  unfold intOfText
  dsimp only
  rw [hdigits, if_neg (by omega), digitsValue_digitsText]
  unfold intText
  split_ifs with hneg hhead hhead
  · rw [Int.ofNat_natAbs_of_nonpos (le_of_lt hneg), neg_neg]
  · exact absurd rfl hhead
  · exact absurd (eq_cons_of_head hhead) (digitsText_ne_minus _ _)
  · rw [Int.natAbs_of_nonneg (not_lt.mp hneg)]

/-! ### Scalars -/

/-- No constant starts as a number does. -/
theorem scanConstant_number {s r : PyStr} {t : PyStr × Bool × PyStr} (h : matchNumber s = some t) :
    scanConstant (s ++ r) = none := by
  have hfirst : ∀ c u, isAsciiDigit c = true → ∀ kv ∈ jsonConstants,
      startsWith (c :: u) kv.1 = false ∧ startsWith (chr '-' :: c :: u) kv.1 = false := by
    intro c u hc kv hkv
    have hne : ∀ d : CodePoint, isAsciiDigit d = false → (d == c) = false := by
      rintro d hd
      refine beq_eq_false_iff_ne.mpr ?_
      rintro rfl
      rw [hd] at hc
      cases hc
    have hkeys : kv.1 ∈ jsonConstants.map Prod.fst := List.mem_map_of_mem hkv
    have hsplit : ∀ key ∈ jsonConstants.map Prod.fst, ∃ a b w, key = a :: b :: w ∧
        isAsciiDigit a = false ∧ isAsciiDigit b = false ∧ (a = chr '-' ∨ (a == chr '-') = false) := by
      simp only [jsonConstants, List.map_cons, List.map_nil, List.forall_mem_cons]
      refine ⟨⟨_, _, _, rfl, ?_⟩, ⟨_, _, _, rfl, ?_⟩, ⟨_, _, _, rfl, ?_⟩, ⟨_, _, _, rfl, ?_⟩, ⟨_, _, _, rfl, ?_⟩,
        ⟨_, _, _, rfl, ?_⟩, by simp⟩ <;> decide
    obtain ⟨a, b, w, hkey, ha, hb, hor⟩ := hsplit kv.1 hkeys
    unfold startsWith
    rw [hkey, List.isPrefixOf_cons_cons, List.isPrefixOf_cons_cons, List.isPrefixOf_cons_cons, hne a ha, hne b hb]
    simp
  obtain ⟨c, u, hc, hs⟩ := matchNumber_head h
  unfold scanConstant
  rw [Option.map_eq_none_iff, List.find?_eq_none]
  intro kv hkv
  rw [Bool.not_eq_true]
  rcases hs with rfl | rfl
  · exact (hfirst c (u ++ r) hc kv hkv).1
  · exact (hfirst c (u ++ r) hc kv hkv).2

variable {rt : Runtime}

/-- The interpreter reads a float from the text it writes. -/
def Runtime.ReadsFloat (rt : Runtime) (x : PyFloat) : Prop :=
  x.text ∈ [lit "NaN", lit "Infinity", lit "-Infinity"] ∨
    matchNumber x.text = some (x.text, true, []) ∧ rt.floatOfText x.text = x

theorem scanScalar_int {i : ℤ} (h : Json.isPrintable i = true) {r : PyStr} (hr : Ends r) :
    scanScalar rt (intText i ++ r) = .ok (.int i, r) := by
  unfold scanScalar
  rw [scanConstant_number (matchNumber_intText i), matchNumber_append hr, matchNumber_intText]
  dsimp only [Option.map_some, List.nil_append]
  rw [if_neg (by decide), intOfText_intText h]
  rfl

theorem scanScalar_float {x : PyFloat} (h : rt.ReadsFloat x) {r : PyStr} (hr : Ends r) :
    scanScalar rt (x.text ++ r) = .ok (.float x, r) := by
  obtain ⟨text, shape⟩ := x
  rcases h with h | ⟨hmatch, hread⟩
  · simp only [List.mem_cons, List.not_mem_nil, or_false] at h
    rcases h with rfl | rfl | rfl <;> rfl
  · unfold scanScalar
    rw [scanConstant_number hmatch, matchNumber_append hr, hmatch]
    dsimp only [Option.map_some, List.nil_append]
    rw [if_pos rfl, hread]

/-! ## Strings -/

/-- What stands here is not the escape of a low surrogate. -/
def NoLowAfter (r : PyStr) : Prop :=
  ∀ t, r = chr '\\' :: chr 'u' :: t → ∃ m u, scanHex4 t = some (m, u) ∧ isLowSurrogate m = false

/-- A high surrogate stands right before a low one. -/
def hasSurrogatePair : PyStr → Bool
  | c :: d :: s => isHighSurrogate c.val && isLowSurrogate d.val || hasSurrogatePair (d :: s)
  | [_] | [] => false

/-- The string keeps its characters when it is read. -/
def JsonFormat.Separable (f : JsonFormat) (s : PyStr) : Prop :=
  f.ensureAscii = true → hasSurrogatePair s = false

theorem scanHex4_unitDigits {n : ℕ} (h : n < 0x10000) (r : PyStr) :
    scanHex4 (unitDigits n ++ r) = some (n, r) := by
  unfold unitDigits
  simp only [List.cons_append, List.nil_append]
  rw [scanHex4, hexValue_hexDigit _ (by omega), hexValue_hexDigit _ (by omega),
    hexValue_hexDigit _ (by omega), hexValue_hexDigit _ (by omega)]
  simp only [Option.bind_eq_bind, Option.bind_some, Option.pure_def, Option.some.injEq, Prod.mk.injEq,
    and_true]
  omega

theorem scanChar_unitEscape (n : ℕ) (r : PyStr) :
    scanChar (unitEscape n ++ r) = scanUnit (unitDigits n ++ r) := rfl

theorem scanChar_unit {n : ℕ} (h : n < 0x10000) {r : PyStr}
    (hr : isHighSurrogate n = true → NoLowAfter r) :
    scanChar (unitEscape n ++ r) = some (point n, r) := by
  rw [scanChar_unitEscape, scanUnit, scanHex4_unitDigits h]
  show (if isHighSurrogate n = true then _ else _) = _
  by_cases hhigh : isHighSurrogate n = true
  · rw [if_pos hhigh]
    cases r with
    | nil => rfl
    | cons a r =>
      cases r with
      | nil => rfl
      | cons b r =>
        dsimp only
        split
        · next hab =>
          obtain ⟨rfl, rfl⟩ := hab
          obtain ⟨m, u, hm, hlow⟩ := hr hhigh r rfl
          rw [hm]
          show (if isLowSurrogate m = true then _ else _) = _
          rw [hlow]
          rfl
        · rfl
  · rw [if_neg hhigh]
    rfl

/-- Two units are read as one character. -/
theorem scanChar_pair {n : ℕ} (h : n < 0x100000) (r : PyStr) :
    scanChar (unitEscape (0xD800 + n / 1024) ++ (unitEscape (0xDC00 + n % 1024) ++ r)) =
      some (point (0x10000 + n), r) := by
  have hhigh : isHighSurrogate (0xD800 + n / 1024) = true := by
    simp only [isHighSurrogate, Bool.and_eq_true, decide_eq_true_eq]
    omega
  have hlow : isLowSurrogate (0xDC00 + n % 1024) = true := by
    simp only [isLowSurrogate, Bool.and_eq_true, decide_eq_true_eq]
    omega
  have hsum : 0x10000 + (0xD800 + n / 1024 - 0xD800) * 1024 + (0xDC00 + n % 1024 - 0xDC00) = 0x10000 + n := by
    omega
  rw [scanChar_unitEscape, scanUnit, scanHex4_unitDigits (by omega)]
  show (if isHighSurrogate (0xD800 + n / 1024) = true then
      (scanHex4 (unitDigits (0xDC00 + n % 1024) ++ r)).bind _ else _) = _
  rw [if_pos hhigh, scanHex4_unitDigits (by omega)]
  show (if isLowSurrogate (0xDC00 + n % 1024) = true then some (point _, r) else _) = _
  rw [if_pos hlow, hsum]

/-- The ways a character is written when it is not escaped to ASCII. -/
theorem escapeChar_cases (c : CodePoint) :
    (escapeChar c = [c] ∧ c ≠ chr '"' ∧ c ≠ chr '\\') ∨
      (∃ x, escapeChar c = [chr '\\', x] ∧ x ≠ chr 'u') ∨
      (escapeChar c = unitEscape c.val ∧ c.val < 0x20) := by
  unfold escapeChar
  split_ifs with h1 h2 h3 h4 h5 h6 h7 h8
  iterate 7 exact .inr (.inl ⟨_, rfl, by decide⟩)
  · refine .inr (.inr ⟨?_, h8⟩)
    have hzero : c.val / 4096 = 0 ∧ c.val / 256 % 16 = 0 ∧ c.val / 16 % 16 = c.val / 16 := by omega
    unfold unitEscape unitDigits
    rw [hzero.1, hzero.2.1, hzero.2.2]
    rfl
  · exact .inl ⟨rfl, h1, h2⟩

section Strings

variable {f : JsonFormat}

theorem char_head (c : CodePoint) : ∃ d t, f.char c = d :: t ∧ d ≠ chr '"' := by
  unfold JsonFormat.char asciiChar
  split_ifs
  · exact escapeChar_head c
  all_goals first
    | exact escapeChar_head c
    | exact ⟨_, _, rfl, by decide⟩

theorem tail_cons (c : CodePoint) (s r : PyStr) : f.tail (c :: s) ++ r = f.char c ++ (f.tail s ++ r) := by
  simp [JsonFormat.tail, List.append_assoc]

/-- A character that is written alone, or starts a string without a low surrogate, is read back. -/
theorem scanChar_char (c : CodePoint) {r : PyStr}
    (h : f.ensureAscii = true → isHighSurrogate c.val = true → NoLowAfter r) :
    scanChar (f.char c ++ r) = some (c, r) := by
  unfold JsonFormat.char asciiChar
  split_ifs with hascii hplain hunit
  · exact scanChar_escapeChar c r
  · rw [scanChar_unit hunit (h hascii), point_val]
  · have hlt : c.val - 0x10000 < 0x100000 := by have := c.isLt; omega
    rw [List.append_assoc, scanChar_pair hlt, show 0x10000 + (c.val - 0x10000) = c.val by omega, point_val]
  · exact scanChar_escapeChar c r

/-- A string that does not start with a low surrogate does not look like one. -/
theorem noLowAfter_tail (hascii : f.ensureAscii = true) {s : PyStr}
    (h : ∀ d ∈ s.head?, isLowSurrogate d.val = false) (r : PyStr) : NoLowAfter (f.tail s ++ r) := by
  intro t ht
  cases s with
  | nil => exact absurd (List.cons.inj ht).1 (by decide)
  | cons d s =>
    have hd : isLowSurrogate d.val = false := h d rfl
    have hunit : ∀ {n : ℕ} {w : PyStr}, n < 0x10000 → isLowSurrogate n = false →
        unitEscape n ++ w = chr '\\' :: chr 'u' :: t → ∃ m u, scanHex4 t = some (m, u) ∧ isLowSurrogate m = false := by
      intro n w hn hlow heq
      have htail : unitDigits n ++ w = t := (List.cons.inj (List.cons.inj heq).2).2
      exact ⟨n, w, by rw [← htail, scanHex4_unitDigits hn], hlow⟩
    rw [tail_cons] at ht
    unfold JsonFormat.char asciiChar at ht
    rw [if_pos hascii] at ht
    split_ifs at ht with hplain hmid
    · rcases escapeChar_cases d with ⟨he, -, hne⟩ | ⟨x, he, hx⟩ | ⟨he, hlt⟩
      · rw [he] at ht
        exact absurd (List.cons.inj ht).1 hne
      · rw [he] at ht
        exact absurd (List.cons.inj (List.cons.inj ht).2).1 hx
      · rw [he] at ht
        exact hunit (by omega) hd ht
    · exact hunit hmid hd ht
    · rw [List.append_assoc] at ht
      have hlt := d.isLt
      refine hunit (by omega) ?_ ht
      simp only [isLowSurrogate, Bool.and_eq_false_iff, decide_eq_false_iff_not]
      omega

theorem JsonFormat.Separable.of_cons {c : CodePoint} {s : PyStr} (h : f.Separable (c :: s)) :
    f.Separable s := by
  intro hascii
  have hpair := h hascii
  cases s with
  | nil => rfl
  | cons d s =>
    rw [hasSurrogatePair, Bool.or_eq_false_iff] at hpair
    exact hpair.2

/-- A string is read back, whatever follows it. -/
theorem scanString_tail {s : PyStr} (h : f.Separable s) (r : PyStr) {fuel : ℕ} (hfuel : s.length < fuel) :
    scanString fuel (f.tail s ++ r) = some (s, r) := by
  induction s generalizing fuel with
  | nil =>
    obtain ⟨fuel, rfl⟩ := Nat.exists_eq_add_of_lt hfuel
    rfl
  | cons c s ih =>
    obtain ⟨fuel, rfl⟩ := Nat.exists_eq_add_one_of_ne_zero (Nat.ne_of_gt (Nat.zero_lt_of_lt hfuel))
    obtain ⟨d, t, hd, hne⟩ := char_head (f := f) c
    have hhead : (f.tail (c :: s) ++ r).head? ≠ some (chr '"') := by
      rw [tail_cons, hd]
      exact fun heq => hne (Option.some.inj heq)
    have hsep : f.ensureAscii = true → isHighSurrogate c.val = true → NoLowAfter (f.tail s ++ r) := by
      intro hascii hhigh
      refine noLowAfter_tail hascii (fun d hd => ?_) r
      have hpair := h hascii
      cases s with
      | nil => cases hd
      | cons e s =>
        obtain rfl : e = d := by simpa using hd
        rw [hasSurrogatePair, Bool.or_eq_false_iff, hhigh, Bool.true_and] at hpair
        exact hpair.1
    rw [scanString, if_neg hhead, tail_cons, scanChar_char c hsep]
    show (scanString fuel (f.tail s ++ r)).bind (fun p => some (c :: p.1, p.2)) = _
    rw [ih h.of_cons (by simpa using hfuel)]
    rfl

theorem length_tail (s : PyStr) : s.length < (f.tail s).length := by
  induction s with
  | nil => exact Nat.zero_lt_one
  | cons c s ih =>
    obtain ⟨d, t, hd, -⟩ := char_head (f := f) c
    have h := congrArg List.length (tail_cons (f := f) c s [])
    simp only [List.append_nil, List.length_append, hd, List.length_cons] at h ⊢
    omega

theorem scanString_string {s : PyStr} (h : f.Separable s) (r : PyStr) :
    scanString ((f.quote s ++ r).length + 1) (f.quote s ++ r).tail = some (s, r) := by
  refine scanString_tail h r ?_
  have := length_tail (f := f) s
  simp only [JsonFormat.quote, List.cons_append, List.length_cons, List.length_append]
  omega

end Strings

end Py
