import SentinelCore.Py.DateTime
import Mathlib.Data.List.TakeWhile
import Mathlib.Tactic.IntervalCases

/-!
# The texts `fromisoformat` reads

`fromisoformat` of Python 3.11 reads six forms of a date, any character behind it, a clock of two-digit
parts with or without colons and a fraction, and a zone. Some characters are left over on the way: one
behind the clock, what follows six digits of a fraction, and what follows a NUL. Here the forms are data
(`DateForm`, `ClockForm`, `ZoneForm`), a text of which is written by `text`, and `parseIsoformat_offset_iff`
says which texts are read with an offset: those of an `IsoForm`.
-/

namespace Py

/-- The text consists of `n` decimal digits. -/
def Digits (n : ℕ) (s : PyStr) : Prop := s.length = n ∧ s.all isAsciiDigit = true

theorem takeDigits_eq_some {n v : ℕ} {s rest : PyStr} :
    takeDigits n s = some (v, rest) ↔ ∃ ds, Digits n ds ∧ s = ds ++ rest ∧ digitsValue ds = v := by
  unfold takeDigits Digits
  constructor
  · intro h
    split_ifs at h with hs
    obtain ⟨rfl, rfl⟩ := Prod.mk.inj (Option.some.inj h)
    exact ⟨s.take n, ⟨List.length_take_of_le hs.1, hs.2⟩, (List.take_append_drop n s).symm, rfl⟩
  · rintro ⟨ds, ⟨rfl, hds⟩, rfl, rfl⟩
    rw [List.take_left, List.drop_left, if_pos ⟨by simp, hds⟩]

/-- Digits at the front of a text are taken. -/
theorem Digits.take {n : ℕ} {ds : PyStr} (h : Digits n ds) (rest : PyStr) :
    takeDigits n (ds ++ rest) = some (digitsValue ds, rest) :=
  takeDigits_eq_some.mpr ⟨ds, h, rfl, rfl⟩

/-- A character that is no digit does not start digits. -/
theorem Digits.head?_ne {n : ℕ} {ds : PyStr} (h : Digits (n + 1) ds) (rest : PyStr) {c : CodePoint}
    (hc : isAsciiDigit c = false) : (ds ++ rest).head? ≠ some c := by
  obtain ⟨hlength, hall⟩ := h
  cases ds with
  | nil => cases hlength
  | cons d ds =>
    intro hd
    obtain rfl := Option.some.inj hd
    rw [List.all_cons, hc, Bool.false_and] at hall
    cases hall

/-! ## Dates -/

/-- A date, as it is written; `dashed` is the extended form. -/
inductive DateForm where
  | calendar (dashed : Bool) (year month day : PyStr)
  | week (dashed : Bool) (year number : PyStr)
  | weekday (dashed : Bool) (year number day : PyStr)

/-- The mark between two parts, if it is written. -/
def mark (written : Bool) (c : Char) : PyStr := if written then [chr c] else []

namespace DateForm

def text : DateForm → PyStr
  | .calendar dashed year month day => year ++ (mark dashed '-' ++ (month ++ (mark dashed '-' ++ day)))
  | .week dashed year number => year ++ (mark dashed '-' ++ chr 'W' :: number)
  | .weekday dashed year number day =>
    year ++ (mark dashed '-' ++ chr 'W' :: (number ++ (mark dashed '-' ++ day)))

/-- The parts are digits, as many as there have to be. -/
def IsDigits : DateForm → Prop
  | .calendar _ year month day => Digits 4 year ∧ Digits 2 month ∧ Digits 2 day
  | .week _ year number => Digits 4 year ∧ Digits 2 number
  | .weekday _ year number day => Digits 4 year ∧ Digits 2 number ∧ Digits 1 day

/-- The number of the day. -/
def ordinal : DateForm → Option ℕ
  | .calendar _ year month day =>
    ordinalOfDate (digitsValue year) (digitsValue month) (digitsValue day)
  | .week _ year number => ordinalOfWeek (digitsValue year) (digitsValue number) 1
  | .weekday _ year number day =>
    ordinalOfWeek (digitsValue year) (digitsValue number) (digitsValue day)

end DateForm

theorem isAsciiDigit_dash : isAsciiDigit (chr '-') = false := by decide

theorem isAsciiDigit_week : isAsciiDigit (chr 'W') = false := by decide

@[simp] theorem mark_true (c : Char) : mark true c = [chr c] := rfl

@[simp] theorem mark_false (c : Char) : mark false c = [] := rfl

/-- A mark that has to be there is skipped. -/
theorem skip_mark {written : Bool} {s : PyStr} {c : Char}
    (h : written = true → s.head? = some (chr c)) :
    ∃ rest, s = mark written c ++ rest ∧ (if written = true then s.tail else s) = rest := by
  cases written with
  | true => exact ⟨s.tail, List.eq_cons_of_mem_head? (h rfl), rfl⟩
  | false => exact ⟨s, rfl, rfl⟩

/-- A text starts with the mark or without it. -/
theorem exists_mark (s : PyStr) (c : Char) : ∃ written rest, s = mark written c ++ rest ∧
    (s.head? = some (chr c)) = (written = true) ∧
      (if written = true then s.tail else s) = rest := by
  have hiff : (s.head? = some (chr c)) = (decide (s.head? = some (chr c)) = true) :=
    propext decide_eq_true_iff.symm
  obtain ⟨rest, hs, hskip⟩ := skip_mark (of_decide_eq_true : decide (s.head? = some (chr c)) = true → _)
  exact ⟨_, rest, hs, hiff, hskip⟩

theorem Digits.take_all {n : ℕ} {ds : PyStr} (h : Digits n ds) :
    takeDigits n ds = some (digitsValue ds, []) := by
  have hall := h.take []
  rwa [List.append_nil] at hall

theorem Digits.head?_all {n : ℕ} {ds : PyStr} (h : Digits (n + 1) ds) {c : CodePoint}
    (hc : isAsciiDigit c = false) : ds.head? ≠ some c := by
  have hall := h.head?_ne [] hc
  rwa [List.append_nil] at hall

theorem Digits.ne_nil {n : ℕ} {ds : PyStr} (h : Digits (n + 1) ds) : ds ≠ [] := by
  rintro rfl
  cases h.1

/-- The date of a form is read. -/
theorem parseIsoformatDate_text {d : DateForm} (h : d.IsDigits) :
    parseIsoformatDate d.text = d.ordinal := by
  have hne : some (chr 'W') ≠ some (chr '-') := by decide
  cases d with
  | calendar dashed year month day =>
    obtain ⟨hy, hm, hd⟩ := h
    have hweek : ∀ rest, (month ++ rest).head? ≠ some (chr 'W') := fun rest =>
      hm.head?_ne rest isAsciiDigit_week
    have hmonth : ∀ rest, (month ++ rest).head? ≠ some (chr '-') := fun rest =>
      hm.head?_ne rest isAsciiDigit_dash
    cases dashed <;>
      simp only [parseIsoformatDate, DateForm.text, mark_true, mark_false, List.cons_append,
        List.nil_append, hy.take, hm.take, hd.take_all, Option.bind_eq_bind, Option.bind_some,
        List.head?_cons, List.tail_cons, if_true, if_false, hweek, hmonth, hd.head?_all isAsciiDigit_dash,
        ne_eq, not_true_eq_false, DateForm.ordinal]
  | week dashed year number =>
    obtain ⟨hy, hn⟩ := h
    cases dashed <;>
      simp only [parseIsoformatDate, DateForm.text, mark_true, mark_false, List.cons_append,
        List.nil_append, hy.take, hn.take_all, Option.bind_eq_bind, Option.bind_some, List.head?_cons,
        List.tail_cons, if_true, if_false, hne, DateForm.ordinal]
  | weekday dashed year number day =>
    obtain ⟨hy, hn, hd⟩ := h
    cases dashed <;>
      simp only [parseIsoformatDate, DateForm.text, mark_true, mark_false, List.cons_append,
        List.nil_append, hy.take, hn.take, hd.take_all, Option.bind_eq_bind, Option.bind_some,
        List.head?_cons, List.tail_cons, if_true, if_false, hne, hd.ne_nil,
        hd.head?_all isAsciiDigit_dash, ne_eq, not_true_eq_false, reduceCtorEq, DateForm.ordinal]

/-- The last part of a date: what is marked like the others, and digits to the end. -/
theorem parseIsoformatDate_last {k n : ℕ} {dashed : Bool} {s : PyStr} {f : ℕ → Option ℕ}
    (h : (if (dashed = true) ≠ (s.head? = some (chr '-')) then none
      else (takeDigits k (if dashed = true then s.tail else s)).bind fun p =>
        if p.2 = [] then f p.1 else none) = some n) :
    ∃ ds, Digits k ds ∧ s = mark dashed '-' ++ ds ∧ f (digitsValue ds) = some n := by
  have hsame : (dashed = true) = (s.head? = some (chr '-')) := by_contra fun hne => by
    rw [if_pos hne] at h
    cases h
  rw [if_neg (not_not.mpr hsame)] at h
  obtain ⟨rest, hs, hskip⟩ := skip_mark fun hd => cast hsame hd
  rw [hskip] at h
  obtain ⟨⟨v, last⟩, hdigits, h⟩ := Option.bind_eq_some_iff.mp h
  dsimp only at h
  split_ifs at h with hlast
  obtain ⟨ds, hds, hrest, rfl⟩ := takeDigits_eq_some.mp hdigits
  rw [hlast, List.append_nil] at hrest
  exact ⟨ds, hds, by rw [hs, hrest], h⟩

/-- What is read as a date is a form of it. -/
theorem parseIsoformatDate_form {s : PyStr} {n : ℕ} (h : parseIsoformatDate s = some n) :
    ∃ d : DateForm, d.IsDigits ∧ d.text = s ∧ d.ordinal = some n := by
  unfold parseIsoformatDate at h
  obtain ⟨⟨_, s1⟩, hyear, h⟩ := Option.bind_eq_some_iff.mp h
  obtain ⟨year, hy, rfl, rfl⟩ := takeDigits_eq_some.mp hyear
  obtain ⟨dashed, s2, hs1, hdashed, hskip⟩ := exists_mark s1 '-'
  dsimp only at h
  simp only [hdashed, hskip] at h
  rw [hs1]
  by_cases hw : s2.head? = some (chr 'W')
  · rw [if_pos hw] at h
    obtain ⟨⟨_, s3⟩, hnumber, h⟩ := Option.bind_eq_some_iff.mp h
    dsimp only at h
    obtain ⟨number, hn, htail, rfl⟩ := takeDigits_eq_some.mp hnumber
    have hs2 : s2 = chr 'W' :: (number ++ s3) := by
      rw [← htail]
      exact List.eq_cons_of_mem_head? hw
    rw [hs2]
    by_cases hs3 : s3 = []
    · rw [if_pos hs3] at h
      exact ⟨.week dashed year number, ⟨hy, hn⟩, by rw [hs3, List.append_nil]; rfl, h⟩
    · rw [if_neg hs3] at h
      obtain ⟨day, hd, rfl, hday⟩ := parseIsoformatDate_last h
      exact ⟨.weekday dashed year number day, ⟨hy, hn, hd⟩, rfl, hday⟩
  · rw [if_neg hw] at h
    obtain ⟨⟨_, s3⟩, hmonth, h⟩ := Option.bind_eq_some_iff.mp h
    obtain ⟨month, hm, rfl, rfl⟩ := takeDigits_eq_some.mp hmonth
    obtain ⟨day, hd, rfl, hday⟩ := parseIsoformatDate_last h
    exact ⟨.calendar dashed year month day, ⟨hy, hm, hd⟩, rfl, hday⟩

/-! ## Clocks -/

/-- The parts of a clock reading that are written. -/
inductive ClockParts where
  | hour (hour : PyStr)
  | minute (colons : Bool) (hour minute : PyStr)
  | second (colons : Bool) (hour minute second : PyStr)

/-- What is written behind them: what is left over, or a fraction and what is left over. -/
inductive ClockTail where
  | rest (left : PyStr)
  | fraction (point digits left : PyStr)

namespace ClockParts

def text : ClockParts → PyStr
  | .hour h => h
  | .minute colons h m => h ++ (mark colons ':' ++ m)
  | .second colons h m s => h ++ (mark colons ':' ++ (m ++ (mark colons ':' ++ s)))

/-- The parts are digits, as many as there have to be. -/
def IsDigits : ClockParts → Prop
  | .hour h => Digits 2 h
  | .minute _ h m => Digits 2 h ∧ Digits 2 m
  | .second _ h m s => Digits 2 h ∧ Digits 2 m ∧ Digits 2 s

def reading (micros : ℕ) : ClockParts → Clock
  | .hour h => ⟨digitsValue h, 0, 0, micros⟩
  | .minute _ h m => ⟨digitsValue h, digitsValue m, 0, micros⟩
  | .second _ h m s => ⟨digitsValue h, digitsValue m, digitsValue s, micros⟩

end ClockParts

/-- The digits of a fraction, all of them that follow, and what is left over behind six. -/
def Fraction (digits left : PyStr) : Prop :=
  digits ≠ [] ∧ digits.all isAsciiDigit = true ∧
    (left = [] ∨ 6 ≤ digits.length ∧ left.head?.any isAsciiDigit = false)

namespace ClockTail

def text : ClockTail → PyStr
  | .rest left => left
  | .fraction point digits left => point ++ (digits ++ left)

/-- The tail can stand behind any parts: the fraction follows a point or a comma. -/
def IsPlain : ClockTail → Prop
  | .rest left => atEnd left = true
  | .fraction point digits left => (point = lit "." ∨ point = lit ",") ∧ Fraction digits left

/-- The tail can stand behind the parts. The fraction of the seconds can also follow a third colon, or
without colons the seconds themselves. -/
def Follows (parts : ClockParts) (tail : ClockTail) : Prop :=
  tail.IsPlain ∨ match parts, tail with
    | .second true _ _ _, .fraction point digits left => point = lit ":" ∧ Fraction digits left
    | .second false _ _ _, .fraction point digits left =>
      point = [] ∧ Fraction digits left ∧ 2 ≤ digits.length
    | _, _ => False

/-- The fraction in microseconds. -/
def micros : ClockTail → ℕ
  | .rest _ => 0
  | .fraction _ digits _ => digitsValue (digits.take 6) * 10 ^ (6 - digits.length)

def left : ClockTail → PyStr
  | .rest left => left
  | .fraction _ _ left => left

end ClockTail

/-- A clock reading, as it is written. -/
structure ClockForm where
  parts : ClockParts
  tail : ClockTail
  digits : parts.IsDigits
  follows : tail.Follows parts

namespace ClockForm

def text (c : ClockForm) : PyStr := c.parts.text ++ c.tail.text

def reading (c : ClockForm) : Clock := c.parts.reading c.tail.micros

end ClockForm

theorem isAsciiDigit_colon : isAsciiDigit (chr ':') = false := by decide

theorem atEnd_of_lt {s : PyStr} (h : 1 < s.length) : atEnd s = false := by
  unfold atEnd
  rw [decide_eq_false (not_le.mpr h), Bool.false_and]

theorem isPoint_eq_true {s : PyStr} :
    isPoint s = true ↔ ∃ point rest, s = point ++ rest ∧ (point = lit "." ∨ point = lit ",") := by
  unfold isPoint
  rw [Bool.or_eq_true, decide_eq_true_eq, decide_eq_true_eq]
  constructor
  · rintro (h | h)
    · exact ⟨lit ".", s.tail, List.eq_cons_of_mem_head? h, .inl rfl⟩
    · exact ⟨lit ",", s.tail, List.eq_cons_of_mem_head? h, .inr rfl⟩
  · rintro ⟨point, rest, rfl, rfl | rfl⟩
    · exact .inl rfl
    · exact .inr rfl

/-- Digits are no point, and neither is a colon. -/
theorem Digits.isPoint {n : ℕ} {ds : PyStr} (h : Digits (n + 1) ds) (colons : Bool) (rest : PyStr) :
    isPoint (mark colons ':' ++ (ds ++ rest)) = false := by
  cases colons with
  | true => rfl
  | false =>
    unfold Py.isPoint
    rw [mark_false, List.nil_append, decide_eq_false (h.head?_ne rest (by decide)),
      decide_eq_false (h.head?_ne rest (by decide))]
    rfl

/-- Of a fraction the first six digits count. -/
theorem Fraction.take {digits left : PyStr} (h : Fraction digits left) :
    (digits ++ left).take 6 = digits.take 6 ∧ 6 - (digits ++ left).length = 6 - digits.length ∧
      ((digits ++ left).drop 6).dropWhile isAsciiDigit = left := by
  obtain ⟨-, hall, rfl | ⟨hlong, hleft⟩⟩ := h
  · have hdrop : ∀ c ∈ digits.drop 6, isAsciiDigit c = true := fun c hc =>
      List.all_eq_true.mp hall c (List.mem_of_mem_drop hc)
    rw [List.append_nil, List.dropWhile_eq_nil_iff.mpr hdrop]
    exact ⟨rfl, rfl, rfl⟩
  · have hdrop : ∀ c ∈ digits.drop 6, isAsciiDigit c = true := fun c hc =>
      List.all_eq_true.mp hall c (List.mem_of_mem_drop hc)
    refine ⟨List.take_append_of_le_length hlong, ?_, ?_⟩
    · rw [List.length_append]
      omega
    · rw [List.drop_append_of_le_length hlong, List.dropWhile_append_of_pos hdrop]
      cases left with
      | nil => rfl
      | cons c left =>
        have hc : isAsciiDigit c = false := hleft
        exact List.dropWhile_cons_of_neg (by rw [hc]; exact Bool.false_ne_true)

/-- What is read as a fraction, and what is left over. -/
theorem parseFraction_eq_some {hour minute second : ℕ} {s left : PyStr} {r : Clock} :
    parseFraction hour minute second s = some (r, left) ↔ ∃ digits, s = digits ++ left ∧ Fraction digits left ∧
      r = ⟨hour, minute, second, digitsValue (digits.take 6) * 10 ^ (6 - digits.length)⟩ := by
  unfold parseFraction
  constructor
  · intro h
    split_ifs at h with hs
    obtain ⟨rfl, rfl⟩ := Prod.mk.inj (Option.some.inj h)
    have hsplit : s = (s.take 6 ++ (s.drop 6).takeWhile isAsciiDigit) ++ (s.drop 6).dropWhile isAsciiDigit := by
      rw [List.append_assoc, List.takeWhile_append_dropWhile, List.take_append_drop]
    have hfraction : Fraction (s.take 6 ++ (s.drop 6).takeWhile isAsciiDigit)
        ((s.drop 6).dropWhile isAsciiDigit) := by
      refine ⟨?_, ?_, ?_⟩
      · rw [ne_eq, List.append_eq_nil_iff, List.take_eq_nil_iff]
        rintro ⟨h | h, -⟩
        · cases h
        · exact hs.1 h
      · rw [List.all_append, hs.2, Bool.true_and]
        exact List.all_eq_true.mpr fun _ => List.mem_takeWhile_imp
      · by_cases hlong : 6 ≤ s.length
        · refine .inr ⟨?_, ?_⟩
          · rw [List.length_append, List.length_take]
            omega
          · have hfirst := List.head?_dropWhile_not isAsciiDigit (s.drop 6)
            cases hrest : ((s.drop 6).dropWhile isAsciiDigit).head? with
            | none => rfl
            | some c => rwa [hrest] at hfirst
        · left
          rw [List.drop_eq_nil_of_le (by omega)]
          rfl
    obtain ⟨htake, hlength, -⟩ := hfraction.take
    rw [← hsplit] at htake hlength
    exact ⟨_, hsplit, hfraction, by rw [← htake, ← hlength]⟩
  · rintro ⟨digits, rfl, hfraction, rfl⟩
    obtain ⟨htake, hlength, hdrop⟩ := hfraction.take
    obtain ⟨hne, hall, -⟩ := hfraction
    have hdigits : (digits.take 6).all isAsciiDigit = true := List.all_eq_true.mpr fun c hc =>
      List.all_eq_true.mp hall c (List.mem_of_mem_take hc)
    rw [htake, hlength, hdrop, if_pos ⟨List.append_ne_nil_of_left_ne_nil hne _, hdigits⟩]

/-- One digit alone would be left over. -/
theorem Fraction.two_le {digits left : PyStr} (h : Fraction digits left)
    (hend : atEnd (digits ++ left) = false) : 2 ≤ digits.length := by
  obtain ⟨hne, hall, hleft⟩ := h
  by_contra hshort
  obtain rfl : left = [] := hleft.resolve_right fun h => by omega
  have hascii : digits.all (fun c => decide (c.val < 0x80)) = true := List.all_eq_true.mpr fun c hc => by
    have hc := List.all_eq_true.mp hall c hc
    unfold isAsciiDigit at hc
    simp only [Bool.and_eq_true, decide_eq_true_eq] at hc ⊢
    omega
  have hend' : atEnd digits = true := by
    unfold atEnd
    rw [decide_eq_true (by omega), hascii]
    rfl
  rw [List.append_nil, hend'] at hend
  cases hend

theorem Fraction.isPoint {digits left : PyStr} (h : Fraction digits left) :
    isPoint (digits ++ left) = false := by
  obtain ⟨hne, hall, -⟩ := h
  obtain ⟨n, hn⟩ := Nat.exists_eq_succ_of_ne_zero (List.length_pos_iff.mpr hne).ne'
  exact Digits.isPoint ⟨hn, hall⟩ false left

section Stages

variable {hour minute s left : PyStr} {r : Clock} {colons : Bool}

/-- What is read behind the parts: nothing, a fraction behind a point or a comma, or more. -/
theorem tail_eq_some (parts : ClockParts) {h m sec : ℕ} {more : Option (Clock × PyStr)}
    (hparts : ∀ micros, parts.reading micros = ⟨h, m, sec, micros⟩) :
    (if atEnd s = true then some (⟨h, m, sec, 0⟩, s)
      else if isPoint s = true then parseFraction h m sec s.tail else more) = some (r, left) ↔
    (∃ tail : ClockTail, tail.IsPlain ∧ tail.text = s ∧ parts.reading tail.micros = r ∧ tail.left = left) ∨
      atEnd s = false ∧ isPoint s = false ∧ more = some (r, left) := by
  constructor
  · intro hread
    split_ifs at hread with hend hpoint
    · obtain ⟨rfl, rfl⟩ := Prod.mk.inj (Option.some.inj hread)
      exact .inl ⟨.rest s, hend, rfl, hparts 0, rfl⟩
    · obtain ⟨point, rest, rfl, hmark⟩ := isPoint_eq_true.mp hpoint
      obtain ⟨digits, hrest, hfraction, rfl⟩ := parseFraction_eq_some.mp hread
      have htail : (point ++ rest).tail = rest := by rcases hmark with rfl | rfl <;> rfl
      rw [htail] at hrest
      exact .inl ⟨.fraction point digits left, ⟨hmark, hfraction⟩, by rw [hrest]; rfl, hparts _, rfl⟩
    · exact .inr ⟨eq_false_of_ne_true hend, eq_false_of_ne_true hpoint, hread⟩
  · rintro (⟨tail, hplain, rfl, rfl, rfl⟩ | ⟨hend, hpoint, hmore⟩)
    · cases tail with
      | rest left => exact (if_pos hplain).trans (by rw [hparts]; rfl)
      | fraction point digits left =>
        obtain ⟨hpoint, hfraction⟩ := hplain
        have hlong : 1 < (point ++ (digits ++ left)).length := by
          have hdigits := List.length_pos_iff.mpr hfraction.1
          have hone : point.length = 1 := by rcases hpoint with rfl | rfl <;> rfl
          rw [List.length_append, List.length_append]
          omega
        have htail : (point ++ (digits ++ left)).tail = digits ++ left := by
          rcases hpoint with rfl | rfl <;> rfl
        unfold ClockTail.text
        rw [atEnd_of_lt hlong, isPoint_eq_true.mpr ⟨point, _, rfl, hpoint⟩, htail, if_neg Bool.false_ne_true,
          if_pos rfl]
        exact parseFraction_eq_some.mpr ⟨digits, rfl, hfraction, hparts _⟩
    · rw [hend, hpoint, if_neg Bool.false_ne_true, if_neg Bool.false_ne_true, hmore]

theorem parseSecond_eq_some :
    parseSecond colons (digitsValue hour) (digitsValue minute) s = some (r, left) ↔
      ∃ (second : PyStr) (tail : ClockTail), Digits 2 second ∧
        tail.Follows (.second colons hour minute second) ∧ second ++ tail.text = s ∧ (ClockParts.second colons hour minute second).reading tail.micros = r ∧
        tail.left = left := by
  constructor
  · intro h
    obtain ⟨⟨_, rest⟩, hsecond, h⟩ := Option.bind_eq_some_iff.mp h
    obtain ⟨second, hs, rfl, rfl⟩ := takeDigits_eq_some.mp hsecond
    obtain ⟨tail, hplain, rfl, hr, hleft⟩ | ⟨hend, -, h⟩ :=
      (tail_eq_some (.second colons hour minute second) fun _ => rfl).mp h
    · exact ⟨second, tail, hs, .inl hplain, rfl, hr, hleft⟩
    cases colons with
    | true =>
      rw [if_pos rfl] at h
      split_ifs at h with hcolon
      obtain ⟨digits, hrest, hfraction, rfl⟩ := parseFraction_eq_some.mp h
      refine ⟨second, .fraction (lit ":") digits left, hs, .inr ⟨rfl, hfraction⟩, ?_, rfl, rfl⟩
      rw [List.eq_cons_of_mem_head? hcolon, hrest]
      rfl
    | false =>
      obtain ⟨digits, rfl, hfraction, rfl⟩ := parseFraction_eq_some.mp h
      exact ⟨second, .fraction [] digits left, hs, .inr ⟨rfl, hfraction, hfraction.two_le hend⟩, rfl, rfl, rfl⟩
  · rintro ⟨second, tail, hs, htail, rfl, rfl, rfl⟩
    refine Option.bind_eq_some_iff.mpr ⟨(digitsValue second, tail.text), hs.take _, ?_⟩
    refine (tail_eq_some (.second colons hour minute second) fun _ => rfl).mpr ?_
    obtain hplain | hmarked := htail
    · exact .inl ⟨tail, hplain, rfl, rfl, rfl⟩
    cases tail with
    | rest => cases colons <;> exact hmarked.elim
    | fraction point digits left =>
      right
      cases colons with
      | true =>
        obtain ⟨rfl, hfraction⟩ := hmarked
        have hdigits := List.length_pos_iff.mpr hfraction.1
        refine ⟨atEnd_of_lt ?_, rfl, parseFraction_eq_some.mpr ⟨digits, rfl, hfraction, rfl⟩⟩
        rw [ClockTail.text, List.length_append, List.length_append, show (lit ":").length = 1 from rfl]
        omega
      | false =>
        obtain ⟨rfl, hfraction, htwo⟩ := hmarked
        refine ⟨atEnd_of_lt ?_, hfraction.isPoint, parseFraction_eq_some.mpr ⟨digits, rfl, hfraction, rfl⟩⟩
        rw [ClockTail.text, List.nil_append, List.length_append]
        omega

/-- After the minutes the seconds follow if nothing else does. -/
theorem parseMinute_eq_some : parseMinute colons (digitsValue hour) s = some (r, left) ↔
    ∃ (parts : ClockParts) (tail : ClockTail) (minute : PyStr), Digits 2 minute ∧ tail.Follows parts ∧
      parts.reading tail.micros = r ∧ tail.left = left ∧
      (parts = .minute colons hour minute ∧ minute ++ tail.text = s ∨
        ∃ second, Digits 2 second ∧ parts = .second colons hour minute second ∧
          minute ++ (mark colons ':' ++ (second ++ tail.text)) = s) := by
  constructor
  · intro h
    obtain ⟨⟨_, rest⟩, hminute, h⟩ := Option.bind_eq_some_iff.mp h
    obtain ⟨minute, hm, rfl, rfl⟩ := takeDigits_eq_some.mp hminute
    obtain ⟨tail, hplain, rfl, hr, hleft⟩ | ⟨-, -, h⟩ :=
      (tail_eq_some (.minute colons hour minute) fun _ => rfl).mp h
    · exact ⟨_, tail, minute, hm, .inl hplain, hr, hleft, .inl ⟨rfl, rfl⟩⟩
    have hseconds : ∃ more, rest = mark colons ':' ++ more ∧
        parseSecond colons (digitsValue hour) (digitsValue minute) more = some (r, left) := by
      cases colons with
      | true =>
        rw [if_pos rfl] at h
        split_ifs at h with hcolon
        exact ⟨rest.tail, List.eq_cons_of_mem_head? hcolon, h⟩
      | false => exact ⟨rest, rfl, h⟩
    obtain ⟨more, rfl, hread⟩ := hseconds
    obtain ⟨second, tail, hs, htail, rfl, hr, hleft⟩ := parseSecond_eq_some.mp hread
    exact ⟨_, tail, minute, hm, htail, hr, hleft, .inr ⟨second, hs, rfl, rfl⟩⟩
  · rintro ⟨parts, tail, minute, hm, htail, rfl, rfl, ⟨rfl, rfl⟩ | ⟨second, hs, rfl, rfl⟩⟩
    · refine Option.bind_eq_some_iff.mpr ⟨(digitsValue minute, tail.text), hm.take _, ?_⟩
      refine (tail_eq_some (.minute colons hour minute) fun _ => rfl).mpr (.inl ⟨tail, ?_, rfl, rfl, rfl⟩)
      exact htail.resolve_right fun h => by cases tail <;> exact h
    · refine Option.bind_eq_some_iff.mpr ⟨(digitsValue minute, _), hm.take _, ?_⟩
      refine (tail_eq_some (.minute colons hour minute) fun _ => rfl).mpr
        (.inr ⟨atEnd_of_lt ?_, hs.isPoint _ _, ?_⟩)
      · rw [List.length_append, List.length_append, hs.1]
        omega
      · have hsecond : parseSecond colons (digitsValue hour) (digitsValue minute) (second ++ tail.text) =
            some ((ClockParts.second colons hour minute second).reading tail.micros, tail.left) :=
          parseSecond_eq_some.mpr ⟨second, tail, hs, htail, rfl, rfl, rfl⟩
        cases colons with
        | true => exact hsecond
        | false => exact hsecond

end Stages

/-- What is read as a clock are the forms of it. -/
theorem parseClock_eq_some {s left : PyStr} {r : Clock} : parseClock s = some (r, left) ↔
    ∃ c : ClockForm, c.text = s ∧ c.reading = r ∧ c.tail.left = left := by
  constructor
  · intro h
    obtain ⟨⟨_, rest⟩, hhour, h⟩ := Option.bind_eq_some_iff.mp h
    obtain ⟨hour, hh, rfl, rfl⟩ := takeDigits_eq_some.mp hhour
    obtain ⟨tail, hplain, rfl, hr, hleft⟩ | ⟨-, -, h⟩ := (tail_eq_some (.hour hour) fun _ => rfl).mp h
    · exact ⟨⟨.hour hour, tail, hh, .inl hplain⟩, rfl, hr, hleft⟩
    have hminutes : ∃ colons more, rest = mark colons ':' ++ more ∧
        parseMinute colons (digitsValue hour) more = some (r, left) := by
      split_ifs at h with hcolon
      · exact ⟨true, rest.tail, List.eq_cons_of_mem_head? hcolon, h⟩
      · exact ⟨false, rest, rfl, h⟩
    obtain ⟨colons, more, rfl, hread⟩ := hminutes
    obtain ⟨parts, tail, minute, hm, htail, hr, hleft, ⟨rfl, rfl⟩ | ⟨second, hs, rfl, rfl⟩⟩ :=
      parseMinute_eq_some.mp hread
    · refine ⟨⟨.minute colons hour minute, tail, ⟨hh, hm⟩, htail⟩, ?_, hr, hleft⟩
      simp only [ClockForm.text, ClockParts.text, List.append_assoc]
    · refine ⟨⟨.second colons hour minute second, tail, ⟨hh, hm, hs⟩, htail⟩, ?_, hr, hleft⟩
      simp only [ClockForm.text, ClockParts.text, List.append_assoc]
  · rintro ⟨⟨parts, tail, hdigits, htail⟩, rfl, rfl, rfl⟩
    have hminutes : ∀ (colons : Bool) (hour minute rest : PyStr), Digits 2 hour → Digits 2 minute →
        parseMinute colons (digitsValue hour) (minute ++ rest) = some (parts.reading tail.micros, tail.left) →
        parseClock (hour ++ (mark colons ':' ++ (minute ++ rest))) =
          some (parts.reading tail.micros, tail.left) := by
      intro colons hour minute rest hh hm h
      refine Option.bind_eq_some_iff.mpr ⟨(digitsValue hour, _), hh.take _, ?_⟩
      refine (tail_eq_some (.hour hour) fun _ => rfl).mpr (.inr ⟨atEnd_of_lt ?_, hm.isPoint _ _, ?_⟩)
      · rw [List.length_append, List.length_append, hm.1]
        omega
      · cases colons with
        | true => exact h
        | false => exact (if_neg (hm.head?_ne rest isAsciiDigit_colon)).trans h
    cases parts with
    | hour hour =>
      refine Option.bind_eq_some_iff.mpr ⟨(digitsValue hour, tail.text), Digits.take hdigits _, ?_⟩
      refine (tail_eq_some (.hour hour) fun _ => rfl).mpr (.inl ⟨tail, ?_, rfl, rfl, rfl⟩)
      exact htail.resolve_right fun h => by cases tail <;> exact h
    | minute colons hour minute =>
      obtain ⟨hh, hm⟩ := hdigits
      have htext := hminutes colons hour minute tail.text hh hm
        (parseMinute_eq_some.mpr ⟨_, tail, minute, hm, htail, rfl, rfl, .inl ⟨rfl, rfl⟩⟩)
      simpa only [ClockForm.text, ClockForm.reading, ClockParts.text, List.append_assoc] using htext
    | second colons hour minute second =>
      obtain ⟨hh, hm, hs⟩ := hdigits
      have htext := hminutes colons hour minute (mark colons ':' ++ (second ++ tail.text)) hh hm
        (parseMinute_eq_some.mpr ⟨_, tail, minute, hm, htail, rfl, rfl, .inr ⟨second, hs, rfl, rfl⟩⟩)
      simpa only [ClockForm.text, ClockForm.reading, ClockParts.text, List.append_assoc] using htext

/-! ## Zones -/

/-- A zone, as it is written. -/
inductive ZoneForm where
  | zulu (rest : PyStr)
  | offset (negative : Bool) (clock : ClockForm)

namespace ZoneForm

def text : ZoneForm → PyStr
  | .zulu rest => chr 'Z' :: rest
  | .offset negative clock => (if negative then chr '-' else chr '+') :: clock.text

/-- To the parser nothing follows the zone, and it is less than a day. -/
def IsRead : ZoneForm → Prop
  | .zulu rest => isOver rest = true
  | .offset _ clock => isOver clock.tail.left = true ∧ clock.reading.offset < dayMicros

end ZoneForm

theorem exists_parseOffset {negative : Bool} {s : PyStr} : (∃ offset, parseOffset negative s = some offset) ↔
    ∃ c : ClockForm, (isOver c.tail.left = true ∧ c.reading.offset < dayMicros) ∧ c.text = s := by
  constructor
  · rintro ⟨offset, h⟩
    obtain ⟨⟨r, rest⟩, hclock, h⟩ := Option.bind_eq_some_iff.mp h
    obtain ⟨clock, rfl, rfl, rfl⟩ := parseClock_eq_some.mp hclock
    dsimp only at h
    split_ifs at h with hread
    all_goals exact ⟨clock, hread, rfl⟩
  · rintro ⟨clock, hread, rfl⟩
    exact ⟨_, Option.bind_eq_some_iff.mpr ⟨_, parseClock_eq_some.mpr ⟨clock, rfl, rfl, rfl⟩, if_pos hread⟩⟩

/-- The zones that are read, from their first character on. -/
theorem exists_parseZone {left s : PyStr} (hs : ∀ c ∈ s.head?, isZoneStart c = true) :
    (∃ offset, parseZone left s = some (some offset)) ↔ ∃ z : ZoneForm, z.IsRead ∧ z.text = s := by
  constructor
  · rintro ⟨offset, h⟩
    cases s with
    | nil =>
      rw [parseZone] at h
      split_ifs at h
      cases h
    | cons c zone =>
      rw [parseZone] at h
      split_ifs at h with hzulu hover
      · exact ⟨.zulu zone, hover, by rw [hzulu]; rfl⟩
      · obtain ⟨offset, hoffset, -⟩ := Option.map_eq_some_iff.mp h
        obtain ⟨clock, hread, rfl⟩ := exists_parseOffset.mp ⟨offset, hoffset⟩
        refine ⟨.offset (decide (c = chr '-')) clock, hread, ?_⟩
        have hc := hs c rfl
        unfold isZoneStart at hc
        simp only [Bool.or_eq_true, decide_eq_true_eq] at hc
        obtain (rfl | rfl) | rfl := hc
        · rfl
        · rfl
        · exact absurd rfl hzulu
  · rintro ⟨z, hread, rfl⟩
    cases z with
    | zulu rest =>
      refine ⟨0, ?_⟩
      rw [ZoneForm.text, parseZone, if_pos rfl]
      exact if_pos hread
    | offset negative clock =>
      have hne : (if negative = true then chr '-' else chr '+') ≠ chr 'Z' := by cases negative <;> decide
      obtain ⟨offset, hoffset⟩ := exists_parseOffset.mpr ⟨clock, hread, rfl⟩
      refine ⟨offset, ?_⟩
      rw [ZoneForm.text, parseZone, if_neg hne, hoffset]
      rfl

/-! ## Whole texts -/

theorem Digits.exists_cons {n : ℕ} {ds : PyStr} (h : Digits (n + 1) ds) :
    ∃ d rest, ds = d :: rest ∧ isAsciiDigit d = true ∧ Digits n rest := by
  obtain ⟨hlength, hall⟩ := h
  cases ds with
  | nil => cases hlength
  | cons d rest =>
    rw [List.all_cons, Bool.and_eq_true] at hall
    exact ⟨d, rest, rfl, hall.1, Nat.succ.inj hlength, hall.2⟩

theorem ne_of_isAsciiDigit {d c : CodePoint} (hd : isAsciiDigit d = true) (hc : isAsciiDigit c = false) :
    d ≠ c := by
  rintro rfl
  rw [hd] at hc
  cases hc

theorem Digits.eq_nil {ds : PyStr} (h : Digits 0 ds) : ds = [] := List.length_eq_zero_iff.mp h.1

theorem Digits.one {ds : PyStr} (h : Digits 1 ds) : ∃ a, ds = [a] ∧ isAsciiDigit a = true := by
  obtain ⟨a, rest, rfl, ha, h⟩ := h.exists_cons
  exact ⟨a, by rw [h.eq_nil], ha⟩

theorem Digits.two {ds : PyStr} (h : Digits 2 ds) :
    ∃ a b, ds = [a, b] ∧ isAsciiDigit a = true ∧ isAsciiDigit b = true := by
  obtain ⟨a, rest, rfl, ha, h⟩ := h.exists_cons
  obtain ⟨b, rfl, hb⟩ := h.one
  exact ⟨a, b, rfl, ha, hb⟩

theorem Digits.four {ds : PyStr} (h : Digits 4 ds) : ∃ a b c d, ds = [a, b, c, d] := by
  obtain ⟨a, rest, rfl, -, h⟩ := h.exists_cons
  obtain ⟨b, rest, rfl, -, h⟩ := h.exists_cons
  obtain ⟨c, d, rfl, -⟩ := h.two
  exact ⟨a, b, c, d, rfl⟩

/-- Where a date ends is told by what follows. A digit behind a dashed weekday would belong to the time,
and behind a compact week the digits that follow are counted. -/
def DateForm.Ends (separator : CodePoint) (rest : PyStr) : DateForm → Prop
  | .calendar _ _ _ _ => True
  | .week true _ _ => True
  | .weekday true _ _ _ => isAsciiDigit separator = false
  | _ => isAsciiDigit separator = true → (rest.takeWhile isAsciiDigit).length % 2 = 0

/-- The date of a form ends where it is written to its end. -/
theorem datetimeSeparator_text {d : DateForm} {hour rest : PyStr} {separator : CodePoint}
    (hd : d.IsDigits) (hh : Digits 2 hour) :
    datetimeSeparator (d.text ++ separator :: (hour ++ rest)) = some d.text.length ↔
      d.Ends separator (hour ++ rest) := by
  obtain ⟨h1, h2, rfl, hh1, hh2⟩ := hh.two
  have hnever : chr 'W' ≠ chr '-' := by decide
  cases d with
  | calendar dashed year month day =>
    obtain ⟨hy, hm, hd⟩ := hd
    obtain ⟨y1, y2, y3, y4, rfl⟩ := hy.four
    obtain ⟨m1, m2, rfl, hm1, -⟩ := hm.two
    obtain ⟨d1, d2, rfl, -⟩ := hd.two
    have hdash := ne_of_isAsciiDigit hm1 isAsciiDigit_dash
    have hweek := ne_of_isAsciiDigit hm1 isAsciiDigit_week
    cases dashed with
    | true => simp [datetimeSeparator, DateForm.text, DateForm.Ends, hweek]
    | false => simp [datetimeSeparator, DateForm.text, DateForm.Ends, hdash, hweek]
  | week dashed year number =>
    obtain ⟨hy, hn⟩ := hd
    obtain ⟨y1, y2, y3, y4, rfl⟩ := hy.four
    obtain ⟨n1, n2, rfl, -⟩ := hn.two
    cases dashed with
    | true => simp [datetimeSeparator, DateForm.text, DateForm.Ends, hh2]
    | false =>
      cases hsep : isAsciiDigit separator with
      | true =>
        simp only [datetimeSeparator, DateForm.text, DateForm.Ends, mark_false, List.nil_append,
          List.cons_append, List.length_cons, Nat.reduceEqDiff, if_false, lt_add_iff_pos_left, add_pos_iff,
          Nat.ofNat_pos, or_true, getElem?_pos, List.getElem_cons_succ, List.getElem_cons_zero,
          Option.some.injEq, hnever, if_true, List.drop_succ_cons, List.drop_zero, hsep,
          List.takeWhile_cons_of_pos, hh1, hh2, List.length_nil, zero_add, Nat.reduceAdd, forall_const]
        generalize (rest.takeWhile isAsciiDigit).length = n
        rw [if_neg (by omega)]
        split_ifs with heven
        · exact iff_of_true rfl (by omega)
        · exact iff_of_false (by decide) (by omega)
      | false => simp [datetimeSeparator, DateForm.text, DateForm.Ends, hnever, hsep]
  | weekday dashed year number day =>
    obtain ⟨hy, hn, hday⟩ := hd
    obtain ⟨y1, y2, y3, y4, rfl⟩ := hy.four
    obtain ⟨n1, n2, rfl, -⟩ := hn.two
    obtain ⟨d1, rfl, hd1⟩ := hday.one
    cases dashed with
    | true => simp [datetimeSeparator, DateForm.text, DateForm.Ends]
    | false =>
      cases hsep : isAsciiDigit separator with
      | true =>
        simp only [datetimeSeparator, DateForm.text, DateForm.Ends, mark_false, List.nil_append,
          List.cons_append, List.length_cons, Nat.reduceEqDiff, if_false, lt_add_iff_pos_left, add_pos_iff,
          Nat.ofNat_pos, or_true, getElem?_pos, List.getElem_cons_succ, List.getElem_cons_zero,
          Option.some.injEq, hnever, if_true, List.drop_succ_cons, List.drop_zero, hsep, hd1,
          List.takeWhile_cons_of_pos, hh1, hh2, List.length_nil, zero_add, Nat.reduceAdd, forall_const]
        generalize (rest.takeWhile isAsciiDigit).length = n
        rw [if_neg (by omega)]
        split_ifs with hodd
        · exact iff_of_false (by decide) (by omega)
        · exact iff_of_true rfl (by omega)
      | false => simp [datetimeSeparator, DateForm.text, DateForm.Ends, hnever, hsep, hd1]

/-- A text that is read as a time with an offset. -/
structure IsoForm where
  date : DateForm
  separator : CodePoint
  clock : ClockForm
  zone : ZoneForm
  date_digits : date.IsDigits
  /-- There is such a day. -/
  day : ∃ n, date.ordinal = some n ∧ n ≤ maxOrdinal
  ends : date.Ends separator (clock.text ++ zone.text)
  /-- There is such a time on it. -/
  time : clock.reading.isTimeOfDay = true
  /-- The zone starts where it is written to start. -/
  plain : ∀ c ∈ clock.text, isZoneStart c = false
  zone_read : zone.IsRead
  encodable : isEncodable (date.text ++ separator :: (clock.text ++ zone.text)) = true

namespace IsoForm

def text (f : IsoForm) : PyStr := f.date.text ++ f.separator :: (f.clock.text ++ f.zone.text)

end IsoForm

theorem ClockForm.exists_hour (c : ClockForm) : ∃ hour rest, Digits 2 hour ∧ c.text = hour ++ rest := by
  obtain ⟨parts, tail, hdigits, -⟩ := c
  cases parts with
  | hour hour => exact ⟨hour, _, hdigits, rfl⟩
  | minute colons hour minute => exact ⟨hour, _, hdigits.1, List.append_assoc _ _ _⟩
  | second colons hour minute second => exact ⟨hour, _, hdigits.1, List.append_assoc _ _ _⟩

theorem ZoneForm.head?_text (z : ZoneForm) : ∀ c ∈ z.text.head?, isZoneStart c = true := by
  cases z with
  | zulu rest =>
    rintro c hc
    obtain rfl := Option.some.inj hc
    decide
  | offset negative clock =>
    rintro c hc
    obtain rfl := Option.some.inj hc
    cases negative <;> decide

theorem head?_dropWhile_zone (s : PyStr) :
    ∀ c ∈ (s.dropWhile fun c => !isZoneStart c).head?, isZoneStart c = true := by
  intro c hc
  have hfirst := List.head?_dropWhile_not (fun c => !isZoneStart c) s
  rw [Option.mem_def.mp hc] at hfirst
  exact (Bool.not_eq_false' _).mp hfirst

/-- A clock and a zone are told apart by the first character that starts a zone. -/
theorem takeWhile_zone {clock zone : PyStr} (hclock : ∀ c ∈ clock, isZoneStart c = false)
    (hzone : ∀ c ∈ zone.head?, isZoneStart c = true) :
    (clock ++ zone).takeWhile (fun c => !isZoneStart c) = clock ∧
      (clock ++ zone).dropWhile (fun c => !isZoneStart c) = zone := by
  have hpass : ∀ c ∈ clock, (!isZoneStart c) = true := fun c hc => by rw [hclock c hc]; rfl
  rw [List.takeWhile_append_of_pos hpass, List.dropWhile_append_of_pos hpass]
  cases zone with
  | nil => exact ⟨List.append_nil _, rfl⟩
  | cons c zone => simp only [List.takeWhile_cons, List.dropWhile_cons, hzone c rfl, Bool.not_true,
      Bool.false_eq_true, if_false, List.append_nil, and_self]

theorem DateForm.seven_le {d : DateForm} (hd : d.IsDigits) : 7 ≤ d.text.length := by
  cases d with
  | calendar dashed year month day =>
    obtain ⟨hy, hm, hd⟩ := hd
    simp only [text, List.length_append, hy.1, hm.1, hd.1]
    omega
  | week dashed year number =>
    obtain ⟨hy, hn⟩ := hd
    simp only [text, List.length_append, List.length_cons, hy.1, hn.1]
    omega
  | weekday dashed year number day =>
    obtain ⟨hy, hn, hd⟩ := hd
    simp only [text, List.length_append, List.length_cons, hy.1, hn.1, hd.1]
    omega

theorem one_le_ordinal {d : DateForm} {n : ℕ} (h : d.ordinal = some n) : 1 ≤ n := by
  have hweek : ∀ year number day, ordinalOfWeek year number day = some n → 1 ≤ n := by
    intro year number day h
    unfold ordinalOfWeek at h
    split_ifs at h
    obtain rfl := Option.some.inj h
    have hmonday : 1 ≤ isoWeek1Monday year := by
      unfold isoWeek1Monday
      dsimp only
      split_ifs <;> omega
    omega
  cases d with
  | calendar dashed year month day =>
    replace h : ordinalOfDate _ _ _ = some n := h
    unfold ordinalOfDate at h
    split_ifs at h
    obtain rfl := Option.some.inj h
    omega
  | week dashed year number => exact hweek _ _ _ h
  | weekday dashed year number day => exact hweek _ _ _ h

/-- A fraction is less than a second. -/
theorem ClockTail.micros_lt {parts : ClockParts} {tail : ClockTail} (h : tail.Follows parts) :
    tail.micros < 1000000 := by
  cases tail with
  | rest left => exact Nat.zero_lt_succ _
  | fraction point digits left =>
    have hfraction : Fraction digits left := by
      obtain ⟨-, hfraction⟩ | hmarked := h
      · exact hfraction
      · cases parts with
        | second colons hour minute second =>
          cases colons with
          | true => exact hmarked.2
          | false => exact hmarked.2.1
        | _ => exact hmarked.elim
    obtain ⟨-, hall, -⟩ := hfraction
    have hlt : digitsValue (digits.take 6) < 10 ^ (digits.take 6).length :=
      digitsValue_lt fun x hx => List.all_eq_true.mp hall x (List.mem_of_mem_take hx)
    have hsum : (digits.take 6).length + (6 - digits.length) = 6 := by
      rw [List.length_take]
      omega
    calc digitsValue (digits.take 6) * 10 ^ (6 - digits.length)
        < 10 ^ (digits.take 6).length * 10 ^ (6 - digits.length) :=
          Nat.mul_lt_mul_of_pos_right hlt (Nat.pow_pos (by omega))
      _ = 1000000 := by rw [← Nat.pow_add, hsum]

theorem isTimeOfDay_iff {c : Clock} :
    c.isTimeOfDay = true ↔ c.hour < 24 ∧ c.minute < 60 ∧ c.second < 60 := by
  unfold Clock.isTimeOfDay
  rw [Bool.and_eq_true, Bool.and_eq_true, decide_eq_true_eq, decide_eq_true_eq, decide_eq_true_eq,
    and_assoc]

theorem ClockForm.total_lt {c : ClockForm} (htime : c.reading.isTimeOfDay = true) :
    c.reading.total < dayMicros := by
  have hmicros : c.reading.micros < 1000000 := by
    have hlt := ClockTail.micros_lt c.follows
    unfold ClockForm.reading
    cases c.parts <;> exact hlt
  obtain ⟨hhour, hminute, hsecond⟩ := isTimeOfDay_iff.mp htime
  unfold Clock.total dayMicros
  omega

/-- A time is of the years 1–9999 on no later day than the last. -/
theorem le_maxOrdinal {n micros : ℕ} {wall : Instant}
    (h : Instant.ofMicros? (((n : ℤ) - 1) * dayMicros + micros) = some wall) : n ≤ maxOrdinal := by
  have hrange := wall.inRange
  rw [Instant.ofMicros?_eq_some] at h
  unfold dayMicros maxOrdinal at *
  push_cast at *
  omega

/-- A form is read. -/
theorem IsoForm.exists_parse {f : IsoForm} {text : PyStr} (h : f.text = sanitizeIsoformat text) :
    ∃ d offset, parseIsoformat text = some d ∧ d.offset = some offset := by
  obtain ⟨n, hn, hmax⟩ := f.day
  have hone := one_le_ordinal hn
  have htotal := ClockForm.total_lt f.time
  obtain ⟨wall, hwall⟩ : ∃ wall,
      Instant.ofMicros? (((n : ℤ) - 1) * dayMicros + f.clock.reading.total) = some wall := by
    unfold Instant.ofMicros?
    unfold dayMicros at htotal ⊢
    rw [dif_pos (by constructor <;> push_cast <;> omega)]
    exact ⟨_, rfl⟩
  have hseparator : datetimeSeparator f.text = some f.date.text.length := by
    obtain ⟨hour, rest, hh, htext⟩ := f.clock.exists_hour
    have hends := f.ends
    rw [htext, List.append_assoc] at hends
    rw [IsoForm.text, htext, List.append_assoc]
    exact (datetimeSeparator_text f.date_digits hh).mpr hends
  have hshort : f.date.text.length < f.text.length := by
    rw [IsoForm.text, List.length_append, List.length_cons]
    omega
  obtain ⟨offset, hoffset⟩ : ∃ offset, parseZone f.clock.tail.left f.zone.text = some (some offset) :=
    (exists_parseZone f.zone.head?_text).mpr ⟨f.zone, f.zone_read, rfl⟩
  have htime : parseAfterDate f.date.text.length f.text = some (f.clock.reading.total, some offset) := by
    obtain ⟨htake, hdrop⟩ := takeWhile_zone f.plain f.zone.head?_text
    unfold parseAfterDate
    rw [if_neg (not_le.mpr hshort), IsoForm.text, List.drop_length_add_append, List.drop_succ_cons,
      List.drop_zero]
    unfold parseIsoformatTime
    rw [htake, hdrop, parseClock_eq_some.mpr ⟨f.clock, rfl, rfl, rfl⟩]
    simp only [Option.bind_eq_bind, Option.bind_some, hoffset, if_pos f.time]
    rfl
  have hdate : parseIsoformatDate (f.text.take f.date.text.length) = some n := by
    rw [IsoForm.text, List.take_left, parseIsoformatDate_text f.date_digits, hn]
  have hread : ¬(f.text.length < 7 ∨ isEncodable f.text = false) := by
    rintro (hlt | hfalse)
    · have hseven := DateForm.seven_le f.date_digits
      omega
    · exact Bool.false_ne_true (hfalse.symm.trans f.encodable)
  refine ⟨⟨wall, some offset⟩, offset, ?_, rfl⟩
  unfold parseIsoformat
  dsimp only
  rw [← h, if_neg hread]
  simp only [hseparator, hdate, htime, hwall, Option.bind_eq_bind, Option.bind_some]
  rfl

/-- Which texts are read as a time with an offset. -/
theorem parseIsoformat_offset_iff {text : PyStr} :
    (∃ d offset, parseIsoformat text = some d ∧ d.offset = some offset) ↔
      ∃ f : IsoForm, f.text = sanitizeIsoformat text := by
  constructor
  · rintro ⟨d, offset, h, hoffset⟩
    obtain ⟨hencodable, k, n, r, left, hk, hlt, hn, hclock, hzone, htime, hwall⟩ :=
      parseIsoformat_offset h hoffset
    obtain ⟨date, hdate, hdateText, hordinal⟩ := parseIsoformatDate_form hn
    obtain ⟨clock, hclockText, rfl, -⟩ := parseClock_eq_some.mp hclock
    obtain ⟨zone, hread, hzoneText⟩ := (exists_parseZone (head?_dropWhile_zone _)).mp ⟨offset, hzone⟩
    generalize sanitizeIsoformat text = s at *
    have hrest : s.drop (k + 1) = clock.text ++ zone.text := by
      rw [hclockText, hzoneText, List.takeWhile_append_dropWhile]
    have hsplit : s = date.text ++ s[k] :: (clock.text ++ zone.text) := by
      rw [hdateText, ← hrest, ← List.drop_eq_getElem_cons hlt, List.take_append_drop]
    have hwhole : k = date.text.length := by
      rw [hdateText, List.length_take_of_le hlt.le]
    have hends : date.Ends s[k] (clock.text ++ zone.text) := by
      obtain ⟨hour, rest, hh, hhour⟩ := clock.exists_hour
      rw [hhour, List.append_assoc] at hsplit ⊢
      refine (datetimeSeparator_text hdate hh).mp ?_
      rw [← hsplit, hk, hwhole]
    have hplain : ∀ c ∈ clock.text, isZoneStart c = false := fun c hc => by
      rw [hclockText] at hc
      have hpass := List.mem_takeWhile_imp hc
      rwa [Bool.not_eq_true'] at hpass
    exact ⟨⟨date, s[k], clock, zone, hdate, ⟨n, hordinal, le_maxOrdinal hwall⟩, hends, htime, hplain, hread,
      hsplit ▸ hencodable⟩, hsplit.symm⟩
  · rintro ⟨f, h⟩
    exact f.exists_parse h

/-! ## Times of the calendar -/

/-- The days up to one of a month are no more than the year has. -/
theorem daysBeforeMonth_le (year : ℕ) {month day : ℕ} (hmonth : month ≤ 12)
    (hday : day ≤ daysInMonth year month) :
    daysBeforeMonth year month + day ≤ if isLeap year then 366 else 365 := by
  unfold daysBeforeMonth
  unfold daysInMonth at *
  generalize isLeap year = leap at *
  cases leap
  all_goals
    interval_cases month
    all_goals
      simp [List.range_succ] at hday ⊢
      omega

/-- No day of a year of four digits is after the last. -/
theorem ordinalOfDate_le {year month day n : ℕ} (h : ordinalOfDate year month day = some n)
    (hyear : year ≤ 9999) : n ≤ maxOrdinal := by
  unfold ordinalOfDate at h
  split_ifs at h with hvalid
  obtain rfl := Option.some.inj h
  have hle := daysBeforeMonth_le year hvalid.2.2.1 hvalid.2.2.2.2
  have hleap : isLeap year = true → year % 4 = 0 := fun h => by
    unfold isLeap at h
    exact of_decide_eq_true (Bool.and_eq_true_iff.mp h).1
  unfold daysBeforeYear maxOrdinal
  split_ifs at hle with hyes
  · have hfour := hleap hyes
    omega
  · omega

end Py
