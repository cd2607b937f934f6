import SentinelCore.Py.Utf8
import Mathlib.Order.Defs.LinearOrder
import Mathlib.Data.List.Infix
import Mathlib.Tactic.SplitIfs

/-!
# `datetime`

`datetime.fromisoformat` and `astimezone(UTC)` of Python 3.11: calendar dates and ISO week dates in
basic and extended form, any single character between date and time, fractions of any length cut to
microseconds, and offsets below one day. As in the C code, one character that is left over in front of
the offset is passed over, and so is everything after six digits of a fraction.

A moment is a count of microseconds from the start of the year 1, and only moments of the years
1–9999 exist: `fromisoformat` refuses others with a `ValueError`, while converting a time near the
ends of that range to UTC leaves it with an `OverflowError`.
-/

namespace Py

/-! ## The calendar -/

def isLeap (year : ℕ) : Bool := year % 4 = 0 && (year % 100 ≠ 0 || year % 400 = 0)

def daysInMonth (year month : ℕ) : ℕ :=
  if month = 2 then if isLeap year then 29 else 28
  else if month = 4 ∨ month = 6 ∨ month = 9 ∨ month = 11 then 30
  else 31

/-- Days before January 1 of the year. -/
def daysBeforeYear (year : ℕ) : ℕ :=
  (year - 1) * 365 + (year - 1) / 4 - (year - 1) / 100 + (year - 1) / 400

def daysBeforeMonth (year month : ℕ) : ℕ :=
  ((List.range (month - 1)).map fun m => daysInMonth year (m + 1)).sum

/-- The number of a calendar day; January 1 of the year 1 has number 1. -/
def ordinalOfDate (year month day : ℕ) : Option ℕ :=
  if 1 ≤ year ∧ 1 ≤ month ∧ month ≤ 12 ∧ 1 ≤ day ∧ day ≤ daysInMonth year month then
    some (daysBeforeYear year + daysBeforeMonth year month + day)
  else none

/-- The number of the Monday that starts ISO week 1. -/
def isoWeek1Monday (year : ℕ) : ℕ :=
  let first := daysBeforeYear year + 1
  let weekday := (first + 6) % 7
  if 3 < weekday then first - weekday + 7 else first - weekday

/-- ISO years have 53 weeks if they start on a Thursday, and leap years also if they start on a
Wednesday. -/
def hasWeek53 (year : ℕ) : Bool :=
  (daysBeforeYear year + 1) % 7 = 4 || ((daysBeforeYear year + 1) % 7 = 3 && isLeap year)

def ordinalOfWeek (year week day : ℕ) : Option ℕ :=
  if 1 ≤ year ∧ (1 ≤ week ∧ week < 53 ∨ week = 53 ∧ hasWeek53 year) ∧ 1 ≤ day ∧ day < 8 then
    some (isoWeek1Monday year + (week - 1) * 7 + (day - 1))
  else none

/-! ## Moments -/

/-- Microseconds of a day. -/
def dayMicros : ℕ := 86400000000

/-- The number of December 31, 9999. -/
def maxOrdinal : ℕ := 3652059

/-- A moment of the years 1–9999, in microseconds from the start of the year 1. -/
structure Instant where
  micros : ℕ
  inRange : micros < maxOrdinal * dayMicros

namespace Instant

theorem micros_injective : Function.Injective micros := by
  rintro ⟨a, ha⟩ ⟨b, hb⟩ rfl
  rfl

instance : LinearOrder Instant := LinearOrder.lift' micros micros_injective

/-- The moment at a number of microseconds, if there is one. -/
def ofMicros? (t : ℤ) : Option Instant :=
  if h : 0 ≤ t ∧ t < (maxOrdinal * dayMicros : ℕ) then some ⟨t.toNat, by omega⟩ else none

theorem ofMicros?_eq_some {z : ℤ} {t : Instant} : ofMicros? z = some t ↔ (t.micros : ℤ) = z := by
  unfold ofMicros?
  have ht := t.inRange
  split_ifs with h
  · rw [Option.some.injEq, ← micros_injective.eq_iff]
    change z.toNat = t.micros ↔ _
    omega
  · refine iff_of_false (by simp) fun ht' => h ?_
    omega

end Instant

/-- A `datetime`: the reading of its clock, and its UTC offset in microseconds when it has one. -/
structure DateTime where
  wall : Instant
  offset : Option ℤ

/-! ## `fromisoformat` -/

/-- Exactly `n` decimal digits. -/
def takeDigits (n : ℕ) (s : PyStr) : Option (ℕ × PyStr) :=
  if n ≤ s.length ∧ (s.take n).all isAsciiDigit then some (digitsValue (s.take n), s.drop n)
  else none

/-- Where the date ends. The forms `YYYY-Www` and `YYYY-Www-D`, and `YYYYWww` and `YYYYWwwD`, are
told apart by what follows. -/
def datetimeSeparator (s : PyStr) : Option ℕ :=
  if s.length = 7 then some 7
  else if s[4]? = some (chr '-') then
    if s[5]? = some (chr 'W') then
      if s[8]? = some (chr '-') then
        if s.length = 9 then none
        else if s[10]?.any isAsciiDigit then some 8
        else some 10
      else some 8
    else some 10
  else if s[4]? = some (chr 'W') then
    let pos := 7 + ((s.drop 7).takeWhile isAsciiDigit).length
    if pos < 9 then some pos else if pos % 2 = 0 then some 7 else some 8
  else some 8

/-- The date part, as the number of its day. -/
def parseIsoformatDate (s : PyStr) : Option ℕ := do
  let (year, s) ← takeDigits 4 s
  let dash := s.head? = some (chr '-')
  let s := if dash then s.tail else s
  if s.head? = some (chr 'W') then
    let (week, s) ← takeDigits 2 s.tail
    if s = [] then ordinalOfWeek year week 1
    else if dash ≠ (s.head? = some (chr '-')) then none
    else
      let (day, s) ← takeDigits 1 (if dash then s.tail else s)
      if s = [] then ordinalOfWeek year week day else none
  else
    let (month, s) ← takeDigits 2 s
    if dash ≠ (s.head? = some (chr '-')) then none
    else
      let (day, s) ← takeDigits 2 (if dash then s.tail else s)
      if s = [] then ordinalOfDate year month day else none

/-- A reading `HH[:MM[:SS[.ffffff]]]`. -/
structure Clock where
  hour : ℕ
  minute : ℕ
  second : ℕ
  micros : ℕ

namespace Clock

def total (c : Clock) : ℕ := ((c.hour * 60 + c.minute) * 60 + c.second) * 1000000 + c.micros

def isTimeOfDay (c : Clock) : Bool := c.hour < 24 && c.minute < 60 && c.second < 60

end Clock

/-- Nothing follows, or one character that is left over. -/
def atEnd (s : PyStr) : Bool := s.length ≤ 1 && s.all fun c => c.val < 0x80

/-- A point or a comma follows. -/
def isPoint (s : PyStr) : Bool := s.head? = some (chr '.') || s.head? = some (chr ',')

/-- The fraction of the second, cut to microseconds. What follows six digits is left over. -/
def parseFraction (hour minute second : ℕ) (s : PyStr) : Option (Clock × PyStr) :=
  if s ≠ [] ∧ (s.take 6).all isAsciiDigit then
    some (⟨hour, minute, second, digitsValue (s.take 6) * 10 ^ (6 - s.length)⟩,
      (s.drop 6).dropWhile isAsciiDigit)
  else none

/-- The seconds. Their fraction can follow a third colon, or without colons the seconds themselves. -/
def parseSecond (colon : Bool) (hour minute : ℕ) (s : PyStr) : Option (Clock × PyStr) := do
  let (second, s) ← takeDigits 2 s
  if atEnd s then some (⟨hour, minute, second, 0⟩, s)
  else if isPoint s then parseFraction hour minute second s.tail
  else if colon then
    if s.head? = some (chr ':') then parseFraction hour minute second s.tail else none
  else parseFraction hour minute second s

def parseMinute (colon : Bool) (hour : ℕ) (s : PyStr) : Option (Clock × PyStr) := do
  let (minute, s) ← takeDigits 2 s
  if atEnd s then some (⟨hour, minute, 0, 0⟩, s)
  else if isPoint s then parseFraction hour minute 0 s.tail
  else if colon then
    if s.head? = some (chr ':') then parseSecond true hour minute s.tail else none
  else parseSecond false hour minute s

/-- `HH`, `HHMM`, `HHMMSS` or the same with colons, each with an optional fraction, and what is left
over. -/
def parseClock (s : PyStr) : Option (Clock × PyStr) := do
  let (hour, s) ← takeDigits 2 s
  if atEnd s then some (⟨hour, 0, 0, 0⟩, s)
  else if isPoint s then parseFraction hour 0 0 s.tail
  else if s.head? = some (chr ':') then parseMinute true hour s.tail
  else parseMinute false hour s

/-- The characters that start a zone: `+`, `-` and `Z`. -/
def isZoneStart (c : CodePoint) : Bool := c = chr '+' || c = chr '-' || c = chr 'Z'

/-- The text ends; to the parser it also ends at a NUL. -/
def isOver (s : PyStr) : Bool := s.head?.all (· = 0)

/-- An offset is read to the second first, and is zero when its seconds are. -/
def Clock.offset (c : Clock) : ℕ := if (c.hour * 60 + c.minute) * 60 + c.second = 0 then 0 else c.total

/-- An offset behind its sign. -/
def parseOffset (negative : Bool) (s : PyStr) : Option ℤ := do
  let (clock, left) ← parseClock s
  if isOver left ∧ clock.offset < dayMicros then
    return if negative then -(clock.offset : ℤ) else clock.offset
  else none

/-- The zone from its first character on, as an offset. What the clock left over before it (`left`) is
looked at only if there is none. -/
def parseZone (left : PyStr) : PyStr → Option (Option ℤ)
  | [] => if isOver left then some none else none
  | c :: zone =>
    if c = chr 'Z' then if isOver zone then some (some 0) else none
    else (parseOffset (c = chr '-') zone).map some

/-- The time part: microseconds of the day and the offset. -/
def parseIsoformatTime (s : PyStr) : Option (ℕ × Option ℤ) := do
  let (clock, left) ← parseClock (s.takeWhile fun c => !isZoneStart c)
  let offset ← parseZone left (s.dropWhile fun c => !isZoneStart c)
  if clock.isTimeOfDay then return (clock.total, offset) else none

/-- Where a separator can stand, the first surrogate is read as a `T`. -/
def sanitizeIsoformat (s : PyStr) : PyStr :=
  match [7, 8, 10].find? fun i => s[i]?.any fun c => isSurrogate c.val with
  | some i => s.set i (chr 'T')
  | none => s

/-- The time behind the separator; a date alone stands for its midnight. -/
def parseAfterDate (k : ℕ) (s : PyStr) : Option (ℕ × Option ℤ) :=
  if s.length ≤ k then some (0, none) else parseIsoformatTime (s.drop (k + 1))

/-- The parts of an ISO 8601 text. -/
def parseIsoformat (text : PyStr) : Option DateTime :=
  let s := sanitizeIsoformat text
  if s.length < 7 ∨ isEncodable s = false then none
  else do
    let k ← datetimeSeparator s
    let ordinal ← parseIsoformatDate (s.take k)
    let (micros, offset) ← parseAfterDate k s
    let wall ← Instant.ofMicros? (((ordinal : ℤ) - 1) * dayMicros + micros)
    return ⟨wall, offset⟩

/-- `datetime.fromisoformat(s)`. -/
def fromisoformat (s : PyStr) : Except PyExc DateTime :=
  match parseIsoformat s with
  | some d => .ok d
  | none => .error (.std .valueError (.fromisoformat s))

/-- `parsed.astimezone(timezone.utc)` for a `datetime` with an offset; `text` is what it was parsed
from. -/
def astimezoneUtc (wall : Instant) (offset : ℤ) (text : PyStr) : Except PyExc Instant :=
  match Instant.ofMicros? (wall.micros - offset) with
  | some t => .ok t
  | none => .error (.std .overflowError (.astimezone text))

/-- `value.replace("Z", "+00:00") if value.endswith("Z") else value`. -/
def replaceZulu (value : PyStr) : PyStr :=
  if endsWith value (lit "Z") then replaceChar value (chr 'Z') (lit "+00:00") else value

theorem fromisoformat_error {s : PyStr} {e : PyExc} (h : fromisoformat s = .error e) :
    e = .std .valueError (.fromisoformat s) := by
  unfold fromisoformat at h
  cases hp : parseIsoformat s with
  | none => rw [hp] at h; exact (Except.error.inj h).symm
  | some d => rw [hp] at h; cases h

theorem astimezoneUtc_ok {wall t : Instant} {offset : ℤ}
    (h : Instant.ofMicros? (wall.micros - offset) = some t) (text : PyStr) :
    astimezoneUtc wall offset text = .ok t := by
  unfold astimezoneUtc
  rw [h]

theorem astimezoneUtc_error {wall : Instant} {offset : ℤ} {text : PyStr} {e : PyExc}
    (h : astimezoneUtc wall offset text = .error e) :
    e = .std .overflowError (.astimezone text) := by
  unfold astimezoneUtc at h
  cases ht : Instant.ofMicros? (wall.micros - offset) with
  | none => rw [ht] at h; exact (Except.error.inj h).symm
  | some t => rw [ht] at h; cases h

/-! ## Timestamps -/

/-- The text is a timestamp with an offset, and the moment is what it says in UTC. -/
def IsTimeOf (text : PyStr) (t : Instant) : Prop :=
  ∃ d offset, fromisoformat (replaceZulu text) = .ok d ∧ d.offset = some offset ∧
    (t.micros : ℤ) = d.wall.micros - offset

/-- The text is a timestamp with an offset that leads out of the years 1–9999. -/
def LeavesYears (text : PyStr) : Prop :=
  ∃ d offset, fromisoformat (replaceZulu text) = .ok d ∧ d.offset = some offset ∧
    Instant.ofMicros? (d.wall.micros - offset) = none

theorem astimezoneUtc_eq_ok {wall t : Instant} {offset : ℤ} {text : PyStr} :
    astimezoneUtc wall offset text = .ok t ↔ (t.micros : ℤ) = wall.micros - offset := by
  rw [← Instant.ofMicros?_eq_some]
  unfold astimezoneUtc
  cases Instant.ofMicros? (wall.micros - offset) <;> simp

theorem IsTimeOf.unique {text : PyStr} {t t' : Instant} (h : IsTimeOf text t)
    (h' : IsTimeOf text t') : t = t' := by
  obtain ⟨d, offset, hd, ho, ht⟩ := h
  obtain ⟨d', offset', hd', ho', ht'⟩ := h'
  obtain rfl := Except.ok.inj (hd.symm.trans hd')
  obtain rfl := Option.some.inj (ho.symm.trans ho')
  exact Instant.micros_injective (Int.ofNat.inj (ht.trans ht'.symm))

theorem LeavesYears.not_isTimeOf {text : PyStr} {t : Instant} (h : LeavesYears text) :
    ¬IsTimeOf text t := by
  rintro ⟨d', offset', hd', ho', ht'⟩
  obtain ⟨d, offset, hd, ho, hnone⟩ := h
  obtain rfl := Except.ok.inj (hd.symm.trans hd')
  obtain rfl := Option.some.inj (ho.symm.trans ho')
  rw [Instant.ofMicros?_eq_some.mpr ht'] at hnone
  cases hnone

/-- What is read of a text whose time has an offset. -/
theorem parseIsoformat_offset {text : PyStr} {d : DateTime} {offset : ℤ}
    (h : parseIsoformat text = some d) (ho : d.offset = some offset) :
    isEncodable (sanitizeIsoformat text) = true ∧ ∃ k ordinal clock left,
      datetimeSeparator (sanitizeIsoformat text) = some k ∧ k < (sanitizeIsoformat text).length ∧
      parseIsoformatDate ((sanitizeIsoformat text).take k) = some ordinal ∧
      parseClock (((sanitizeIsoformat text).drop (k + 1)).takeWhile fun c => !isZoneStart c) =
        some (clock, left) ∧
      parseZone left (((sanitizeIsoformat text).drop (k + 1)).dropWhile fun c => !isZoneStart c) =
        some (some offset) ∧
      clock.isTimeOfDay = true ∧
      Instant.ofMicros? (((ordinal : ℤ) - 1) * dayMicros + clock.total) = some d.wall := by
  unfold parseIsoformat at h
  dsimp only at h
  split_ifs at h with hrefused
  obtain ⟨k, hk, h⟩ := Option.bind_eq_some_iff.mp h
  obtain ⟨ordinal, hordinal, h⟩ := Option.bind_eq_some_iff.mp h
  obtain ⟨⟨micros, zone⟩, ht, h⟩ := Option.bind_eq_some_iff.mp h
  obtain ⟨wall, hwall, h⟩ := Option.bind_eq_some_iff.mp h
  obtain rfl := Option.some.inj h
  obtain rfl : zone = some offset := ho
  unfold parseAfterDate at ht
  split_ifs at ht with hrest
  · cases ht
  · unfold parseIsoformatTime at ht
    obtain ⟨⟨clock, left⟩, hclock, ht⟩ := Option.bind_eq_some_iff.mp ht
    obtain ⟨zone, hzone, ht⟩ := Option.bind_eq_some_iff.mp ht
    split_ifs at ht with htime
    obtain ⟨rfl, rfl⟩ := Prod.mk.inj (Option.some.inj ht)
    exact ⟨eq_true_of_ne_false fun hf => hrefused (.inr hf), k, ordinal, clock, left, hk, not_le.mp hrest,
      hordinal, hclock, hzone, htime, hwall⟩

end Py
