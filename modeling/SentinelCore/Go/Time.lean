import SentinelCore.Go.Text
import SentinelCore.Py.DateTime

/-!
# `time.Time`

A moment with the offset its location gives it, and how `MarshalJSON` writes it: RFC 3339 with as many
fractional digits as needed, refused when the year does not have four digits or the offset is a day or
more.
-/

namespace Go

open Py (PyStr byte chr digitsText)

/-- A `time.Time`: seconds from the start of the year 1 in UTC, nanoseconds within the second, and the
seconds its location is east of UTC then. -/
structure Time where
  sec : ℤ
  nsec : ℕ
  nsec_lt : nsec < 1000000000
  offset : ℤ
  deriving DecidableEq

namespace Time

def isZero (t : Time) : Bool := t.sec = 0 && t.nsec = 0

/-- The year of a day counted from January 1 of the year 1, and the day within it. The last year of
a cycle of 4 or of 400 years is a day longer than the others. -/
def yearOfDay (day : ℤ) : ℤ × ℕ :=
  let n400 := day / 146097
  let d := (day % 146097).toNat
  let n100 := min (d / 36524) 3
  let d := d - 36524 * n100
  let n4 := d / 1461
  let d := d - 1461 * n4
  let n1 := min (d / 365) 3
  (400 * n400 + 100 * n100 + 4 * n4 + n1 + 1, d - 365 * n1)

/-- The month and the day of a day within the year, looked for from month `13 - k` on. -/
def monthDay (year : ℕ) : ℕ → ℕ → ℕ × ℕ
  | 0, day => (12, day + 1)
  | k + 1, day =>
    if day < Py.daysInMonth year (12 - k) then (12 - k, day + 1)
    else monthDay year k (day - Py.daysInMonth year (12 - k))

/-- `appendInt` with a width. -/
def padded (width n : ℕ) : PyStr :=
  List.replicate (width - (digitsText n).length) (chr '0') ++ digitsText n

/-- `appendNano` without trailing zeros. -/
def nanoText (nsec : ℕ) : PyStr :=
  if nsec = 0 then []
  else chr '.' :: ((padded 9 nsec).reverse.dropWhile (· = chr '0')).reverse

def zoneText (offset : ℤ) : PyStr :=
  if offset = 0 then Py.lit "Z"
  else
    let zone := offset.natAbs / 60
    -- an offset below a minute has the sign `+`
    let sign := if offset < 0 ∧ zone ≠ 0 then chr '-' else chr '+'
    sign :: (padded 2 (zone / 60) ++ chr ':' :: padded 2 (zone % 60))

/-- `appendFormatRFC3339` for a year of four digits. -/
def rfc3339 (t : Time) (year yearDay : ℕ) : PyStr :=
  let date := monthDay year 12 yearDay
  let clock := ((t.sec + t.offset) % 86400).toNat
  padded 4 year ++ chr '-' :: (padded 2 date.1 ++ chr '-' :: (padded 2 date.2 ++ chr 'T' ::
    (padded 2 (clock / 3600) ++ chr ':' :: (padded 2 (clock % 3600 / 60) ++ chr ':' ::
      (padded 2 (clock % 60) ++ (nanoText t.nsec ++ zoneText t.offset))))))

/-- What `MarshalJSON` writes between the quotes. -/
def marshalText (t : Time) : Except GoStr GoStr :=
  let date := yearOfDay ((t.sec + t.offset) / 86400)
  if date.1 < 0 ∨ 9999 < date.1 then
    .error (str "Time.MarshalJSON: year outside of range [0,9999]")
  else if 24 ≤ t.offset.natAbs / 3600 then
    .error (str "Time.MarshalJSON: timezone hour outside of range [0,23]")
  else .ok (ascii (t.rfc3339 date.1.toNat date.2))

example : marshalText ⟨63917884800, 0, by decide, 0⟩ = .ok (str "2026-06-24T08:00:00Z") := by
  decide +kernel

/-! ## No quotes -/

/-- The characters of a rendered time. -/
def isTimeChar (c : Py.CodePoint) : Bool := Py.isAsciiDigit c || (Py.lit "-:.+TZ").contains c

theorem isTimeChar_lt {c : Py.CodePoint} (h : isTimeChar c = true) : c.val < 0x80 := by
  unfold isTimeChar at h
  rcases Bool.or_eq_true _ _ ▸ h with hd | hc
  · simp only [Py.isAsciiDigit, Bool.and_eq_true, decide_eq_true_eq] at hd
    omega
  · have hall : (Py.lit "-:.+TZ").all (fun c => c.val < 0x80) = true := by decide
    exact of_decide_eq_true (List.all_eq_true.mp hall c (List.contains_iff_mem.mp hc))

theorem isTimeChar_padded (width n : ℕ) : (padded width n).all isTimeChar = true := by
  unfold padded
  rw [List.all_append, Bool.and_eq_true]
  refine ⟨List.all_eq_true.mpr fun c hc => ?_, List.all_eq_true.mpr fun c hc => ?_⟩
  · rw [List.eq_of_mem_replicate hc]
    decide
  · rw [isTimeChar, Py.digitsText_isDigit n c hc, Bool.true_or]

theorem isTimeChar_nanoText (nsec : ℕ) : (nanoText nsec).all isTimeChar = true := by
  unfold nanoText
  split_ifs with h
  · rfl
  · rw [List.all_cons, Bool.and_eq_true]
    refine ⟨by decide, List.all_eq_true.mpr fun c hc => ?_⟩
    have hmem := (List.dropWhile_sublist _).subset (List.mem_reverse.mp hc)
    exact List.all_eq_true.mp (isTimeChar_padded 9 nsec) c (List.mem_reverse.mp hmem)

theorem isTimeChar_zoneText (offset : ℤ) : (zoneText offset).all isTimeChar = true := by
  unfold zoneText
  split_ifs with h
  · decide
  · rw [List.all_cons, List.all_append, List.all_cons, isTimeChar_padded, isTimeChar_padded]
    have hsign : isTimeChar (if offset < 0 ∧ offset.natAbs / 60 ≠ 0 then chr '-' else chr '+') =
        true := by
      by_cases hneg : offset < 0 ∧ offset.natAbs / 60 ≠ 0
      · rw [if_pos hneg]
        decide
      · rw [if_neg hneg]
        decide
    rw [hsign]
    decide

theorem isTimeChar_rfc3339 (t : Time) (year yearDay : ℕ) :
    (t.rfc3339 year yearDay).all isTimeChar = true := by
  unfold rfc3339
  simp [isTimeChar_padded, isTimeChar_nanoText, isTimeChar_zoneText]
  decide

/-- A rendered time has no quote in it. -/
theorem quote_notMem_marshalText {t : Time} {s : GoStr} (h : t.marshalText = .ok s) :
    byte 0x22 ∉ s := by
  unfold marshalText at h
  simp only at h
  split_ifs at h
  obtain rfl := Except.ok.inj h
  intro hq
  obtain ⟨c, hc, he⟩ := List.mem_map.mp hq
  have hch := List.all_eq_true.mp (isTimeChar_rfc3339 t _ _) c hc
  have hlt : c.val < 0x80 := isTimeChar_lt hch
  have hv := congrArg Fin.val he
  rw [Py.byte_val (by omega), Py.byte_val (by omega)] at hv
  rw [← Py.point_val c, hv] at hch
  exact absurd hch (by decide)

end Time

end Go
