import SentinelCore.ReceiptFailures
import SentinelCore.Py.IsoForms

/-!
# The time of a receipt

The documentation has `created_at` as an RFC 3339 time in UTC. The verifier reads it with
`fromisoformat`, behind a replacement of every `Z`, which reads other texts too.

1. Only one check of the verifier reports `created_at` (`silent_iff_reads`).
2. The texts it accepts are those of `ReadAs`: the forms of `fromisoformat` (`readsCreatedAt_iff`).
3. The times of RFC 3339 are `Rfc3339`; of the forms, the strict ones are theirs.
-/

namespace Sentinel.Receipt

open Py Lib

variable {env : Env}

/-! ## The check that reports -/

/-- No issue of the list has the code. -/
def Silent (code : String) (issues : List ReceiptVerificationIssue) : Prop :=
  ∀ i ∈ issues, i.code ≠ code

section Silent

variable {code other : String}

theorem silent_append {a b : List ReceiptVerificationIssue} :
    Silent code (a ++ b) ↔ Silent code a ∧ Silent code b := List.forall_mem_append

theorem silent_issueIf {p : Prop} [Decidable p] {message : PyStr} (h : other ≠ code) :
    Silent code (issueIf p (errorIssue other message)) := by
  unfold Silent issueIf
  split_ifs
  · rw [List.forall_mem_singleton]
    exact h
  · exact List.forall_mem_nil _

/-- The issues around those about `created_at` have other codes. -/
theorem silent_policyIssues {receipt : Dict} {strict : Bool} :
    Silent "CREATED_AT_INVALID" (policyIssues receipt strict) := by
  unfold policyIssues
  simp only [silent_append]
  refine ⟨⟨⟨?_, ?_⟩, ?_⟩, ?_⟩
  all_goals exact silent_issueIf (by decide)

theorem silent_fieldIssues {receipt : Dict} {createdAtIssues : List ReceiptVerificationIssue}
    {known : Bool} {hash : PyStr} :
    Silent "CREATED_AT_INVALID" (fieldIssues receipt createdAtIssues known hash) ↔
      Silent "CREATED_AT_INVALID" createdAtIssues := by
  unfold fieldIssues
  simp only [silent_append]
  refine ⟨fun h => h.1.1.1.1.1.1.1.2, fun h => ⟨⟨⟨⟨⟨⟨⟨⟨?_, h⟩, ?_⟩, ?_⟩, ?_⟩, ?_⟩, ?_⟩, ?_⟩, ?_⟩⟩
  all_goals exact silent_issueIf (by decide)

theorem silent_finish {receipt : Dict} {findings : Findings}
    {tally : Tally ReceiptVerificationIssue PyStr PyStr} :
    Silent "CREATED_AT_INVALID" (finish receipt findings tally).issues ↔
      Silent "CREATED_AT_INVALID" tally.issues := by
  unfold finish
  simp only [silent_append]
  refine ⟨fun h => h.1.1.1, fun h => ⟨⟨⟨h, ?_⟩, silent_issueIf (by decide)⟩, silent_issueIf (by decide)⟩⟩
  intro i hi
  obtain ⟨role, -, hi⟩ := List.mem_flatMap.mp hi
  exact silent_issueIf (by decide) i hi

theorem silent_checkCreatedAt {v : Json} {createdAt : Option Instant}
    {issues : List ReceiptVerificationIssue} (h : checkCreatedAt env v = .ok (createdAt, issues)) :
    Silent "CREATED_AT_INVALID" issues ↔ ∃ t, createdAt = some t := by
  obtain ⟨_, t, -, rfl, rfl⟩ | ⟨rfl, message, rfl⟩ := checkCreatedAt_cases h
  · exact iff_of_true (List.forall_mem_nil _) ⟨t, rfl⟩
  · refine iff_of_false (fun hsilent => hsilent _ (List.mem_singleton_self _) rfl) ?_
    rintro ⟨t, ht⟩
    cases ht

/-- The loop over the signatures reports nothing about `created_at`. -/
theorem silent_tally {receipt registry : Dict} {findings : Findings}
    {vs : List (Except ReceiptVerificationIssue (PyStr × PyStr))}
    (hvs : Verdicts env receipt registry findings vs) :
    Silent "CREATED_AT_INVALID" (tallyOf findings vs).issues ↔
      Silent "CREATED_AT_INVALID" findings.issues := by
  have hother : "CREATED_AT_INVALID" ∉ entryCodes := by decide
  have hduplicate : ∀ kid, (duplicateIssue kid).code ≠ "CREATED_AT_INVALID" := fun kid =>
    show "DUPLICATE_SIGNATURE_IGNORED" ≠ _ by decide
  refine (Tally.forall_issues_foldl (P := fun i => i.code ≠ "CREATED_AT_INVALID") hduplicate _ vs).trans
    (and_iff_left fun i hi => ?_)
  obtain ⟨entry, -, hrun⟩ := (mem_of_mapM (mapM_eq_ok.mpr hvs)).mp hi
  exact fun hi => hother (hi ▸ (refusesWith_verifySignature i hrun).2)

end Silent

/-- With keys to verify with, `created_at` is reported unless it is read. -/
theorem silent_iff_reads {receipt registry : Dict} {res : ReceiptVerificationResult}
    (hne : registry.fields ≠ []) (h : verifyReceipt env receipt registry = .ok res) :
    Silent "CREATED_AT_INVALID" res.issues ↔ ∃ t, ReadsCreatedAt receipt t := by
  obtain ⟨strict, findings, vs, hs, hf, hvs, rfl⟩ := (verifyReceipt_eq_ok hne).mp h
  obtain ⟨createdAtIssues, known, hc, hk, hh, hp, hissues⟩ := checkFields_eq_ok.mp hf
  rw [silent_finish, silent_tally hvs, hissues, silent_append, and_iff_right silent_policyIssues,
    silent_fieldIssues, silent_checkCreatedAt hc]
  exact exists_congr (checkCreatedAt_reads hc)

/-- Without keys `created_at` is not reported. -/
theorem silent_of_empty {receipt registry : Dict} {res : ReceiptVerificationResult}
    (hempty : registry.fields = []) (h : verifyReceipt env receipt registry = .ok res) :
    Silent "CREATED_AT_INVALID" res.issues := by
  rw [verifyReceipt_empty hempty] at h
  cases hs : (receipt.get (lit "release_class")).inSet [lit "B", lit "C"] with
  | error e =>
    rw [hs] at h
    cases h
  | ok strict =>
    rw [hs] at h
    obtain rfl := Except.ok.inj h
    refine silent_append.mpr ⟨silent_policyIssues, List.forall_mem_singleton.mpr ?_⟩
    show "TRUST_REGISTRY_EMPTY" ≠ _
    decide

/-- A time that leaves the supported years does not come as far as a result. -/
theorem not_createdAtLeavesYears {receipt registry : Dict} {res : ReceiptVerificationResult}
    (hne : registry.fields ≠ []) (h : verifyReceipt env receipt registry = .ok res) :
    ¬CreatedAtLeavesYears receipt := by
  obtain ⟨_, _, _, -, hf, -⟩ := (verifyReceipt_eq_ok hne).mp h
  obtain ⟨_, _, hc, -⟩ := checkFields_eq_ok.mp hf
  exact (checkCreatedAt_returns_iff env receipt).mp ⟨_, _, hc⟩

/-! ## The texts that are read -/

/-- The text is read as the form: it ends in `Z`, and the form is what stands there when every `Z` is
replaced, and a surrogate between date and clock. -/
def ReadAs (s : PyStr) (f : IsoForm) : Prop :=
  endsWith s (lit "Z") = true ∧ f.text = sanitizeIsoformat (replaceZulu s)

theorem replaceZulu_snoc (u : PyStr) :
    replaceZulu (u ++ lit "Z") = replaceChar u (chr 'Z') (lit "+00:00") ++ lit "+00:00" := by
  have hz : endsWith (u ++ lit "Z") (lit "Z") = true :=
    List.isSuffixOf_iff_suffix.mpr (List.suffix_append u (lit "Z"))
  unfold replaceZulu
  rw [if_pos hz, replaceChar_append]
  rfl

theorem fromisoformat_eq_ok {s : PyStr} {d : DateTime} :
    fromisoformat s = .ok d ↔ parseIsoformat s = some d := by
  unfold fromisoformat
  cases parseIsoformat s with
  | none => exact iff_of_false (fun h => by cases h) fun h => by cases h
  | some d' => rw [Except.ok.injEq, Option.some.injEq]

/-- A text is a time when it is read with an offset, and does not leave the supported years. -/
theorem exists_parseRfc3339Utc {s : PyStr} (hyears : ¬LeavesYears s) :
    (∃ t, parseRfc3339Utc s = .ok t) ↔
      ∃ d offset, parseIsoformat (replaceZulu s) = some d ∧ d.offset = some offset := by
  unfold parseRfc3339Utc
  constructor
  · rintro ⟨t, ht⟩
    obtain ⟨d, hd, ht⟩ := bind_eq_ok.mp ht
    cases ho : d.offset with
    | none =>
      rw [ho] at ht
      cases ht
    | some offset => exact ⟨d, offset, fromisoformat_eq_ok.mp hd, ho⟩
  · rintro ⟨d, offset, hd, ho⟩
    have hd := fromisoformat_eq_ok.mpr hd
    cases ht : Instant.ofMicros? (d.wall.micros - offset) with
    | none => exact absurd ⟨d, offset, hd, ho, ht⟩ hyears
    | some t =>
      refine ⟨t, bind_eq_ok.mpr ⟨d, hd, ?_⟩⟩
      rw [ho]
      exact astimezoneUtc_ok ht s

/-- Which texts of `created_at` are read. -/
theorem readsCreatedAt_iff {receipt : Dict} {s : PyStr} (hyears : ¬CreatedAtLeavesYears receipt)
    (hs : receipt.get (lit "created_at") = .str s) :
    (∃ t, ReadsCreatedAt receipt t) ↔ ∃ f, ReadAs s f := by
  unfold ReadAs
  rw [exists_and_left, ← parseIsoformat_offset_iff]
  constructor
  · rintro ⟨t, text, htext, hz, ht⟩
    obtain rfl := Json.str.inj (hs.symm.trans htext)
    exact ⟨hz, (exists_parseRfc3339Utc fun h => hyears ⟨s, hs, hz, h⟩).mp ⟨t, ht⟩⟩
  · rintro ⟨hz, hread⟩
    obtain ⟨t, ht⟩ := (exists_parseRfc3339Utc fun h => hyears ⟨s, hs, hz, h⟩).mpr hread
    exact ⟨t, s, hs, hz, ht⟩

/-- A character left over behind the clock is passed over. -/
example : (["2026-07-09T08:00:00 Z", "2026-07-09T08:00:00.Z", "20260709T084Z"].all fun s =>
    (parseRfc3339Utc (lit s)).toOption.isSome) = true := by decide +kernel

/-- Where there is no surrogate, none is replaced. -/
theorem sanitizeIsoformat_of_isEncodable {s : PyStr} (h : isEncodable s = true) :
    sanitizeIsoformat s = s := by
  have hnone : ∀ i ∈ [7, 8, 10], s[i]?.any (fun c => isSurrogate c.val) = false := by
    intro i _
    cases hi : s[i]? with
    | none => rfl
    | some c =>
      have hc := List.all_eq_true.mp h c (List.mem_of_getElem? hi)
      rwa [Bool.not_eq_true'] at hc
  unfold sanitizeIsoformat
  rw [List.find?_eq_none.mpr fun i hi => by rw [hnone i hi]; exact Bool.false_ne_true]

theorem isEncodable_replaceZulu {s : PyStr} (h : isEncodable s = true) :
    isEncodable (replaceZulu s) = true := by
  unfold replaceZulu
  split_ifs
  · refine List.all_eq_true.mpr fun c hc => ?_
    obtain ⟨d, hd, hc⟩ := List.mem_flatMap.mp hc
    split_ifs at hc
    · have hzone : isEncodable (lit "+00:00") = true := by decide
      exact List.all_eq_true.mp hzone c hc
    · rw [List.mem_singleton.mp hc]
      exact List.all_eq_true.mp h d hd
  · exact h

/-- Without surrogates only the `Z` are replaced. -/
theorem readAs_of_isEncodable {s : PyStr} {f : IsoForm} (hs : isEncodable s = true) :
    ReadAs s f ↔ endsWith s (lit "Z") = true ∧ f.text = replaceZulu s := by
  unfold ReadAs
  rw [sanitizeIsoformat_of_isEncodable (isEncodable_replaceZulu hs)]

/-! ## RFC 3339 -/

/-- A time of RFC 3339 in UTC, by its parts. `leap` are the days that end with a leap second. -/
structure Rfc3339 (leap : ℕ → ℕ → ℕ → Prop) where
  year : PyStr
  month : PyStr
  day : PyStr
  hour : PyStr
  minute : PyStr
  second : PyStr
  /-- The fraction of the second, from its point on. -/
  fraction : PyStr
  date_digits : Digits 4 year ∧ Digits 2 month ∧ Digits 2 day
  time_digits : Digits 2 hour ∧ Digits 2 minute ∧ Digits 2 second
  fraction_digits : fraction = [] ∨
    ∃ digits, fraction = chr '.' :: digits ∧ digits ≠ [] ∧ digits.all isAsciiDigit = true
  /-- There is such a day. -/
  real_date : 1 ≤ digitsValue month ∧ digitsValue month ≤ 12 ∧ 1 ≤ digitsValue day ∧
    digitsValue day ≤ daysInMonth (digitsValue year) (digitsValue month)
  /-- There is such a time on it. -/
  real_time : digitsValue hour < 24 ∧ digitsValue minute < 60 ∧ (digitsValue second < 60 ∨
    (digitsValue hour = 23 ∧ digitsValue minute = 59 ∧ digitsValue second = 60 ∧
      leap (digitsValue year) (digitsValue month) (digitsValue day)))

namespace Rfc3339

variable {leap : ℕ → ℕ → ℕ → Prop}

def text (q : Rfc3339 leap) : PyStr :=
  q.year ++ chr '-' :: (q.month ++ chr '-' :: (q.day ++ chr 'T' ::
    (q.hour ++ chr ':' :: (q.minute ++ chr ':' :: (q.second ++ (q.fraction ++ lit "Z"))))))

/-- A `datetime` has no year zero and no leap seconds. -/
def Representable (q : Rfc3339 leap) : Prop :=
  digitsValue q.year ≠ 0 ∧ digitsValue q.second ≠ 60

end Rfc3339

/-- The form is one of RFC 3339: the extended calendar date, `T`, hours, minutes and seconds with
colons, a fraction behind a point, nothing left over, and the `Z` at the end for the zone. -/
structure Strict (s : PyStr) (f : IsoForm) : Prop where
  encodable : isEncodable s = true
  date : ∃ year month day, f.date = .calendar true year month day
  separator : f.separator = chr 'T'
  parts : ∃ hour minute second, f.clock.parts = .second true hour minute second
  tail : f.clock.tail = .rest [] ∨ ∃ digits, f.clock.tail = .fraction (lit ".") digits []
  zone : f.zone.text = lit "+00:00"

variable {leap : ℕ → ℕ → ℕ → Prop}

/-- A date that is written as a dashed calendar date is one. -/
theorem calendar_of_text {d : DateForm} (hd : d.IsDigits) {year month day rest tail : PyStr}
    (hy : Digits 4 year) (hm : Digits 2 month) (hday : Digits 2 day)
    (h : d.text ++ tail = year ++ chr '-' :: (month ++ chr '-' :: (day ++ rest))) :
    d = .calendar true year month day ∧ tail = rest := by
  obtain ⟨y1, y2, y3, y4, rfl⟩ := hy.four
  obtain ⟨m1, m2, rfl, hm1, -⟩ := hm.two
  obtain ⟨d1, d2, rfl, -⟩ := hday.two
  have hweek := ne_of_isAsciiDigit hm1 isAsciiDigit_week
  have hnever : chr 'W' ≠ chr '-' := by decide
  cases d with
  | calendar dashed y m dd =>
    obtain ⟨hy, hm, hdd⟩ := hd
    obtain ⟨y1', y2', y3', y4', rfl⟩ := hy.four
    obtain ⟨m1', m2', rfl, hm1', -⟩ := hm.two
    obtain ⟨d1', d2', rfl, -⟩ := hdd.two
    have hdash := ne_of_isAsciiDigit hm1' isAsciiDigit_dash
    cases dashed with
    | true => simp_all [DateForm.text]
    | false => simp [DateForm.text, hdash] at h
  | week dashed y n =>
    obtain ⟨hy, hn⟩ := hd
    obtain ⟨y1', y2', y3', y4', rfl⟩ := hy.four
    cases dashed with
    | true => simp [DateForm.text, hweek.symm] at h
    | false => simp [DateForm.text, hnever] at h
  | weekday dashed y n dd =>
    obtain ⟨hy, hn, hdd⟩ := hd
    obtain ⟨y1', y2', y3', y4', rfl⟩ := hy.four
    cases dashed with
    | true => simp [DateForm.text, hweek.symm] at h
    | false => simp [DateForm.text, hnever] at h

/-- What stands behind parts that go on is no colon and more. -/
theorem text_ne_colon {tail : ClockTail} (h : tail.IsPlain) (c : CodePoint) (rest : PyStr) :
    tail.text ≠ chr ':' :: c :: rest := by
  intro htext
  cases tail with
  | rest left =>
    obtain rfl : left = _ := htext
    have hend := atEnd_of_lt (s := chr ':' :: c :: rest) (by simp)
    exact Bool.false_ne_true (hend.symm.trans h)
  | fraction point digits left =>
    rcases h.1 with rfl | rfl
    all_goals
      have hhead := (List.cons.inj htext).1
      revert hhead
      decide

/-- A fraction behind a point is a tail of its own. -/
theorem tail_of_text {tail : ClockTail} {hour minute second fraction : PyStr}
    (h : tail.Follows (.second true hour minute second))
    (hf : fraction = [] ∨
      ∃ digits, fraction = chr '.' :: digits ∧ digits ≠ [] ∧ digits.all isAsciiDigit = true)
    (htext : tail.text = fraction) :
    tail = .rest [] ∨ ∃ digits, tail = .fraction (lit ".") digits [] := by
  subst htext
  cases tail with
  | rest left =>
    left
    obtain hempty | ⟨digits, hleft, hne, -⟩ := hf
    · rw [show left = [] from hempty]
    · have hend : atEnd left = true := h.resolve_right id
      have hlong : 1 < left.length := by
        rw [show left = _ from hleft, List.length_cons]
        have hpos := List.length_pos_iff.mpr hne
        omega
      rw [atEnd_of_lt hlong] at hend
      cases hend
  | fraction point digits left =>
    right
    have hmark : (point = lit "." ∨ point = lit "," ∨ point = lit ":") ∧ Fraction digits left := by
      rcases h with ⟨hpoint | hpoint, hfraction⟩ | ⟨hpoint, hfraction⟩ <;> simp [hpoint, hfraction]
    obtain ⟨hpoint, hfraction⟩ := hmark
    obtain hempty | ⟨digits', htext, -, hall⟩ := hf
    · have hnil := (List.append_eq_nil_iff.mp hempty).2
      exact absurd (List.append_eq_nil_iff.mp hnil).1 hfraction.1
    · rw [ClockTail.text] at htext
      obtain rfl : point = lit "." := by
        rcases hpoint with rfl | rfl | rfl
        · rfl
        all_goals
          have hhead := (List.cons.inj htext).1
          revert hhead
          decide
      obtain rfl := (List.cons.inj htext).2
      obtain rfl : left = [] := by
        by_contra hne
        obtain ⟨-, hhead⟩ := hfraction.2.2.resolve_left hne
        obtain ⟨c, left, rfl⟩ := List.exists_cons_of_ne_nil hne
        have hc := List.all_eq_true.mp hall c (by simp)
        exact Bool.false_ne_true (hhead.symm.trans hc)
      exact ⟨digits, rfl⟩

/-- A clock that is written with colons, down to the seconds, is such a one. -/
theorem colons_of_text {c : ClockForm} {hour minute second fraction : PyStr} (hh : Digits 2 hour)
    (hm : Digits 2 minute) (hs : Digits 2 second)
    (hf : fraction = [] ∨
      ∃ digits, fraction = chr '.' :: digits ∧ digits ≠ [] ∧ digits.all isAsciiDigit = true)
    (h : c.text = hour ++ chr ':' :: (minute ++ chr ':' :: (second ++ fraction))) :
    (∃ hour minute second, c.parts = .second true hour minute second) ∧
      (c.tail = .rest [] ∨ ∃ digits, c.tail = .fraction (lit ".") digits []) := by
  obtain ⟨h1, h2, rfl, -⟩ := hh.two
  obtain ⟨m1, m2, rfl, -⟩ := hm.two
  obtain ⟨s1, s2, rfl, -⟩ := hs.two
  obtain ⟨parts, tail, hdigits, hfollows⟩ := c
  cases parts with
  | hour hh =>
    obtain ⟨h1', h2', rfl, -⟩ := Digits.two hdigits
    have hplain : tail.IsPlain := hfollows.resolve_right fun h => by cases tail <;> exact h
    simp only [ClockForm.text, ClockParts.text, List.cons_append, List.nil_append, List.cons.injEq] at h
    exact absurd h.2.2 (text_ne_colon hplain _ _)
  | minute colons hh mm =>
    obtain ⟨hh, hm⟩ := hdigits
    obtain ⟨h1', h2', rfl, -⟩ := hh.two
    obtain ⟨m1', m2', rfl, hm1, -⟩ := hm.two
    have hplain : tail.IsPlain := hfollows.resolve_right fun h => by cases tail <;> exact h
    cases colons with
    | true =>
      simp only [ClockForm.text, ClockParts.text, mark_true, List.cons_append, List.nil_append,
        List.cons.injEq] at h
      exact absurd h.2.2.2.2.2 (text_ne_colon hplain _ _)
    | false =>
      have hcolon := ne_of_isAsciiDigit hm1 isAsciiDigit_colon
      simp [ClockForm.text, ClockParts.text, hcolon] at h
  | second colons hh mm ss =>
    obtain ⟨hh, hm, hs⟩ := hdigits
    obtain ⟨h1', h2', rfl, -⟩ := hh.two
    obtain ⟨m1', m2', rfl, hm1, -⟩ := hm.two
    obtain ⟨s1', s2', rfl, -⟩ := hs.two
    cases colons with
    | true =>
      simp only [ClockForm.text, ClockParts.text, mark_true, List.cons_append, List.nil_append,
        List.cons.injEq] at h
      exact ⟨⟨_, _, _, rfl⟩, tail_of_text hfollows hf h.2.2.2.2.2.2.2.2⟩
    | false =>
      have hcolon := ne_of_isAsciiDigit hm1 isAsciiDigit_colon
      simp [ClockForm.text, ClockParts.text, hcolon] at h

theorem notMem_digits {n : ℕ} {ds : PyStr} (h : Digits n ds) {c : CodePoint} (hc : isAsciiDigit c = false) :
    c ∉ ds := fun hmem => ne_of_isAsciiDigit (List.all_eq_true.mp h.2 c hmem) hc rfl

/-- Every `Z` of the text would leave a `+`. -/
theorem eq_of_replaceChar {u t : PyStr} (h : t = replaceChar u (chr 'Z') (lit "+00:00"))
    (ht : chr '+' ∉ t) : u = t := by
  by_cases hz : chr 'Z' ∈ u
  · obtain ⟨a, b, rfl, -⟩ := List.eq_append_cons_of_mem hz
    rw [replaceChar_append, replaceChar_cons_self] at h
    refine absurd ?_ ht
    rw [h]
    exact List.mem_append_right _ List.mem_cons_self
  · rw [h, replaceChar_of_notMem hz]

/-- The text of a strict form, behind its date. -/
theorem text_of_strict {f : IsoForm} {s : PyStr} (hf : Strict s f) (h : ReadAs s f) :
    s = f.date.text ++ chr 'T' :: f.clock.text ++ lit "Z" := by
  obtain ⟨hz, htext⟩ := (readAs_of_isEncodable hf.encodable).mp h
  obtain ⟨u, rfl⟩ := List.isSuffixOf_iff_suffix.mp hz
  rw [replaceZulu_snoc, IsoForm.text, hf.zone, hf.separator, ← List.cons_append, ← List.append_assoc] at htext
  refine congrArg (· ++ lit "Z") (eq_of_replaceChar (List.append_cancel_right htext) fun hmem => ?_)
  obtain ⟨year, month, day, hdate⟩ := hf.date
  have hdigits := f.date_digits
  rw [hdate] at hmem hdigits
  obtain ⟨hy, hm, hd⟩ := hdigits
  have hplus : isAsciiDigit (chr '+') = false := by decide
  have hdash : chr '+' ≠ chr '-' := by decide
  have hT : chr '+' ≠ chr 'T' := by decide
  have hclock : chr '+' ∉ f.clock.text := fun hc => Bool.false_ne_true ((f.plain _ hc).symm.trans (by decide))
  simp [DateForm.text, notMem_digits hy hplus, notMem_digits hm hplus, notMem_digits hd hplus, hdash, hT,
    hclock] at hmem

/-- What is read as a strict form is a time of RFC 3339. -/
theorem rfc3339_of_strict {f : IsoForm} {s : PyStr} (hf : Strict s f) (h : ReadAs s f) :
    ∃ q : Rfc3339 leap, q.text = s ∧ q.Representable := by
  have hs := text_of_strict hf h
  obtain ⟨date, separator, ⟨parts, tail, hclock, hfollows⟩, zone, hdate, ⟨n, hn, hmax⟩, _, htime, _⟩ := f
  obtain ⟨-, ⟨year, month, day, rfl⟩, -, ⟨hour, minute, second, rfl⟩, htail, -⟩ := hf
  have hreal : 1 ≤ digitsValue year ∧ 1 ≤ digitsValue month ∧ digitsValue month ≤ 12 ∧
      1 ≤ digitsValue day ∧ digitsValue day ≤ daysInMonth (digitsValue year) (digitsValue month) := by
    replace hn : ordinalOfDate _ _ _ = some n := hn
    unfold ordinalOfDate at hn
    split_ifs at hn with hreal
    exact hreal
  obtain ⟨hhour, hminute, hsecond⟩ := isTimeOfDay_iff.mp htime
  have hfraction : ClockTail.text tail = [] ∨ ∃ digits, ClockTail.text tail = chr '.' :: digits ∧
      digits ≠ [] ∧ digits.all isAsciiDigit = true := by
    obtain rfl | ⟨digits, rfl⟩ := htail
    · exact .inl rfl
    · obtain ⟨-, hne, hall, -⟩ | ⟨hpoint, -⟩ := hfollows
      · exact .inr ⟨digits, by simp [ClockTail.text, lit], hne, hall⟩
      · exact absurd hpoint (by decide)
  refine ⟨⟨year, month, day, hour, minute, second, ClockTail.text tail, hdate, hclock, hfraction, hreal.2,
    ⟨hhour, hminute, .inl hsecond⟩⟩, ?_, Nat.one_le_iff_ne_zero.mp hreal.1, hsecond.ne⟩
  rw [hs]
  simp [Rfc3339.text, DateForm.text, ClockForm.text, ClockParts.text]

namespace Rfc3339

variable (q : Rfc3339 leap)

/-- The clock of a time of RFC 3339. -/
def clockText : PyStr := q.hour ++ chr ':' :: (q.minute ++ chr ':' :: (q.second ++ q.fraction))

/-- What stands in front of the `Z`. -/
def body : PyStr :=
  q.year ++ chr '-' :: (q.month ++ chr '-' :: (q.day ++ chr 'T' :: q.clockText))

theorem text_eq : q.text = q.body ++ lit "Z" := by
  simp [text, body, clockText]

theorem mem_clockText {c : CodePoint} (hc : c ∈ q.clockText) :
    isAsciiDigit c = true ∨ c ∈ lit ":." := by
  obtain ⟨hh, hm, hs⟩ := q.time_digits
  have hfraction : c ∈ q.fraction → isAsciiDigit c = true ∨ c = chr '.' := fun hmem => by
    obtain hnone | ⟨digits, hf, -, hall⟩ := q.fraction_digits
    · rw [hnone] at hmem
      cases hmem
    · rw [hf, List.mem_cons] at hmem
      exact hmem.symm.imp_left fun hd => List.all_eq_true.mp hall c hd
  unfold clockText at hc
  simp only [List.mem_append, List.mem_cons] at hc
  rcases hc with hc | rfl | hc | rfl | hc | hc
  · exact .inl (List.all_eq_true.mp hh.2 c hc)
  · exact .inr (by decide)
  · exact .inl (List.all_eq_true.mp hm.2 c hc)
  · exact .inr (by decide)
  · exact .inl (List.all_eq_true.mp hs.2 c hc)
  · exact (hfraction hc).imp_right fun h => by rw [h]; decide

theorem mem_body {c : CodePoint} (hc : c ∈ q.body) : isAsciiDigit c = true ∨ c ∈ lit "-T:." := by
  obtain ⟨hy, hm, hd⟩ := q.date_digits
  unfold body at hc
  simp only [List.mem_append, List.mem_cons] at hc
  rcases hc with hc | rfl | hc | rfl | hc | rfl | hc
  · exact .inl (List.all_eq_true.mp hy.2 c hc)
  · exact .inr (by decide)
  · exact .inl (List.all_eq_true.mp hm.2 c hc)
  · exact .inr (by decide)
  · exact .inl (List.all_eq_true.mp hd.2 c hc)
  · exact .inr (by decide)
  · exact (q.mem_clockText hc).imp_right fun h => List.mem_cons_of_mem _ (List.mem_cons_of_mem _ h)

theorem zone_notMem_clockText {c : CodePoint} (hc : c ∈ q.clockText) : isZoneStart c = false := by
  rcases q.mem_clockText hc with hdigit | hmark
  · unfold isZoneStart
    rw [decide_eq_false (ne_of_isAsciiDigit hdigit (by decide)),
      decide_eq_false (ne_of_isAsciiDigit hdigit (by decide)),
      decide_eq_false (ne_of_isAsciiDigit hdigit (by decide))]
    rfl
  · have hmarks : ((lit ":.").all fun c => !isZoneStart c) = true := by decide
    exact (Bool.not_eq_true' _).mp (List.all_eq_true.mp hmarks c hmark)

theorem isEncodable_body : isEncodable q.body = true := by
  refine List.all_eq_true.mpr fun c hc => ?_
  rcases q.mem_body hc with hdigit | hmark
  · unfold isAsciiDigit at hdigit
    unfold isSurrogate
    simp only [Bool.and_eq_true, decide_eq_true_eq, Bool.not_eq_true', Bool.and_eq_false_iff,
      decide_eq_false_iff_not] at hdigit ⊢
    omega
  · have hmarks : isEncodable (lit "-T:.") = true := by decide
    exact List.all_eq_true.mp hmarks c hmark

theorem zulu_notMem_body : chr 'Z' ∉ q.body := fun h => by
  rcases q.mem_body h with h | h <;> revert h <;> decide

/-- The form is read when it is the text with its zone replaced. -/
theorem readAs_iff {f : IsoForm} : ReadAs q.text f ↔ f.text = q.body ++ lit "+00:00" := by
  have hencodable : isEncodable q.text = true := by
    rw [q.text_eq, isEncodable_append]
    exact ⟨q.isEncodable_body, by decide⟩
  rw [readAs_of_isEncodable hencodable, q.text_eq, replaceZulu_snoc, replaceChar_of_notMem q.zulu_notMem_body]
  exact and_iff_right (List.isSuffixOf_iff_suffix.mpr (List.suffix_append _ _))

/-- The clock of a time of RFC 3339, as a form. -/
theorem exists_clock (hq : q.Representable) : ∃ c : ClockForm,
    c.reading.isTimeOfDay = true ∧ c.text = q.clockText := by
  obtain ⟨hh, hm, hs⟩ := q.time_digits
  have htime : digitsValue q.hour < 24 ∧ digitsValue q.minute < 60 ∧ digitsValue q.second < 60 :=
    ⟨q.real_time.1, q.real_time.2.1, q.real_time.2.2.resolve_right fun h => hq.2 h.2.2.1⟩
  obtain ⟨tail, hplain, htail⟩ : ∃ tail : ClockTail, tail.IsPlain ∧ tail.text = q.fraction := by
    obtain hnone | ⟨digits, hfraction, hne, hall⟩ := q.fraction_digits
    · exact ⟨.rest [], rfl, hnone.symm⟩
    · exact ⟨.fraction (lit ".") digits [], ⟨.inl rfl, hne, hall, .inl rfl⟩,
        by simp [ClockTail.text, hfraction, lit]⟩
  refine ⟨⟨.second true q.hour q.minute q.second, tail, ⟨hh, hm, hs⟩, .inl hplain⟩,
    isTimeOfDay_iff.mpr htime, ?_⟩
  simp [ClockForm.text, ClockParts.text, htail, clockText]

end Rfc3339

/-- The zone that stands for a `Z`. -/
def utcZone : ZoneForm :=
  .offset false ⟨.minute true (lit "00") (lit "00"), .rest [], ⟨⟨rfl, by decide⟩, ⟨rfl, by decide⟩⟩, .inl rfl⟩

theorem utcZone_text : utcZone.text = lit "+00:00" := by decide

theorem utcZone_isRead : utcZone.IsRead := ⟨rfl, by decide⟩

/-- A time of RFC 3339 is read, unless there is no such `datetime`. -/
theorem Rfc3339.exists_form (q : Rfc3339 leap) (hq : q.Representable) : ∃ f, ReadAs q.text f := by
  obtain ⟨clock, htime, htext⟩ := q.exists_clock hq
  have hyear : digitsValue q.year ≤ 9999 := by
    have hlt := digitsValue_lt fun c hc => List.all_eq_true.mp q.date_digits.1.2 c hc
    rw [q.date_digits.1.1] at hlt
    omega
  have hday : ∃ n, ordinalOfDate (digitsValue q.year) (digitsValue q.month) (digitsValue q.day) =
      some n ∧ n ≤ maxOrdinal := by
    obtain ⟨n, hn⟩ : ∃ n, ordinalOfDate (digitsValue q.year) (digitsValue q.month)
        (digitsValue q.day) = some n := by
      unfold ordinalOfDate
      exact ⟨_, if_pos ⟨Nat.one_le_iff_ne_zero.mpr hq.1, q.real_date⟩⟩
    exact ⟨n, hn, ordinalOfDate_le hn hyear⟩
  have hwhole : (DateForm.calendar true q.year q.month q.day).text ++
      chr 'T' :: (clock.text ++ utcZone.text) = q.body ++ lit "+00:00" := by
    rw [htext, utcZone_text]
    simp [DateForm.text, Rfc3339.body]
  refine ⟨⟨.calendar true q.year q.month q.day, chr 'T', clock, utcZone, q.date_digits, hday, trivial,
    htime, fun c hc => q.zone_notMem_clockText (htext ▸ hc), utcZone_isRead, ?_⟩, q.readAs_iff.mpr hwhole⟩
  rw [hwhole, isEncodable_append]
  exact ⟨q.isEncodable_body, by decide⟩

/-- A time of RFC 3339 is read in no other way. -/
theorem strict_of_rfc3339 {q : Rfc3339 leap} {f : IsoForm} (h : ReadAs q.text f) : Strict q.text f := by
  obtain ⟨hy, hm, hd⟩ := q.date_digits
  obtain ⟨hh, hmin, hs⟩ := q.time_digits
  have htext := q.readAs_iff.mp h
  rw [IsoForm.text, Rfc3339.body, List.append_assoc, List.cons_append, List.append_assoc, List.cons_append,
    List.append_assoc, List.cons_append] at htext
  obtain ⟨hdate, htail⟩ := calendar_of_text f.date_digits hy hm hd htext
  obtain ⟨hsep, hrest⟩ := List.cons.inj htail
  -- the clock ends where the first zone starts
  obtain ⟨hclock, hzone⟩ := takeWhile_zone f.plain f.zone.head?_text
  obtain ⟨hclock', hzone'⟩ := takeWhile_zone (fun c => q.zone_notMem_clockText) utcZone.head?_text
  rw [utcZone_text] at hclock' hzone'
  rw [hrest] at hclock hzone
  obtain ⟨hparts, hfraction⟩ := colons_of_text hh hmin hs q.fraction_digits (hclock.symm.trans hclock')
  refine ⟨?_, ⟨_, _, _, hdate⟩, hsep, hparts, hfraction, hzone.symm.trans hzone'⟩
  rw [q.text_eq, isEncodable_append]
  exact ⟨q.isEncodable_body, by decide⟩

theorem representable_of_text_eq {q q' : Rfc3339 leap} (h : q.text = q'.text) (hq : q.Representable) :
    q'.Representable := by
  obtain ⟨hy, hm, hd⟩ := q.date_digits
  obtain ⟨hh, hmin, hs, -⟩ := q.time_digits
  obtain ⟨hy', hm', hd'⟩ := q'.date_digits
  obtain ⟨hh', hmin', hs', -⟩ := q'.time_digits
  unfold Rfc3339.text at h
  obtain ⟨hyear, h⟩ := List.append_inj h (hy.1.trans hy'.1.symm)
  obtain ⟨-, h⟩ := List.append_inj (List.cons.inj h).2 (hm.1.trans hm'.1.symm)
  obtain ⟨-, h⟩ := List.append_inj (List.cons.inj h).2 (hd.1.trans hd'.1.symm)
  obtain ⟨-, h⟩ := List.append_inj (List.cons.inj h).2 (hh.1.trans hh'.1.symm)
  obtain ⟨-, h⟩ := List.append_inj (List.cons.inj h).2 (hmin.1.trans hmin'.1.symm)
  obtain ⟨hsecond, -⟩ := List.append_inj (List.cons.inj h).2 (hs.trans hs'.symm)
  unfold Rfc3339.Representable at *
  rwa [← hyear, ← hsecond]

/-- `created_at` is reported exactly unless it is a time of RFC 3339, when the text is neither one that a
`datetime` cannot represent nor in another form that is read. Without keys it is not looked at. -/
theorem createdAt_reported_iff {receipt registry : Dict} {res : ReceiptVerificationResult} {s : PyStr}
    (h : verifyReceipt env receipt registry = .ok res)
    (hs : receipt.get (lit "created_at") = .str s) :
    (Silent "CREATED_AT_INVALID" res.issues ↔ ∃ q : Rfc3339 leap, q.text = s) ↔
      if registry.fields = [] then ∃ q : Rfc3339 leap, q.text = s
      else (∀ f, ReadAs s f → Strict s f) ∧ ∀ q : Rfc3339 leap, q.text = s → q.Representable := by
  split_ifs with hempty
  · have hsilent := silent_of_empty hempty h
    exact ⟨fun hiff => hiff.mp hsilent, fun hq => iff_of_true hsilent hq⟩
  · rw [silent_iff_reads hempty h, readsCreatedAt_iff (not_createdAtLeavesYears hempty h) hs]
    constructor
    · intro hiff
      have hstrict : ∀ f, ReadAs s f → Strict s f := fun f hf => by
        obtain ⟨q, rfl⟩ := hiff.mp ⟨f, hf⟩
        exact strict_of_rfc3339 hf
      refine ⟨hstrict, fun q hq => ?_⟩
      obtain ⟨f, hf⟩ := hiff.mpr ⟨q, hq⟩
      obtain ⟨q', hq', hrep⟩ : ∃ q' : Rfc3339 leap, q'.text = s ∧ q'.Representable :=
        rfc3339_of_strict (hstrict f hf) hf
      exact representable_of_text_eq (hq'.trans hq.symm) hrep
    · rintro ⟨hstrict, hrep⟩
      constructor
      · rintro ⟨f, hf⟩
        obtain ⟨q, hq, -⟩ := rfc3339_of_strict (hstrict f hf) hf
        exact ⟨q, hq⟩
      · rintro ⟨q, rfl⟩
        exact q.exists_form (hrep q rfl)

/-! ## Two receipts -/

/-- The time of the sample receipt. -/
def sampleTime : Rfc3339 fun _ _ _ => False where
  year := lit "2026"
  month := lit "07"
  day := lit "09"
  hour := lit "08"
  minute := lit "00"
  second := lit "00"
  fraction := []
  date_digits := ⟨⟨rfl, by decide⟩, ⟨rfl, by decide⟩, ⟨rfl, by decide⟩⟩
  time_digits := ⟨⟨rfl, by decide⟩, ⟨rfl, by decide⟩, ⟨rfl, by decide⟩⟩
  fraction_digits := .inl rfl
  real_date := by decide
  real_time := ⟨by decide, by decide, .inl (by decide)⟩

theorem sampleReceipt_reported : ∃ res,
    verifyReceipt demoEnv sampleReceipt sampleRegistry = .ok res ∧
      (Silent "CREATED_AT_INVALID" res.issues ↔
        ∃ q : Rfc3339 fun _ _ _ => False, q.text = lit "2026-07-09T08:00:00Z") := by
  obtain ⟨res, h, -⟩ := sampleReceipt_verified
  have hs : sampleReceipt.get (lit "created_at") = .str sampleTime.text := by decide +kernel
  have hrep : sampleTime.Representable := by
    unfold Rfc3339.Representable
    decide
  refine ⟨res, h, (createdAt_reported_iff h hs).mpr ?_⟩
  rw [if_neg (by decide)]
  exact ⟨fun f hf => strict_of_rfc3339 hf, fun q hq => representable_of_text_eq hq.symm hrep⟩

/-- A receipt whose time is in the basic form, and ends with the hour. -/
def basicReceipt : Dict := sampleBase.set (lit "created_at") (.str (lit "20260709T08Z")) (by rfl)

/-- Its time is read, and is none of RFC 3339. -/
theorem basicReceipt_silent : ¬∃ leap, ∀ env receipt registry res s, registry.fields ≠ [] →
    verifyReceipt env receipt registry = .ok res → receipt.get (lit "created_at") = .str s →
    (Silent "CREATED_AT_INVALID" res.issues ↔ ∃ q : Rfc3339 leap, q.text = s) := by
  rintro ⟨leap, h⟩
  obtain ⟨res, hres, hissues⟩ : ∃ res, verifyReceipt demoEnv basicReceipt sampleRegistry = .ok res ∧
      (res.issues.all fun i => i.code ≠ "CREATED_AT_INVALID") = true :=
    exists_of_map (by decide +kernel)
  have hsilent : Silent "CREATED_AT_INVALID" res.issues := fun i hi =>
    of_decide_eq_true (List.all_eq_true.mp hissues i hi)
  obtain ⟨q, hq⟩ := (h demoEnv basicReceipt sampleRegistry res (lit "20260709T08Z") (by decide) hres
    (by decide +kernel)).mp hsilent
  have hlength := congrArg List.length hq
  obtain ⟨hy, hm, hd⟩ := q.date_digits
  obtain ⟨hh, hmin, hs, -⟩ := q.time_digits
  simp only [Rfc3339.text, List.length_append, List.length_cons, hy.1, hm.1, hd.1, hh.1, hmin.1, hs] at hlength
  have htext : (lit "20260709T08Z").length = 12 := by decide
  omega

end Sentinel.Receipt
