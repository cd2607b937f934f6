import SentinelCore.WorkflowKeys
import SentinelCore.Lib.Layout

/-!
# Where a comment starts

YAML starts a comment at a `#` outside a quoted scalar, at the start of the line or behind white space.
`_without_yaml_comment` pairs quote characters wherever it meets them, and cuts at the first `#` outside
the pairs.

1. A text has its quotes in pairs, or leaves one open, or has a `#` outside the pairs (`paired_or`); the
   scan passes it, or stops there (`uncommented_paired`, `uncommented_opens`).
2. `EntryLine` is a line of a block mapping with a scalar value, as YAML reads it.
3. `comment_iff` says for which of these lines the scan and YAML agree.
-/

namespace Sentinel.Workflow

open Py Lib

/-! ## Paired quotes -/

/-- Between double quotes: no bare double quote, and no backslash at the end. -/
inductive Escaped : PyStr → Prop
  | nil : Escaped []
  | char {c : CodePoint} {raw : PyStr} (hquote : c ≠ chr '"') (hescape : c ≠ chr '\\')
      (h : Escaped raw) : Escaped (c :: raw)
  | escape {c : CodePoint} {raw : PyStr} (h : Escaped raw) : Escaped (chr '\\' :: c :: raw)

/-- Every quote character has its partner, and no `#` is outside a pair. -/
inductive Paired : PyStr → Prop
  | nil : Paired []
  | char {c : CodePoint} {s : PyStr} (hquote : isQuote c = false) (hhash : c ≠ chr '#')
      (h : Paired s) : Paired (c :: s)
  | single {raw s : PyStr} (hraw : chr '\'' ∉ raw) (h : Paired s) :
      Paired (chr '\'' :: (raw ++ chr '\'' :: s))
  | double {raw s : PyStr} (hraw : Escaped raw) (h : Paired s) :
      Paired (chr '"' :: (raw ++ chr '"' :: s))

/-- The quote is not closed again. -/
def Unclosed (q : CodePoint) (s : PyStr) : Prop :=
  (q = chr '\'' ∧ chr '\'' ∉ s) ∨
    (q = chr '"' ∧ (Escaped s ∨ ∃ raw, s = raw ++ [chr '\\'] ∧ Escaped raw))

/-- The quotes are in pairs up to one that is left open. -/
def Opens (s : PyStr) : Prop := ∃ a q b, s = a ++ q :: b ∧ Paired a ∧ Unclosed q b

/-- A `#` follows text with its quotes in pairs. -/
def Cuts (s : PyStr) : Prop := ∃ a b, s = a ++ chr '#' :: b ∧ Paired a

theorem Paired.append {a b : PyStr} (ha : Paired a) (hb : Paired b) : Paired (a ++ b) := by
  induction ha with
  | nil => exact hb
  | char hquote hhash _ ih => exact .char hquote hhash ih
  | single hraw _ ih =>
    rw [List.cons_append, List.append_assoc, List.cons_append]
    exact .single hraw ih
  | double hraw _ ih =>
    rw [List.cons_append, List.append_assoc, List.cons_append]
    exact .double hraw ih

theorem Opens.append {a s : PyStr} (ha : Paired a) (h : Opens s) : Opens (a ++ s) := by
  obtain ⟨b, q, rest, rfl, hb, hrest⟩ := h
  exact ⟨a ++ b, q, rest, by rw [List.append_assoc], ha.append hb, hrest⟩

theorem Cuts.append {a s : PyStr} (ha : Paired a) (h : Cuts s) : Cuts (a ++ s) := by
  obtain ⟨b, rest, rfl, hb⟩ := h
  exact ⟨a ++ b, rest, by rw [List.append_assoc], ha.append hb⟩

/-- Text behind a double quote closes it, or leaves it open. -/
theorem escaped_or (s : PyStr) :
    (∃ raw rest, s = raw ++ chr '"' :: rest ∧ Escaped raw) ∨ Unclosed (chr '"') s := by
  induction hn : s.length using Nat.strong_induction_on generalizing s with
  | _ n ih =>
    match s with
    | [] => exact .inr (.inr ⟨rfl, .inl .nil⟩)
    | c :: s =>
      by_cases hquote : c = chr '"'
      · subst hquote
        exact .inl ⟨[], s, rfl, .nil⟩
      by_cases hescape : c = chr '\\'
      · subst hescape
        match s with
        | [] => exact .inr (.inr ⟨rfl, .inr ⟨[], rfl, .nil⟩⟩)
        | d :: s =>
          rcases ih s.length (by simp only [List.length_cons] at hn; omega) s rfl with
            ⟨raw, rest, rfl, hraw⟩ | ⟨hq, -⟩ | ⟨-, hall | ⟨raw, rfl, hraw⟩⟩
          · exact .inl ⟨chr '\\' :: d :: raw, rest, rfl, .escape hraw⟩
          · exact absurd hq (by decide)
          · exact .inr (.inr ⟨rfl, .inl (.escape hall)⟩)
          · exact .inr (.inr ⟨rfl, .inr ⟨chr '\\' :: d :: raw, rfl, .escape hraw⟩⟩)
      · rcases ih s.length (by simp only [List.length_cons] at hn; omega) s rfl with
          ⟨raw, rest, rfl, hraw⟩ | ⟨hq, -⟩ | ⟨-, hall | ⟨raw, rfl, hraw⟩⟩
        · exact .inl ⟨c :: raw, rest, rfl, .char hquote hescape hraw⟩
        · exact absurd hq (by decide)
        · exact .inr (.inr ⟨rfl, .inl (.char hquote hescape hall)⟩)
        · exact .inr (.inr ⟨rfl, .inr ⟨c :: raw, rfl, .char hquote hescape hraw⟩⟩)

/-- Every text is of one of the three kinds. -/
theorem paired_or (s : PyStr) : Paired s ∨ Opens s ∨ Cuts s := by
  induction hn : s.length using Nat.strong_induction_on generalizing s with
  | _ n ih =>
    have hrest : ∀ a rest, Paired a → s = a ++ rest → rest.length < n →
        Paired s ∨ Opens s ∨ Cuts s := by
      rintro a rest ha rfl hlt
      rcases ih rest.length hlt rest rfl with h | h | h
      · exact .inl (ha.append h)
      · exact .inr (.inl (h.append ha))
      · exact .inr (.inr (h.append ha))
    match s with
    | [] => exact .inl .nil
    | c :: s =>
      by_cases hhash : c = chr '#'
      · subst hhash
        exact .inr (.inr ⟨[], s, rfl, .nil⟩)
      by_cases hsingle : c = chr '\''
      · subst hsingle
        by_cases hclosed : chr '\'' ∈ s
        · obtain ⟨raw, rest, rfl, hraw⟩ := List.eq_append_cons_of_mem hclosed
          refine hrest (chr '\'' :: (raw ++ [chr '\''])) rest (.single hraw .nil) (by simp) ?_
          simp only [List.length_cons, List.length_append] at hn
          omega
        · exact .inr (.inl ⟨[], _, s, rfl, .nil, .inl ⟨rfl, hclosed⟩⟩)
      by_cases hdouble : c = chr '"'
      · subst hdouble
        rcases escaped_or s with ⟨raw, rest, rfl, hraw⟩ | hopen
        · refine hrest (chr '"' :: (raw ++ [chr '"'])) rest (.double hraw .nil) (by simp) ?_
          simp only [List.length_cons, List.length_append] at hn
          omega
        · exact .inr (.inl ⟨[], _, s, rfl, .nil, hopen⟩)
      · have hquote : isQuote c = false := by
          unfold isQuote
          rw [decide_eq_false hsingle, decide_eq_false hdouble]
          rfl
        refine hrest [c] s (.char hquote hhash .nil) rfl ?_
        simp only [List.length_cons] at hn
        omega

/-! ## The scan -/

theorem uncommented_single {raw : PyStr} (hraw : chr '\'' ∉ raw) (s : PyStr) :
    uncommented (some (chr '\'')) false (raw ++ s) = raw ++ uncommented (some (chr '\'')) false s := by
  induction raw with
  | nil => rfl
  | cons c raw ih =>
    rw [List.mem_cons, not_or] at hraw
    have hother : chr '\'' ≠ chr '"' := by decide
    rw [List.cons_append, uncommented, if_neg (by simp), if_neg (by simp [hother]), if_neg (by simp),
      if_neg (by simp [hraw.1]), if_neg (by simp), ih hraw.2, List.cons_append]

theorem uncommented_double {raw : PyStr} (hraw : Escaped raw) (s : PyStr) :
    uncommented (some (chr '"')) false (raw ++ s) = raw ++ uncommented (some (chr '"')) false s := by
  induction hraw with
  | nil => rfl
  | char hquote hescape _ ih =>
    rw [List.cons_append, uncommented, if_neg (by simp), if_neg (by simp [hescape]), if_neg (by simp),
      if_neg (by simp [Ne.symm hquote]), if_neg (by simp), ih, List.cons_append]
  | escape _ ih =>
    rw [List.cons_append, List.cons_append, uncommented, if_neg (by simp), if_pos (by simp), uncommented,
      if_pos (by simp), ih, List.cons_append, List.cons_append]

theorem isQuote_iff {q : CodePoint} : isQuote q = true ↔ q = chr '\'' ∨ q = chr '"' := by
  unfold isQuote
  rw [Bool.or_eq_true, decide_eq_true_eq, decide_eq_true_eq]

theorem uncommented_open {q : CodePoint} (hq : isQuote q = true) (s : PyStr) :
    uncommented none false (q :: s) = q :: uncommented (some q) false s := by
  rw [uncommented, if_neg (by simp), if_neg (by simp), if_pos ⟨rfl, isQuote_iff.mp hq⟩]

theorem uncommented_close {q : CodePoint} (hq : isQuote q = true) (s : PyStr) :
    uncommented (some q) false (q :: s) = q :: uncommented none false s := by
  have hescape : q ≠ chr '\\' := by
    rintro rfl
    exact absurd hq (by decide)
  rw [uncommented, if_neg (by simp), if_neg (by simp [hescape]), if_neg (by simp), if_pos rfl]

theorem uncommented_char {c : CodePoint} (hquote : isQuote c = false) (hhash : c ≠ chr '#') (s : PyStr) :
    uncommented none false (c :: s) = c :: uncommented none false s := by
  have hnot : ¬(c = chr '\'' ∨ c = chr '"') := fun h => by
    rw [isQuote_iff.mpr h] at hquote
    cases hquote
  rw [uncommented, if_neg (by simp), if_neg (by simp), if_neg (by simp [hnot]), if_neg (by simp),
    if_neg (by simp [hhash])]

theorem uncommented_hash (s : PyStr) : uncommented none false (chr '#' :: s) = [] := by
  have hquote : ¬(chr '#' = chr '\'' ∨ chr '#' = chr '"') := by decide
  rw [uncommented, if_neg (by simp), if_neg (by simp), if_neg (by simp [hquote]), if_neg (by simp),
    if_pos ⟨rfl, rfl⟩]

/-- Inside quotes a `#` is kept. -/
theorem uncommented_hash_quoted {q : CodePoint} (hq : isQuote q = true) (escaped : Bool) (s : PyStr) :
    ∃ rest, uncommented (some q) escaped (chr '#' :: s) = chr '#' :: rest := by
  have hne : q ≠ chr '#' := by
    rintro rfl
    exact absurd hq (by decide)
  rw [uncommented]
  split_ifs with h1 h2 h3 h4 h5
  · exact ⟨_, rfl⟩
  · exact ⟨_, rfl⟩
  · exact ⟨_, rfl⟩
  · exact ⟨_, rfl⟩
  · exact absurd h5.1 (by simp)
  · exact ⟨_, rfl⟩

/-- The scan passes text with its quotes in pairs. -/
theorem uncommented_paired {a : PyStr} (ha : Paired a) (s : PyStr) :
    uncommented none false (a ++ s) = a ++ uncommented none false s := by
  have hsingle : isQuote (chr '\'') = true := by decide
  have hdouble : isQuote (chr '"') = true := by decide
  induction ha with
  | nil => rfl
  | char hquote hhash _ ih => rw [List.cons_append, uncommented_char hquote hhash, ih, List.cons_append]
  | single hraw _ ih =>
    rw [List.cons_append, List.append_assoc, List.cons_append, uncommented_open hsingle,
      uncommented_single hraw, uncommented_close hsingle, ih]
    simp only [List.cons_append, List.append_assoc]
  | double hraw _ ih =>
    rw [List.cons_append, List.append_assoc, List.cons_append, uncommented_open hdouble,
      uncommented_double hraw, uncommented_close hdouble, ih]
    simp only [List.cons_append, List.append_assoc]

/-- Behind a quote that is left open, the scan goes on within it. -/
theorem uncommented_opens {a : PyStr} (ha : Opens a) :
    ∃ q escaped, isQuote q = true ∧ ∀ s, uncommented none false (a ++ s) =
      a ++ uncommented (some q) escaped s := by
  have hescape : ∀ s, uncommented (some (chr '"')) false (chr '\\' :: s) =
      chr '\\' :: uncommented (some (chr '"')) true s := by
    intro s
    rw [uncommented, if_neg (by simp), if_pos ⟨rfl, rfl⟩]
  obtain ⟨p, q, b, rfl, hp, hb⟩ := ha
  rcases hb with ⟨rfl, hb⟩ | ⟨rfl, hb | ⟨raw, rfl, hraw⟩⟩
  · refine ⟨chr '\'', false, by decide, fun s => ?_⟩
    rw [List.append_assoc, List.cons_append, uncommented_paired hp, uncommented_open (by decide),
      uncommented_single hb, List.append_assoc, List.cons_append]
  · refine ⟨chr '"', false, by decide, fun s => ?_⟩
    rw [List.append_assoc, List.cons_append, uncommented_paired hp, uncommented_open (by decide),
      uncommented_double hb, List.append_assoc, List.cons_append]
  · refine ⟨chr '"', true, by decide, fun s => ?_⟩
    rw [List.append_assoc, List.cons_append, List.append_assoc, uncommented_paired hp,
      uncommented_open (by decide), uncommented_double hraw, List.singleton_append, hescape]
    simp only [List.cons_append, List.append_assoc, List.nil_append]

/-- Text behind a `#` outside the pairs is cut off. -/
theorem uncommented_cuts {a b : PyStr} (ha : Paired a) :
    uncommented none false (a ++ chr '#' :: b) = a := by
  rw [uncommented_paired ha, uncommented_hash, List.append_nil]

/-! ## Agreement -/

section Agree

variable {code comment : PyStr}

theorem uncommented_nil (quote : Option CodePoint) (escaped : Bool) : uncommented quote escaped [] = [] := rfl

theorem not_paired_of_opens (h : Opens code) : ¬Paired code := fun hp => by
  obtain ⟨q, escaped, hq, hopen⟩ := uncommented_opens h
  obtain ⟨rest, hrest⟩ := uncommented_hash_quoted hq escaped []
  have hboth := (uncommented_paired hp [chr '#']).symm.trans (hopen [chr '#'])
  rw [uncommented_hash, hrest] at hboth
  cases List.append_cancel_left hboth

/-- The scan of the text alone passes it, unless it is cut. -/
theorem uncommented_self (h : Paired code ∨ Opens code) : uncommented none false code = code := by
  rcases h with hp | ho
  · have hpass := uncommented_paired hp []
    rwa [List.append_nil, uncommented_nil, List.append_nil] at hpass
  · obtain ⟨q, escaped, -, hopen⟩ := uncommented_opens ho
    have hpass := hopen []
    rwa [List.append_nil, uncommented_nil, List.append_nil] at hpass

theorem isSpace_hash : isSpace (chr '#') = false := by decide

/-- A text and its part before a `#` do not become the same without trailing white space. -/
theorem rstrip_ne_of_hash (a b : PyStr) : rstrip a ≠ rstrip (a ++ chr '#' :: b) := by
  intro h
  have hlength := congrArg List.length h
  have hle := length_rstrip_le a
  rw [rstrip_append_cons isSpace_hash, List.length_append, List.length_cons] at hlength
  omega

/-- The comment of a line is what `_without_yaml_comment` removes, exactly when the quotes before it are in
pairs with no `#` outside; without a comment the last quote may stay open. -/
theorem withoutYamlComment_eq_iff (hcomment : comment = [] ∨ ∃ text, comment = chr '#' :: text) :
    withoutYamlComment (code ++ comment) = rstrip code ↔
      Paired code ∨ (comment = [] ∧ Opens code) := by
  unfold withoutYamlComment
  rcases paired_or code with hp | ho | ⟨a, b, rfl, ha⟩
  · refine iff_of_true ?_ (.inl hp)
    rw [uncommented_paired hp]
    rcases hcomment with rfl | ⟨text, rfl⟩
    · rw [uncommented_nil, List.append_nil]
    · rw [uncommented_hash, List.append_nil]
  · rcases hcomment with rfl | ⟨text, rfl⟩
    · rw [List.append_nil, uncommented_self (.inr ho)]
      exact iff_of_true rfl (.inr ⟨rfl, ho⟩)
    · refine iff_of_false (fun h => ?_) ?_
      · obtain ⟨q, escaped, hq, hopen⟩ := uncommented_opens ho
        obtain ⟨rest, hrest⟩ := uncommented_hash_quoted hq escaped text
        rw [hopen, hrest] at h
        exact rstrip_ne_of_hash _ _ h.symm
      · rintro (hp | ⟨hnil, -⟩)
        · exact not_paired_of_opens ho hp
        · cases hnil
  · refine iff_of_false (fun h => ?_) ?_
    · rw [List.append_assoc, List.cons_append, uncommented_cuts ha] at h
      exact rstrip_ne_of_hash _ _ h
    · intro h
      have hself := uncommented_self (h.imp_right And.right)
      rw [uncommented_cuts ha] at hself
      simp at hself

end Agree

/-! ## Lines of a mapping -/

/-- The indicators that cannot start a plain scalar. -/
def isIndicator (c : CodePoint) : Bool := (lit ",[]\x7b\x7d#&*!|>'\"%@\x60").contains c

/-- The indicators that can, in front of another character. -/
def isSoftIndicator (c : CodePoint) : Bool := c = chr '-' || c = chr '?' || c = chr ':'

/-- A character that is no white space. -/
def isInk (c : CodePoint) : Bool := !isWhite c

/-- A plain scalar on one line. -/
structure IsPlain (s : PyStr) : Prop where
  start : s.head?.any (fun c => isInk c && !isIndicator c) = true
  soft : s.head?.any isSoftIndicator = true → (s[1]?).any isInk = true
  stop : s.getLast?.any isInk = true
  /-- A colon inside does not end a key. -/
  colon : ∀ i < s.length, s[i]? = some (chr ':') → (s[i + 1]?).any isInk = true
  /-- A hash inside does not start a comment. -/
  hash : ∀ i < s.length, s[i]? = some (chr '#') → (s.take i).getLast?.any isInk = true

/-- A scalar on one line. -/
inductive Scalar where
  | plain (text : PyStr) (h : IsPlain text)
  | single (value : PyStr)
  | double (raw value : PyStr) (h : DoubleQuoted raw value)

namespace Scalar

/-- As it is written. -/
def spelling : Scalar → PyStr
  | .plain text _ => text
  | .single value => chr '\'' :: (replaceChar value (chr '\'') (lit "''") ++ [chr '\''])
  | .double raw _ _ => chr '"' :: (raw ++ [chr '"'])

/-- What YAML reads. -/
def value : Scalar → PyStr
  | .plain text _ => text
  | .single value => value
  | .double _ value _ => value

def isQuoted : Scalar → Bool
  | .plain _ _ => false
  | .single _ => true
  | .double _ _ _ => true

theorem spells (s : Scalar) : Spells s.value s.spelling := by
  cases s with
  | plain text h => exact .plain
  | single value => exact .single
  | double raw value h => exact .double h

end Scalar

/-- The indentation of an entry, and the dashes of the sequences it opens. -/
inductive IsLead : PyStr → Prop
  | indent {s : PyStr} (h : ∀ c ∈ s, c = chr ' ') : IsLead s
  | dash {s white : PyStr} (h : IsLead s) (hne : white ≠ []) (hwhite : white.all isWhite = true) :
      IsLead (s ++ chr '-' :: white)

/-- A line that consists of a mapping entry with a scalar value, and maybe a comment. -/
structure EntryLine where
  lead : PyStr
  key : Scalar
  gap : PyStr
  white : PyStr
  value : Scalar
  trailing : PyStr
  comment : PyStr
  lead_form : IsLead lead
  gap_white : gap.all isWhite = true
  white_white : white.all isWhite = true
  white_ne : white ≠ []
  trailing_white : trailing.all isWhite = true
  comment_form : comment = [] ∨ ((∃ text, comment = chr '#' :: text) ∧ trailing ≠ [])

/-- Whether an index is in a part of a line that is quoted. -/
def inQuotes : List (Bool × PyStr) → ℕ → Bool
  | [], _ => false
  | (quoted, s) :: parts, i => if i < s.length then quoted else inQuotes parts (i - s.length)

namespace EntryLine

/-- The parts of the entry; the scalars may be quoted. -/
def parts (e : EntryLine) : List (Bool × PyStr) :=
  [(false, e.lead), (e.key.isQuoted, e.key.spelling), (false, e.gap ++ chr ':' :: e.white),
    (e.value.isQuoted, e.value.spelling), (false, e.trailing)]

/-- The line without its comment. -/
def code (e : EntryLine) : PyStr := (e.parts.map Prod.snd).flatten

def text (e : EntryLine) : PyStr := e.code ++ e.comment

/-- YAML starts a comment at a `#` outside a quoted scalar, at the start of the line or behind white
space. -/
def startsComment (e : EntryLine) (i : ℕ) : Bool :=
  e.text[i]? = some (chr '#') && !inQuotes e.parts i && behind isWhite (e.text.take i)

/-- The line up to where YAML starts a comment. -/
def upToComment (e : EntryLine) : PyStr :=
  e.text.take (firstIndex e.startsComment 0 e.text.length)

end EntryLine

/-! ### The first comment -/

/-- In the part a `#` is quoted, or glued to what is before it. -/
def Inert (part : Bool × PyStr) : Prop :=
  part.1 = true ∨ ∀ i < part.2.length, part.2[i]? = some (chr '#') →
    (part.2.take i).getLast?.any isInk = true

theorem not_behind_of_ink {before s : PyStr} (h : s.getLast?.any isInk = true) :
    behind isWhite (before ++ s) = false := by
  unfold behind
  rw [List.getLast?_append]
  cases hs : s.getLast? with
  | none =>
    rw [hs] at h
    cases h
  | some c =>
    rw [hs, Option.any_some] at h
    unfold isInk at h
    rw [Option.some_or, Option.all_some]
    exact Bool.not_eq_true' _ |>.mp h

theorem inert_of_notMem {s : PyStr} (h : chr '#' ∉ s) : Inert (false, s) :=
  .inr fun _ _ hi => absurd (List.mem_of_getElem? hi) h

theorem inert_of_white {s : PyStr} (h : s.all isWhite = true) : Inert (false, s) :=
  inert_of_notMem fun hmem => absurd (List.all_eq_true.mp h _ hmem) (by decide)

theorem Scalar.inert (s : Scalar) : Inert (s.isQuoted, s.spelling) := by
  cases s with
  | plain text h => exact .inr h.hash
  | single value => exact .inl rfl
  | double raw value h => exact .inl rfl

theorem IsLead.notMem {s : PyStr} (h : IsLead s) : chr '#' ∉ s := by
  induction h with
  | indent h => exact fun hmem => absurd (h _ hmem) (by decide)
  | dash _ _ hwhite ih =>
    intro hmem
    rcases List.mem_append.mp hmem with hmem | hmem
    · exact ih hmem
    · rcases List.mem_cons.mp hmem with hdash | hmem
      · exact absurd hdash (by decide)
      · exact absurd (List.all_eq_true.mp hwhite _ hmem) (by decide)

/-- In such parts YAML starts no comment. -/
theorem not_comment_of_inert {parts : List (Bool × PyStr)} (h : ∀ part ∈ parts, Inert part)
    (before : PyStr) {i : ℕ} (hhash : (parts.map Prod.snd).flatten[i]? = some (chr '#')) :
    inQuotes parts i = true ∨
      behind isWhite (before ++ (parts.map Prod.snd).flatten.take i) = false := by
  induction parts generalizing before i with
  | nil => cases hhash
  | cons part parts ih =>
    obtain ⟨quoted, s⟩ := part
    rw [List.map_cons, List.flatten_cons] at hhash ⊢
    rw [inQuotes]
    by_cases hi : i < s.length
    · rw [if_pos hi, List.take_append_of_le_length hi.le]
      rw [List.getElem?_append_left hi] at hhash
      rcases h _ List.mem_cons_self with hquoted | hglued
      · exact .inl hquoted
      · exact .inr (not_behind_of_ink (hglued i hi hhash))
    · rw [if_neg hi, List.take_append, List.take_of_length_le (Nat.le_of_not_lt hi), ← List.append_assoc]
      rw [List.getElem?_append_right (Nat.le_of_not_lt hi)] at hhash
      exact ih (fun part hpart => h part (List.mem_cons_of_mem _ hpart)) _ hhash

theorem inQuotes_of_le (parts : List (Bool × PyStr)) {i : ℕ}
    (hi : (parts.map Prod.snd).flatten.length ≤ i) : inQuotes parts i = false := by
  induction parts generalizing i with
  | nil => rfl
  | cons part parts ih =>
    rw [List.map_cons, List.flatten_cons, List.length_append] at hi
    rw [inQuotes, if_neg (by omega)]
    exact ih (by omega)

namespace EntryLine

theorem inert (e : EntryLine) : ∀ part ∈ e.parts, Inert part := by
  have hcolon : chr '#' ∉ e.gap ++ chr ':' :: e.white := by
    intro hmem
    rcases List.mem_append.mp hmem with hmem | hmem
    · exact absurd (List.all_eq_true.mp e.gap_white _ hmem) (by decide)
    · rcases List.mem_cons.mp hmem with hcolon | hmem
      · exact absurd hcolon (by decide)
      · exact absurd (List.all_eq_true.mp e.white_white _ hmem) (by decide)
  unfold parts
  simp only [List.forall_mem_cons]
  exact ⟨inert_of_notMem e.lead_form.notMem, e.key.inert, inert_of_notMem hcolon, e.value.inert,
    inert_of_white e.trailing_white, List.forall_mem_nil _⟩

/-- YAML starts no comment in the entry itself. -/
theorem startsComment_of_lt (e : EntryLine) {i : ℕ} (hi : i < e.code.length) :
    e.startsComment i = false := by
  unfold startsComment text
  rw [List.getElem?_append_left hi, List.take_append_of_le_length hi.le]
  by_cases hhash : e.code[i]? = some (chr '#')
  · rcases not_comment_of_inert e.inert [] hhash with hquoted | hglued
    · rw [hquoted]
      simp
    · rw [List.nil_append] at hglued
      rw [show behind isWhite (e.code.take i) = false from hglued, Bool.and_false]
  · rw [decide_eq_false hhash]
    rfl

theorem behind_code (e : EntryLine) (hne : e.trailing ≠ []) : behind isWhite e.code = true := by
  have hcode : ∃ front, e.code = front ++ e.trailing :=
    ⟨e.lead ++ (e.key.spelling ++ ((e.gap ++ chr ':' :: e.white) ++ e.value.spelling)),
      by simp [code, parts]⟩
  obtain ⟨front, hcode⟩ := hcode
  unfold behind
  rw [hcode, List.getLast?_append_of_ne_nil _ hne, List.getLast?_eq_some_getLast hne, Option.all_some]
  exact List.all_eq_true.mp e.trailing_white _ (List.getLast_mem hne)

/-- The comment of an entry is where YAML starts it. -/
theorem upToComment_eq (e : EntryLine) : e.upToComment = e.code := by
  have hbefore : ∀ j < e.code.length, j < firstIndex e.startsComment 0 e.text.length := fun j hj =>
    lt_firstIndex_iff.mpr ⟨by rw [text, List.length_append]; omega,
      fun k _ hk => e.startsComment_of_lt (by omega)⟩
  have hle : e.code.length ≤ firstIndex e.startsComment 0 e.text.length := by
    by_contra hlt
    have hself := hbefore _ (Nat.lt_of_not_le hlt)
    omega
  have hstop : firstIndex e.startsComment 0 e.text.length ≤ e.code.length := by
    by_contra hlt
    obtain ⟨hin, hno⟩ := lt_firstIndex_iff.mp (Nat.lt_of_not_le hlt)
    have hfalse := hno e.code.length (Nat.zero_le _) le_rfl
    rcases e.comment_form with hnone | ⟨⟨comment, hsome⟩, htrailing⟩
    · rw [text, hnone, List.append_nil] at hin
      omega
    · have hhash : e.text[e.code.length]? = some (chr '#') := by
        rw [text, hsome, List.getElem?_append_right le_rfl, Nat.sub_self]
        rfl
      have htake : e.text.take e.code.length = e.code := List.take_left
      have hquotes : inQuotes e.parts e.code.length = false := inQuotes_of_le e.parts le_rfl
      rw [startsComment, htake, e.behind_code htrailing, hquotes, hhash] at hfalse
      simp at hfalse
  rw [upToComment, Nat.le_antisymm hstop hle]
  exact List.take_left

end EntryLine

/-! ### The value -/

/-- The value that the validator checks on the line is what YAML reads. -/
def ChecksValue (e : EntryLine) : Prop :=
  ∀ uses, usesRe (withoutYamlComment e.text) = some uses → uses.value = e.value.value

/-- A plain scalar without the white space of Python. -/
def IsBareWord (s : Scalar) : Prop :=
  ∃ text h, s = .plain text h ∧ ∀ c ∈ text, isSpace c = false

theorem isSpace_of_isWhite {c : CodePoint} (h : isWhite c = true) : isSpace c = true := by
  unfold isWhite at h
  rw [Bool.or_eq_true, decide_eq_true_eq, decide_eq_true_eq] at h
  rcases h with rfl | rfl <;> decide

theorem all_isSpace_of_white {s : PyStr} (h : s.all isWhite = true) : s.all isSpace = true :=
  List.all_eq_true.mpr fun c hc => isSpace_of_isWhite (List.all_eq_true.mp h c hc)

theorem notMem_of_isSpace {s : PyStr} (h : s.all isSpace = true) {c : CodePoint}
    (hc : isSpace c = false) : c ∉ s := fun hmem => by
  rw [List.all_eq_true.mp h c hmem] at hc
  cases hc

/-- The text in front of the key of a `uses` line has no colon. -/
theorem dashGroup_front {s rest : PyStr} {dash : Option PyStr} (h : dashGroup s = (dash, rest)) :
    ∃ front, s = front ++ rest ∧ chr ':' ∉ front := by
  cases s with
  | nil =>
    obtain ⟨-, rfl⟩ := Prod.mk.inj h
    exact ⟨[], rfl, List.not_mem_nil⟩
  | cons c s =>
    rw [dashGroup] at h
    by_cases hdash : c = chr '-' ∧ s.takeWhile isSpace ≠ []
    · rw [if_pos hdash] at h
      obtain ⟨-, rfl⟩ := Prod.mk.inj h
      refine ⟨c :: s.takeWhile isSpace, by simp, ?_⟩
      rw [hdash.1, List.mem_cons, not_or]
      exact ⟨by decide, notMem_of_isSpace List.all_takeWhile (by decide)⟩
    · rw [if_neg hdash] at h
      obtain ⟨-, rfl⟩ := Prod.mk.inj h
      exact ⟨[], rfl, List.not_mem_nil⟩

/-- What `_USES_RE` matches: nothing with a colon, the key, white space, the value, white space. -/
theorem usesRe_shape {code : PyStr} {uses : UsesMatch} (h : usesRe code = some uses) :
    ∃ front white trailing, code = front ++ chr ':' :: (white ++ (uses.value ++ trailing)) ∧
      chr ':' ∉ front ∧ white.all isSpace = true ∧ trailing.all isSpace = true ∧ uses.value ≠ [] ∧
        uses.value.all isValueChar = true := by
  unfold usesRe at h
  cases hg : dashGroup (code.dropWhile isSpace) with
  | mk dash rest =>
    rw [hg] at h
    dsimp only at h
    cases ha : (lit "uses:").isPrefixOf? rest with
    | none => rw [ha] at h; cases h
    | some after =>
      rw [ha] at h
      dsimp only at h
      split at h
      · next hmatch =>
        obtain rfl := Option.some.inj h
        obtain ⟨front, hfront, hcolon⟩ := dashGroup_front hg
        have hrest := List.isPrefixOf?_eq_some_iff_append_eq.mp ha
        refine ⟨code.takeWhile isSpace ++ (front ++ lit "uses"), after.takeWhile isSpace,
          (after.dropWhile isSpace).dropWhile isValueChar, ?_, ?_, List.all_takeWhile, hmatch.2.2,
          hmatch.2.1, List.all_takeWhile⟩
        · dsimp only
          rw [List.takeWhile_append_dropWhile, List.takeWhile_append_dropWhile]
          conv_lhs => rw [← List.takeWhile_append_dropWhile (p := isSpace) (l := code), hfront, ← hrest]
          simp [lit]
        · simp only [List.mem_append, not_or]
          exact ⟨notMem_of_isSpace List.all_takeWhile (by decide), hcolon, by decide⟩
      · cases h

/-- Where white space follows a word, only white space is left. -/
theorem all_isSpace_of_split {white word trailing a b : PyStr} {c d : CodePoint}
    (hwhite : white.all isSpace = true) (hword : ∀ x ∈ word, isSpace x = false)
    (htrailing : trailing.all isSpace = true) (hc : isSpace c = false) (hd : isSpace d = true)
    (h : white ++ (word ++ trailing) = a ++ c :: d :: b) : b.all isSpace = true := by
  induction white generalizing a with
  | cons x white ih =>
    rw [List.all_cons, Bool.and_eq_true] at hwhite
    cases a with
    | nil =>
      obtain ⟨rfl, -⟩ := List.cons.inj h
      rw [hwhite.1] at hc
      cases hc
    | cons y a => exact ih hwhite.2 (List.cons.inj h).2
  | nil =>
    rw [List.nil_append] at h
    induction word generalizing a with
    | nil =>
      refine absurd ?_ (notMem_of_isSpace htrailing hc)
      rw [List.nil_append] at h
      rw [h]
      exact List.mem_append_right _ List.mem_cons_self
    | cons x word ih =>
      rw [List.forall_mem_cons] at hword
      cases a with
      | nil =>
        obtain ⟨-, h⟩ := List.cons.inj h
        cases word with
        | nil =>
          replace h : trailing = d :: b := h
          rw [h, List.all_cons, Bool.and_eq_true] at htrailing
          exact htrailing.2
        | cons y word =>
          obtain ⟨rfl, -⟩ := List.cons.inj h
          rw [hword.2 _ List.mem_cons_self] at hd
          cases hd
      | cons y a => exact ih hword.2 (List.cons.inj h).2

theorem isSpace_of_isValueChar {c : CodePoint} (h : isValueChar c = true) : isSpace c = false := by
  unfold isValueChar at h
  exact (Bool.not_eq_true' _).mp (Bool.and_eq_true_iff.mp h).1

theorem ne_nil_of_head? {p : CodePoint → Bool} {s : PyStr} (h : s.head?.any p = true) : s ≠ [] := by
  rintro rfl
  cases h

/-- A text with ink at both its ends is what white space leaves of a line. -/
theorem ink_eq {white s trailing white' s' trailing' : PyStr} (hwhite : white.all isSpace = true)
    (htrailing : trailing.all isSpace = true) (hwhite' : white'.all isSpace = true)
    (htrailing' : trailing'.all isSpace = true)
    (hstart : s.head?.any (fun c => !isSpace c) = true)
    (hstop : s.getLast?.any (fun c => !isSpace c) = true)
    (hstart' : s'.head?.any (fun c => !isSpace c) = true)
    (hstop' : s'.getLast?.any (fun c => !isSpace c) = true)
    (h : white ++ (s ++ trailing) = white' ++ (s' ++ trailing')) : s = s' := by
  have hink : ∀ {s : PyStr} (rest : PyStr), s.head?.any (fun c => !isSpace c) = true →
      (s ++ rest).head?.any (fun c => !isSpace c) = true := by
    intro s rest h
    rwa [List.head?_append_of_ne_nil _ (ne_nil_of_head? h)]
  have hdrop := congrArg (List.dropWhile isSpace) h
  rw [dropWhile_spaces hwhite (hink _ hstart), dropWhile_spaces hwhite' (hink _ hstart')] at hdrop
  have hstrip := congrArg rstrip hdrop
  rwa [rstrip_append_spaces htrailing, rstrip_append_spaces htrailing', rstrip_of_getLast? hstop,
    rstrip_of_getLast? hstop'] at hstrip

/-- The validator finds on the entry the value as it is written, unless this has white space at its
ends. -/
theorem usesRe_value (e : EntryLine) {uses : UsesMatch} (h : usesRe (rstrip e.code) = some uses)
    (hstart : e.value.spelling.head?.any (fun c => !isSpace c) = true)
    (hstop : e.value.spelling.getLast?.any (fun c => !isSpace c) = true) :
    uses.value = e.value.spelling := by
  obtain ⟨front, white, trailing, hshape, hcolon, hwhite, htrailing, hne, hvalue⟩ := usesRe_shape h
  obtain ⟨t, ht, htspace⟩ := exists_rstrip e.code
  have hword : ∀ x ∈ uses.value, isSpace x = false := fun x hx =>
    isSpace_of_isValueChar (List.all_eq_true.mp hvalue x hx)
  have hrest : (trailing ++ t).all isSpace = true := by
    rw [List.all_append, htrailing, htspace]
    rfl
  have hcode : e.code = (e.lead ++ (e.key.spelling ++ e.gap)) ++ chr ':' ::
      (e.white ++ (e.value.spelling ++ e.trailing)) := by
    simp [EntryLine.code, EntryLine.parts]
  have hboth : front ++ chr ':' :: (white ++ (uses.value ++ (trailing ++ t))) =
      (e.lead ++ (e.key.spelling ++ e.gap)) ++ chr ':' ::
        (e.white ++ (e.value.spelling ++ e.trailing)) := by
    rw [← hcode]
    conv_rhs => rw [ht, hshape]
    simp
  -- where the colon of the entry is the one that `_USES_RE` finds, both values are what is left of the line
  have hsame : white ++ (uses.value ++ (trailing ++ t)) =
      e.white ++ (e.value.spelling ++ e.trailing) → uses.value = e.value.spelling := by
    have hfirst : uses.value.head?.any (fun c => !isSpace c) = true := by
      rw [List.head?_eq_some_head hne, Option.any_some, hword _ (List.head_mem hne)]
      rfl
    have hlast : uses.value.getLast?.any (fun c => !isSpace c) = true := by
      rw [List.getLast?_eq_some_getLast hne, Option.any_some, hword _ (List.getLast_mem hne)]
      rfl
    exact ink_eq hwhite hrest (all_isSpace_of_white e.white_white)
      (all_isSpace_of_white e.trailing_white) hfirst hlast hstart hstop
  rcases List.append_eq_append_iff.mp hboth with ⟨z, hfront, hz⟩ | ⟨z, hfront, hz⟩
  · cases z with
    | nil => exact hsame (List.cons.inj hz).2
    | cons c z =>
      -- its colon would end the value that `_USES_RE` finds, and only white space could follow
      obtain ⟨-, hz⟩ := List.cons.inj hz
      obtain ⟨d, rest, hd⟩ := List.exists_cons_of_ne_nil e.white_ne
      have hdwhite : isSpace d = true :=
        isSpace_of_isWhite (List.all_eq_true.mp e.white_white d (by rw [hd]; exact List.mem_cons_self))
      rw [hd, List.cons_append] at hz
      have hspaces := all_isSpace_of_split hwhite hword hrest (by decide) hdwhite hz
      obtain ⟨x, spelling, hx⟩ := List.exists_cons_of_ne_nil (ne_nil_of_head? hstart)
      rw [hx, List.head?_cons, Option.any_some] at hstart
      rw [List.all_eq_true.mp hspaces x (by rw [hx]; simp)] at hstart
      cases hstart
  · cases z with
    | nil => exact hsame (List.cons.inj hz).2.symm
    | cons c z =>
      obtain ⟨rfl, -⟩ := List.cons.inj hz
      refine absurd ?_ hcolon
      rw [hfront]
      exact List.mem_append_right _ List.mem_cons_self

theorem length_le_replaceChar (s : PyStr) {c : CodePoint} {new : PyStr} (hnew : new ≠ []) :
    s.length ≤ (replaceChar s c new).length := by
  unfold replaceChar
  induction s with
  | nil => exact Nat.zero_le _
  | cons d s ih =>
    have hpos : 1 ≤ (if d = c then new else [d]).length := by
      split_ifs
      · exact List.length_pos_iff.mpr hnew
      · exact le_rfl
    rw [List.flatMap_cons, List.length_append, List.length_cons]
    omega

theorem DoubleQuoted.length_le {raw value : PyStr} (h : DoubleQuoted raw value) :
    value.length ≤ raw.length := by
  induction h with
  | nil => exact le_rfl
  | char _ _ _ ih => exact Nat.succ_le_succ ih
  | named _ _ ih => simp only [List.length_cons]; omega
  | hex _ _ _ _ ih => simp only [List.length_cons, List.length_append]; omega

/-- A quoted scalar is longer than what it means. -/
theorem Scalar.spelling_ne_value {s : Scalar} (h : s.isQuoted = true) : s.spelling ≠ s.value := by
  intro heq
  have hlength := congrArg List.length heq
  cases s with
  | plain text h' => cases h
  | single value =>
    have hle := @length_le_replaceChar value (chr '\'') (lit "''") (by decide)
    simp only [Scalar.spelling, Scalar.value, List.length_cons, List.length_append] at hlength
    omega
  | double raw value hraw =>
    have hle := hraw.length_le
    simp only [Scalar.spelling, Scalar.value, List.length_cons, List.length_append] at hlength
    omega

/-- A quoted scalar starts and ends with its quote. -/
theorem Scalar.quoted_ends {s : Scalar} (h : s.isQuoted = true) :
    s.spelling.head?.any (fun c => !isSpace c) = true ∧
      s.spelling.getLast?.any (fun c => !isSpace c) = true := by
  cases s with
  | plain text h' => cases h
  | single value =>
    refine ⟨rfl, ?_⟩
    rw [Scalar.spelling, ← List.cons_append, List.getLast?_concat]
    rfl
  | double raw value h' =>
    refine ⟨rfl, ?_⟩
    rw [Scalar.spelling, ← List.cons_append, List.getLast?_concat]
    rfl

theorem IsPlain.ne_nil {s : PyStr} (h : IsPlain s) : s ≠ [] := by
  rintro rfl
  cases h.start

/-- **The scan agrees with YAML** on a line of a mapping, and the validator checks the value that YAML
reads, exactly when the quotes before the comment are in pairs with no `#` outside, where the last quote
may stay open if there is no comment, and a value that the validator finds is a bare word. -/
theorem comment_iff (e : EntryLine) :
    (withoutYamlComment e.text = rstrip e.upToComment ∧ ChecksValue e) ↔
      (Paired e.code ∨ (e.comment = [] ∧ Opens e.code)) ∧
        ((usesRe (rstrip e.code)).isSome = true → IsBareWord e.value) := by
  have hagree : withoutYamlComment e.text = rstrip e.code ↔ _ :=
    withoutYamlComment_eq_iff (e.comment_form.imp_right And.left)
  rw [e.upToComment_eq, ← hagree]
  refine and_congr_right fun hcode => ?_
  unfold ChecksValue
  rw [hcode]
  constructor
  · intro h hfound
    obtain ⟨uses, huses⟩ := Option.isSome_iff_exists.mp hfound
    have hvalue := h uses huses
    obtain ⟨-, -, -, -, -, -, -, -, hchars⟩ := usesRe_shape huses
    have hplain : e.value.isQuoted = false := by
      rw [← Bool.not_eq_true]
      intro hquoted
      obtain ⟨hstart, hstop⟩ := Scalar.quoted_ends hquoted
      exact Scalar.spelling_ne_value hquoted ((usesRe_value e huses hstart hstop).symm.trans hvalue)
    rw [hvalue] at hchars
    cases hform : e.value with
    | plain text htext =>
      rw [hform] at hchars
      exact ⟨text, htext, rfl, fun c hc => isSpace_of_isValueChar (List.all_eq_true.mp hchars c hc)⟩
    | single value =>
      rw [hform] at hplain
      cases hplain
    | double raw value hraw =>
      rw [hform] at hplain
      cases hplain
  · intro h uses huses
    obtain ⟨text, htext, hform, hchars⟩ := h (Option.isSome_iff_exists.mpr ⟨uses, huses⟩)
    have hne := htext.ne_nil
    have hvalue := usesRe_value e huses
    rw [hform] at hvalue ⊢
    refine hvalue ?_ ?_
    · show text.head?.any _ = true
      rw [List.head?_eq_some_head hne, Option.any_some, hchars _ (List.head_mem hne)]
      rfl
    · show text.getLast?.any _ = true
      rw [List.getLast?_eq_some_getLast hne, Option.any_some, hchars _ (List.getLast_mem hne)]
      rfl

/-- A `uses` entry whose reference goes on behind a `#`. -/
def gluedEntry : EntryLine where
  lead := lit "      - "
  key := .plain (lit "uses") ⟨by decide, by decide, by decide, by decide, by decide⟩
  gap := []
  white := lit " "
  value := .plain (lit "a/b@" ++ List.replicate 40 (chr '0') ++ lit "#main")
    ⟨by decide +kernel, by decide +kernel, by decide +kernel, by decide +kernel, by decide +kernel⟩
  trailing := []
  comment := []
  lead_form :=
    have hspaces : ((lit "      ").all fun c => c = chr ' ') = true := by decide
    .dash (.indent fun c hc => of_decide_eq_true (List.all_eq_true.mp hspaces c hc))
      (List.cons_ne_nil (chr ' ') []) (by decide)
  gap_white := rfl
  white_white := by decide
  white_ne := by decide
  trailing_white := rfl
  comment_form := .inl rfl

/-- The validator reads it without the end, and finds the action pinned. -/
theorem gluedEntry_cut : ¬∀ e : EntryLine,
    withoutYamlComment e.text = rstrip e.upToComment ∧ ChecksValue e := by
  have hread : (usesRe (withoutYamlComment gluedEntry.text)).map UsesMatch.value =
      some (lit "a/b@" ++ List.replicate 40 (chr '0')) := by decide +kernel
  intro h
  obtain ⟨uses, huses, hvalue⟩ := Option.map_eq_some_iff.mp hread
  have hyaml := (h gluedEntry).2 uses huses
  rw [hvalue] at hyaml
  exact absurd hyaml (by decide +kernel)

end Sentinel.Workflow