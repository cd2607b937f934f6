import SentinelCore.WorkflowSteps
import SentinelCore.Py.JsonDecoder

/-!
# The spellings of a key

YAML has many ways to write the key `uses`, and the validator looks for the bare word and for the word
between two quotes. `uses_seen_iff` says when an accepted text keeps nothing from it.

What a YAML processor reads in a text is not part of the module: the theorem holds for any list of keys
that stand where the syntax of YAML allows a mapping key on one line (`Key`). A key is `Open` if it is
written without escapes, does not follow a `[` or a byte order mark, and has its colon on the line,
before the place where `_without_yaml_comment` cuts it. `Key.showsAt_iff` says that these are the keys
that `_USES_KEY_RE` finds at their place.
-/

namespace Sentinel.Workflow

open Py

/-! ## Keys in YAML -/

/-- The escapes of a double-quoted scalar that stand for one character. -/
def namedEscapes : List (CodePoint × CodePoint) :=
  [(chr '0', 0), (chr 'a', 7), (chr 'b', 8), (chr 't', 9), (9, 9), (chr 'n', 10), (chr 'v', 11),
    (chr 'f', 12), (chr 'r', 13), (chr 'e', 27), (chr ' ', chr ' '), (chr '"', chr '"'),
    (chr '/', chr '/'), (chr '\\', chr '\\'), (chr 'N', 0x85), (chr '_', 0xA0), (chr 'L', 0x2028),
    (chr 'P', 0x2029)]

/-- The escapes with hexadecimal digits, and how many they have. -/
def hexEscapes : List (CodePoint × ℕ) := [(chr 'x', 2), (chr 'u', 4), (chr 'U', 8)]

def hexNumber (digits : PyStr) : ℕ := digits.foldl (fun n c => n * 16 + (hexValue c).getD 0) 0

/-- What stands between double quotes on one line, and what it means. -/
inductive DoubleQuoted : PyStr → PyStr → Prop
  | nil : DoubleQuoted [] []
  | char {c : CodePoint} {raw value : PyStr} (hquote : c ≠ chr '"') (hescape : c ≠ chr '\\')
      (h : DoubleQuoted raw value) : DoubleQuoted (c :: raw) (c :: value)
  | named {e c : CodePoint} {raw value : PyStr} (hnamed : (e, c) ∈ namedEscapes)
      (h : DoubleQuoted raw value) : DoubleQuoted (chr '\\' :: e :: raw) (c :: value)
  | hex {e c : CodePoint} {digits raw value : PyStr} (hhex : (e, digits.length) ∈ hexEscapes)
      (hdigits : digits.all isHexDigit = true) (hvalue : hexNumber digits = c.val)
      (h : DoubleQuoted raw value) : DoubleQuoted (chr '\\' :: e :: (digits ++ raw)) (c :: value)

/-- The ways to write a scalar on one line. -/
inductive Spells (value : PyStr) : PyStr → Prop
  | plain : Spells value value
  | single : Spells value (chr '\'' :: (replaceChar value (chr '\'') (lit "''") ++ [chr '\'']))
  | double {raw : PyStr} (h : DoubleQuoted raw value) : Spells value (chr '"' :: (raw ++ [chr '"']))

/-- At the start of a line, or behind a character of a class. -/
def behind (p : CodePoint → Bool) (before : PyStr) : Bool := before.getLast?.all p

/-- The white space of YAML. -/
def isWhite (c : CodePoint) : Bool := c = chr ' ' || c = chr '\t'

/-- White space, or the byte order mark that a text can begin with. -/
def isMargin (c : CodePoint) : Bool := isWhite c || c = 0xFEFF

/-- What a key in a flow collection can follow. -/
def isFlowMargin (c : CodePoint) : Bool := isMargin c || c = 0x7B || c = chr '[' || c = chr ','

/-- Where a mapping key can stand on a line: what is before it and what is after it. A tag or an anchor
of the key is separated from it by white space. -/
inductive Stands (before after : PyStr) : Prop
  /-- `key: value`, behind the indentation or an indicator. -/
  | block (hbefore : behind isMargin before = true) (white rest : PyStr)
      (hafter : after = white ++ chr ':' :: rest) (hwhite : white.all isWhite = true)
      (hrest : rest.head?.all isWhite = true)
  /-- In a flow mapping, or as the one pair of an entry of a flow sequence. The value can be left out or
  begin on another line. -/
  | flow (hbefore : behind isFlowMargin before = true)
  /-- `? key`. The value, if there is one, begins on another line. -/
  | explicit (hbefore : behind isMargin before = true)

/-- A mapping key that a YAML processor reads on a line. -/
structure Key (lines : List PyStr) where
  line : ℕ
  before : PyStr
  spelling : PyStr
  after : PyStr
  value : PyStr
  on_line : lines[line]? = some (before ++ spelling ++ after)
  spells : Spells value spelling
  stands : Stands before after

theorem behind_mono {p q : CodePoint → Bool} (hpq : ∀ c, p c = true → q c = true) {before : PyStr}
    (h : behind p before = true) : behind q before = true := by
  unfold behind at h ⊢
  cases hlast : before.getLast? with
  | none => rfl
  | some c =>
    rw [hlast] at h
    exact hpq c h

theorem Stands.behind_flowMargin {before after : PyStr} (h : Stands before after) :
    behind isFlowMargin before = true := by
  have hmargin : ∀ c, isMargin c = true → isFlowMargin c = true := by
    intro c hc
    unfold isFlowMargin
    rw [hc]
    rfl
  cases h with
  | block hbefore _ _ _ _ _ => exact behind_mono hmargin hbefore
  | flow hbefore => exact hbefore
  | explicit hbefore => exact behind_mono hmargin hbefore

/-- Text between double quotes that begins as its meaning does has no escapes. -/
theorem DoubleQuoted.eq_of_append {raw value s t : PyStr} (h : DoubleQuoted raw value)
    (hvalue : chr '\\' ∉ value) (heq : raw ++ s = value ++ t) : raw = value := by
  induction h with
  | nil => rfl
  | char _ _ _ ih =>
    rw [List.mem_cons, not_or] at hvalue
    rw [ih hvalue.2 (List.cons.inj heq).2]
  | named _ _ _ =>
    obtain ⟨rfl, -⟩ := List.cons.inj heq
    exact absurd List.mem_cons_self hvalue
  | hex _ _ _ _ _ =>
    obtain ⟨rfl, -⟩ := List.cons.inj heq
    exact absurd List.mem_cons_self hvalue

/-- Text between double quotes without a backslash means itself. -/
theorem DoubleQuoted.eq_of_notMem {raw value : PyStr} (h : DoubleQuoted raw value)
    (hraw : chr '\\' ∉ raw) : raw = value := by
  induction h with
  | nil => rfl
  | char _ _ _ ih =>
    rw [List.mem_cons, not_or] at hraw
    rw [ih hraw.2]
  | named _ _ _ => exact absurd List.mem_cons_self hraw
  | hex _ _ _ _ _ => exact absurd List.mem_cons_self hraw

/-! ## What the search finds -/

/-- `(?:['\"]key['\"]|key)`. -/
def IsWord (key word : PyStr) : Prop :=
  word = key ∨ ∃ q q', isQuote q = true ∧ isQuote q' = true ∧ word = q :: (key ++ [q'])

/-- The expression `(?:^|[\s{,])(?:['\"]key['\"]|key)\s*:` has a match with the word behind `before`. -/
def ShowsAt (key code before : PyStr) : Prop :=
  ∃ word rest, code = before ++ word ++ rest ∧ behind isSeparator before = true ∧ IsWord key word ∧
    colonNext rest = true

section Search

variable {key code s : PyStr}

theorem any_isPrefixOf {p : PyStr → Bool} :
    (key.isPrefixOf? s).any p = true ↔ ∃ rest, s = key ++ rest ∧ p rest = true := by
  cases hcut : key.isPrefixOf? s with
  | none =>
    refine iff_of_false Bool.false_ne_true ?_
    rintro ⟨rest, rfl, -⟩
    rw [List.isPrefixOf?_eq_some_iff_append_eq.mpr rfl] at hcut
    cases hcut
  | some rest =>
    have heq := List.isPrefixOf?_eq_some_iff_append_eq.mp hcut
    refine ⟨fun h => ⟨rest, heq.symm, h⟩, ?_⟩
    rintro ⟨rest', hrest', h⟩
    rw [List.append_cancel_left (heq.trans hrest')]
    exact h

theorem keyHere_iff : keyHere key s = true ↔
    ∃ word rest, s = word ++ rest ∧ IsWord key word ∧ colonNext rest = true := by
  unfold keyHere
  rw [Bool.or_eq_true, any_isPrefixOf]
  constructor
  · rintro (⟨rest, rfl, hcolon⟩ | hquoted)
    · exact ⟨key, rest, rfl, .inl rfl, hcolon⟩
    · cases s with
      | nil => cases hquoted
      | cons q s =>
        dsimp only at hquoted
        rw [Bool.and_eq_true, any_isPrefixOf] at hquoted
        obtain ⟨hq, rest, rfl, hrest⟩ := hquoted
        cases rest with
        | nil => cases hrest
        | cons q' rest =>
          dsimp only at hrest
          rw [Bool.and_eq_true] at hrest
          exact ⟨q :: (key ++ [q']), rest, by simp, .inr ⟨q, q', hq, hrest.1, rfl⟩, hrest.2⟩
  · rintro ⟨word, rest, rfl, rfl | ⟨q, q', hq, hq', rfl⟩, hcolon⟩
    · exact .inl ⟨rest, rfl, hcolon⟩
    · right
      show (isQuote q && ((key.isPrefixOf? (key ++ [q'] ++ rest)).any _)) = true
      rw [hq, Bool.true_and, any_isPrefixOf]
      refine ⟨q' :: rest, by simp, ?_⟩
      show (isQuote q' && colonNext rest) = true
      rw [hq', hcolon]
      rfl

theorem keyAfterSeparator_iff : keyAfterSeparator key s = true ↔
    ∃ front c rest, s = front ++ c :: rest ∧ isSeparator c = true ∧ keyHere key rest = true := by
  induction s with
  | nil =>
    refine iff_of_false Bool.false_ne_true ?_
    rintro ⟨front, c, rest, heq, -⟩
    cases front <;> cases heq
  | cons d s ih =>
    unfold keyAfterSeparator
    rw [Bool.or_eq_true, Bool.and_eq_true, ih]
    constructor
    · rintro (⟨hd, hkey⟩ | ⟨front, c, rest, rfl, hc, hkey⟩)
      · exact ⟨[], d, s, rfl, hd, hkey⟩
      · exact ⟨d :: front, c, rest, rfl, hc, hkey⟩
    · rintro ⟨front, c, rest, heq, hc, hkey⟩
      cases front with
      | nil =>
        obtain ⟨rfl, rfl⟩ := List.cons.inj heq
        exact .inl ⟨hc, hkey⟩
      | cons d' front =>
        obtain ⟨rfl, rfl⟩ := List.cons.inj heq
        exact .inr ⟨front, c, rest, rfl, hc, hkey⟩

/-- The search succeeds if it shows the key somewhere. -/
theorem keySearch_iff : keySearch key code = true ↔ ∃ before, ShowsAt key code before := by
  unfold keySearch
  rw [Bool.or_eq_true, keyHere_iff, keyAfterSeparator_iff]
  constructor
  · rintro (⟨word, rest, rfl, hword, hcolon⟩ | ⟨front, c, s, rfl, hc, hkey⟩)
    · exact ⟨[], word, rest, rfl, rfl, hword, hcolon⟩
    · obtain ⟨word, rest, rfl, hword, hcolon⟩ := keyHere_iff.mp hkey
      refine ⟨front ++ [c], word, rest, by simp, ?_, hword, hcolon⟩
      unfold behind
      rw [List.getLast?_concat]
      exact hc
  · rintro ⟨before, word, rest, rfl, hbefore, hword, hcolon⟩
    rcases List.eq_nil_or_concat before with rfl | ⟨front, c, rfl⟩
    · exact .inl ⟨word, rest, rfl, hword, hcolon⟩
    · right
      rw [List.concat_eq_append] at hbefore ⊢
      unfold behind at hbefore
      rw [List.getLast?_concat] at hbefore
      exact ⟨front, c, word ++ rest, by simp, hbefore,
        keyHere_iff.mpr ⟨word, rest, rfl, hword, hcolon⟩⟩

end Search

/-! ## What the validator reads of a line -/

theorem uncommented_isPrefix (quote : Option CodePoint) (escaped : Bool) (line : PyStr) :
    uncommented quote escaped line <+: line := by
  induction line generalizing quote escaped with
  | nil => exact List.prefix_rfl
  | cons c line ih =>
    have hcons : ∀ quote escaped, c :: uncommented quote escaped line <+: c :: line :=
      fun quote escaped => (List.prefix_cons_inj c).mpr (ih quote escaped)
    unfold uncommented
    split_ifs
    · exact hcons _ _
    · exact hcons _ _
    · exact hcons _ _
    · exact hcons _ _
    · exact List.nil_prefix
    · exact hcons _ _

theorem withoutYamlComment_isPrefix (line : PyStr) : withoutYamlComment line <+: line :=
  (List.rdropWhile_prefix _ _).trans (uncommented_isPrefix none false line)

theorem behind_takeWhile (code : PyStr) : behind isSpace (code.takeWhile isSpace) = true := by
  unfold behind
  cases hl : (code.takeWhile isSpace).getLast? with
  | none => rfl
  | some c =>
    have hmem : c ∈ code.takeWhile isSpace := List.mem_of_getLast? hl
    show isSpace c = true
    exact List.mem_takeWhile_imp hmem

theorem behind_append {p : CodePoint → Bool} {s t : PyStr} (hs : behind p s = true)
    (ht : behind p t = true) : behind p (s ++ t) = true := by
  unfold behind at hs ht ⊢
  rw [List.getLast?_append]
  cases hl : t.getLast? with
  | none => exact hs
  | some c =>
    rw [hl] at ht
    exact ht

theorem dashGroup_split {s rest : PyStr} {dash : Option PyStr} (h : dashGroup s = (dash, rest)) :
    ∃ front, s = front ++ rest ∧ behind isSpace front = true := by
  cases s with
  | nil =>
    obtain ⟨-, rfl⟩ := Prod.mk.inj h
    exact ⟨[], rfl, rfl⟩
  | cons c s =>
    rw [dashGroup] at h
    by_cases hdash : c = chr '-' ∧ s.takeWhile isSpace ≠ []
    · rw [if_pos hdash] at h
      obtain ⟨-, rfl⟩ := Prod.mk.inj h
      refine ⟨c :: s.takeWhile isSpace, by simp, ?_⟩
      have hlast := behind_takeWhile s
      unfold behind at hlast ⊢
      rw [List.getLast?_cons_of_ne_nil hdash.2]
      exact hlast
    · rw [if_neg hdash] at h
      obtain ⟨-, rfl⟩ := Prod.mk.inj h
      exact ⟨[], rfl, rfl⟩

/-- A key behind white space, with its colon, is shown. -/
theorem showsAt_of_space {key code before rest : PyStr} (hcode : code = before ++ (key ++ rest))
    (hbefore : behind isSpace before = true) (hcolon : colonNext rest = true) :
    ShowsAt key code before := by
  have hseparator : ∀ c, isSpace c = true → isSeparator c = true := by
    intro c hc
    unfold isSeparator
    rw [hc]
    rfl
  refine ⟨key, rest, ?_, behind_mono hseparator hbefore, .inl rfl, hcolon⟩
  rw [hcode, List.append_assoc]

/-- A line that the validator reads as a `uses` line shows the key. -/
theorem showsAt_of_usesRe {code : PyStr} {uses : UsesMatch} (h : usesRe code = some uses) :
    ∃ before, ShowsAt (lit "uses") code before := by
  obtain ⟨-, after, hgroup⟩ := usesRe_eq_some h
  obtain ⟨front, hfront, hlast⟩ := dashGroup_split hgroup
  have hcode : code = code.takeWhile isSpace ++ front ++ (lit "uses" ++ chr ':' :: after) := by
    calc code = code.takeWhile isSpace ++ code.dropWhile isSpace :=
          List.takeWhile_append_dropWhile.symm
      _ = code.takeWhile isSpace ++ (front ++ (lit "uses:" ++ after)) := by rw [hfront]
      _ = _ := by simp [lit]
  exact ⟨_, showsAt_of_space hcode (behind_append (behind_takeWhile code) hlast) rfl⟩

/-- The value of an accepted `uses` line: a local path, or an action with the hash of a commit. -/
def IsSafe (value : PyStr) : Prop :=
  (∃ path, path ≠ [] ∧ value = lit "./" ++ path) ∨
    ∃ action commit, value = action ++ chr '@' :: commit ∧ commit.length = 40 ∧
      commit.all isHexDigit = true

/-- A line that `_USES_RE` matches in full, with such a value. -/
def SafeUses (code : PyStr) : Prop := ∃ uses, usesRe code = some uses ∧ IsSafe uses.value

variable {text source : PyStr} {lines : List PyStr} {i : ℕ}

theorem isSafe_of_local {value : PyStr} (h : localActionRe value = true) : IsSafe value := by
  unfold localActionRe at h
  cases hcut : (lit "./").isPrefixOf? value with
  | none =>
    rw [hcut] at h
    cases h
  | some path =>
    rw [hcut] at h
    dsimp only at h
    rw [Bool.and_eq_true, decide_eq_true_eq] at h
    exact .inl ⟨path, h.1, (List.isPrefixOf?_eq_some_iff_append_eq.mp hcut).symm⟩

theorem isSafe_of_remote {value : PyStr} (h : remoteActionRe value = true) : IsSafe value := by
  unfold remoteActionRe at h
  cases hsplit : partitionChar? value (chr '@') with
  | none =>
    rw [hsplit] at h
    cases h
  | some parts =>
    obtain ⟨action, commit⟩ := parts
    rw [hsplit] at h
    dsimp only at h
    unfold isCommit at h
    simp only [Bool.and_eq_true, decide_eq_true_eq] at h
    exact .inr ⟨action, commit, (partitionChar?_eq_some hsplit).1, h.2.1, h.2.2⟩

/-- In an accepted text every line that shows the key is safe. -/
theorem safeUses_of_accepted (accepted : syntaxFailures lines source = []) (hi : i < lines.length)
    {before : PyStr} (hshows : ShowsAt (lit "uses") (codeAt lines i) before) :
    SafeUses (codeAt lines i) := by
  have hkey : usesKeyRe (codeAt lines i) = true := keySearch_iff.mpr ⟨before, hshows⟩
  have hline := List.flatMap_eq_nil_iff.mp accepted i
    (List.mem_range'_1.mpr ⟨Nat.zero_le i, by omega⟩)
  by_cases hb : isBlank (codeAt lines i) = true
  · rw [codeAt_of_blank hb] at hkey
    exact absurd hkey (by decide)
  · rw [if_neg hb] at hline
    unfold lineFailures at hline
    have huses := (List.append_eq_nil_iff.mp hline).1
    cases hre : usesRe (codeAt lines i) with
    | none =>
      rw [hre] at huses
      dsimp only at huses
      rw [if_pos hkey] at huses
      cases huses
    | some uses =>
      rw [hre] at huses
      dsimp only at huses
      refine ⟨uses, hre, ?_⟩
      by_cases hlocal : startsWith uses.value (lit "./") = true
      · rw [if_pos hlocal] at huses
        by_contra hunsafe
        rw [if_neg fun h => hunsafe (isSafe_of_local h)] at huses
        cases huses
      · rw [if_neg hlocal] at huses
        by_contra hunsafe
        rw [if_neg fun h => hunsafe (isSafe_of_remote h)] at huses
        cases huses

/-! ## Which keys are seen -/

/-- The key is written without escapes, follows no `[` and no byte order mark, and has its colon on the
line, before the place where the line is cut. -/
structure Key.Open (key : Key lines) : Prop where
  unescaped : chr '\\' ∉ key.spelling
  separated : key.before.getLast? ≠ some (chr '[') ∧ key.before.getLast? ≠ some 0xFEFF
  kept : ∃ rest, codeAt lines key.line = key.before ++ key.spelling ++ rest ∧ colonNext rest = true

/-- Letters that mean themselves in every style. -/
def IsBare (value : PyStr) : Prop := value ≠ [] ∧ ∀ c ∈ value, isQuote c = false ∧ c ≠ chr '\\'

theorem IsBare.ne_quote {value : PyStr} (h : IsBare value) {q : CodePoint} (hq : isQuote q = true)
    (s t : PyStr) : value ++ s ≠ q :: t := by
  intro heq
  cases value with
  | nil => exact h.1 rfl
  | cons c value =>
    obtain ⟨rfl, -⟩ := List.cons.inj heq
    have hc := (h.2 c List.mem_cons_self).1
    rw [hq] at hc
    cases hc

theorem IsBare.replaceChar {value : PyStr} (h : IsBare value) (new : PyStr) :
    replaceChar value (chr '\'') new = value := by
  apply replaceChar_of_notMem
  intro hmem
  exact absurd (h.2 _ hmem).1 (by decide)

/-- A spelling is bare, or it has quotes and what is between them is the value unless it has a
backslash. -/
theorem Spells.shape {value spelling : PyStr} (h : Spells value spelling) (hbare : IsBare value) :
    spelling = value ∨ ∃ q raw, isQuote q = true ∧ spelling = q :: (raw ++ [q]) ∧
      (chr '\\' ∉ raw → raw = value) ∧ ∀ s t, raw ++ s = value ++ t → raw = value := by
  have hescape : chr '\\' ∉ value := fun hmem => (hbare.2 _ hmem).2 rfl
  cases h with
  | plain => exact .inl rfl
  | single =>
    have hsame := hbare.replaceChar (lit "''")
    exact .inr ⟨_, _, rfl, rfl, fun _ => hsame, fun _ _ _ => hsame⟩
  | double hraw =>
    exact .inr ⟨_, _, rfl, rfl, hraw.eq_of_notMem, fun s t heq => hraw.eq_of_append hescape heq⟩

/-- A spelling without escapes is a word of the search. -/
theorem Spells.isWord {value spelling : PyStr} (h : Spells value spelling) (hbare : IsBare value)
    (hspelling : chr '\\' ∉ spelling) : IsWord value spelling := by
  obtain rfl | ⟨q, raw, hq, rfl, hraw, -⟩ := h.shape hbare
  · exact .inl rfl
  · rw [List.mem_cons, List.mem_append, not_or, not_or] at hspelling
    rw [hraw hspelling.2.1]
    exact .inr ⟨q, q, hq, hq, rfl⟩

/-- A word of the search that stands where a scalar is spelled is the whole spelling. -/
theorem Spells.eq_word {value spelling word s t : PyStr} (h : Spells value spelling)
    (hbare : IsBare value) (hword : IsWord value word) (heq : spelling ++ s = word ++ t) :
    spelling = word := by
  obtain rfl | ⟨q, raw, hq, rfl, -, hraw⟩ := h.shape hbare
  · rcases hword with rfl | ⟨q', q'', hq', -, rfl⟩
    · rfl
    · exact absurd heq (hbare.ne_quote hq' _ _)
  · rcases hword with rfl | ⟨q', q'', -, -, rfl⟩
    · exact absurd heq.symm (hbare.ne_quote hq _ _)
    · rw [List.cons_append, List.cons_append, List.append_assoc, List.append_assoc] at heq
      obtain ⟨rfl, htail⟩ := List.cons.inj heq
      obtain rfl := hraw _ _ htail
      obtain ⟨rfl, -⟩ := List.cons.inj (List.append_cancel_left htail)
      rfl

/-- A word of the search has no backslash. -/
theorem IsWord.notMem {value word : PyStr} (h : IsWord value word) (hbare : IsBare value) :
    chr '\\' ∉ word := by
  have hvalue : chr '\\' ∉ value := fun hmem => (hbare.2 _ hmem).2 rfl
  have hquote : ∀ q, isQuote q = true → chr '\\' ≠ q := by
    rintro q hq rfl
    exact absurd hq (by decide)
  rcases h with rfl | ⟨q, q', hq, hq', rfl⟩
  · exact hvalue
  · rw [List.mem_cons, List.mem_append, List.mem_singleton, not_or, not_or]
    exact ⟨hquote q hq, hvalue, hquote q' hq'⟩

/-- **The search shows a key at its place exactly if the key is open.** -/
theorem Key.showsAt_iff (key : Key lines) (hbare : IsBare key.value) :
    ShowsAt key.value (codeAt lines key.line) key.before ↔ key.Open := by
  constructor
  · rintro ⟨word, rest, hcode, hbefore, hword, hcolon⟩
    have hspelling : key.spelling = word := by
      obtain ⟨cut, hcode'⟩ : codeAt lines key.line <+: key.before ++ key.spelling ++ key.after := by
        unfold codeAt
        rw [List.getD_eq_getElem?_getD, key.on_line]
        exact withoutYamlComment_isPrefix _
      rw [hcode, List.append_assoc, List.append_assoc, List.append_assoc] at hcode'
      exact key.spells.eq_word hbare hword (List.append_cancel_left hcode').symm
    refine ⟨?_, ⟨?_, ?_⟩, rest, by rw [hspelling, hcode], hcolon⟩
    · rw [hspelling]
      exact hword.notMem hbare
    · intro hlast
      unfold behind at hbefore
      rw [hlast] at hbefore
      exact absurd hbefore (by decide)
    · intro hlast
      unfold behind at hbefore
      rw [hlast] at hbefore
      exact absurd hbefore (by decide)
  · rintro ⟨hunescaped, ⟨hbracket, hmark⟩, rest, hcode, hcolon⟩
    refine ⟨key.spelling, rest, hcode, ?_, key.spells.isWord hbare hunescaped, hcolon⟩
    have hmargin := key.stands.behind_flowMargin
    unfold behind at hmargin ⊢
    cases hlast : key.before.getLast? with
    | none => rfl
    | some c =>
      rw [hlast] at hmargin hbracket hmark
      show isSeparator c = true
      have hc : isFlowMargin c = true := hmargin
      unfold isFlowMargin isMargin isWhite at hc
      simp only [Bool.or_eq_true, decide_eq_true_eq] at hc
      rcases hc with ((((rfl | rfl) | rfl) | rfl) | rfl) | rfl
      · rfl
      · rfl
      · exact absurd rfl hmark
      · rfl
      · exact absurd rfl hbracket
      · rfl

theorem isBare_uses : IsBare (lit "uses") := by
  have hall : (lit "uses").all (fun c => !isQuote c && c ≠ chr '\\') = true := by decide
  refine ⟨by decide, fun c hc => ?_⟩
  simpa using List.all_eq_true.mp hall c hc

/-- **An accepted text keeps no `uses` key from the validator exactly if each is open**, or its line shows
the key at another place. -/
theorem uses_seen_iff (accepted : validateWorkflowText text source = [])
    (keys : List (Key (splitLines text))) :
    (∀ key ∈ keys, key.value = lit "uses" → SafeUses (codeAt (splitLines text) key.line)) ↔
      ∀ key ∈ keys, key.value = lit "uses" → key.Open ∨
        ∃ before, before ≠ key.before ∧
          ShowsAt (lit "uses") (codeAt (splitLines text) key.line) before := by
  obtain ⟨hfirst, -⟩ := List.append_eq_nil_iff.mp accepted
  refine forall_congr' fun key => forall_congr' fun _ => forall_congr' fun hvalue => ?_
  have hopen := key.showsAt_iff (by rw [hvalue]; exact isBare_uses)
  rw [hvalue] at hopen
  have hline : key.line < (splitLines text).length := (List.getElem?_eq_some_iff.mp key.on_line).1
  constructor
  · rintro ⟨uses, huses, -⟩
    obtain ⟨before, hshows⟩ := showsAt_of_usesRe huses
    by_cases hbefore : before = key.before
    · subst hbefore
      exact .inl (hopen.mp hshows)
    · exact .inr ⟨before, hbefore, hshows⟩
  · rintro (h | ⟨before, -, hshows⟩)
    · exact safeUses_of_accepted hfirst hline (hopen.mpr h)
    · exact safeUses_of_accepted hfirst hline hshows

/-! ## Two texts -/

/-- A workflow with a local action. -/
def localText : PyStr := lit "steps:\n  - uses: ./local-action\n"

/-- The two keys of the text. -/
def localKeys : List (Key (splitLines localText)) :=
  [⟨0, [], lit "steps", lit ":", lit "steps", by decide +kernel, .plain,
      .block (by decide) [] [] rfl rfl rfl⟩,
    ⟨1, lit "  - ", lit "uses", lit ": ./local-action", lit "uses", by decide +kernel, .plain,
      .block (by decide) [] (lit " ./local-action") rfl rfl rfl⟩]

theorem localKeys_open : ∀ key ∈ localKeys, key.value = lit "uses" → key.Open := by
  have hkept : ∀ key ∈ localKeys, key.value = lit "uses" → chr '\\' ∉ key.spelling ∧
      (key.before.getLast? ≠ some (chr '[') ∧ key.before.getLast? ≠ some 0xFEFF) ∧
      codeAt (splitLines localText) key.line = key.before ++ key.spelling ++ key.after ∧
      colonNext key.after = true := by
    decide +kernel
  intro key hkey hvalue
  obtain ⟨hescape, hseparated, hcode, hcolon⟩ := hkept key hkey hvalue
  exact ⟨hescape, hseparated, key.after, hcode, hcolon⟩

theorem uses_seen_iff_local : validateWorkflowText localText (lit "ci.yml") = [] ∧
    SafeUses (codeAt (splitLines localText) 1) := by
  have accepted : validateWorkflowText localText (lit "ci.yml") = [] := by decide +kernel
  have hsafe := (uses_seen_iff accepted localKeys).mpr fun key hkey hvalue =>
    .inl (localKeys_open key hkey hvalue)
  exact ⟨accepted, hsafe _ (List.mem_cons_of_mem _ (List.mem_singleton_self _)) rfl⟩

/-- A workflow with a mutable action, whose key has an escape in it. -/
def escapedText : PyStr := lit "steps:\n  - \"\\x75ses\": evil/action@main\n"

def escapedKey : Key (splitLines escapedText) where
  line := 1
  before := lit "  - "
  spelling := lit "\"\\x75ses\""
  after := lit ": evil/action@main"
  value := lit "uses"
  on_line := by decide +kernel
  spells := by
    have hraw : DoubleQuoted (lit "ses") (lit "ses") :=
      .char (by decide) (by decide) (.char (by decide) (by decide) (.char (by decide) (by decide) .nil))
    exact .double (@DoubleQuoted.hex (chr 'x') (chr 'u') (lit "75") _ _ (by decide) (by decide)
      (by decide) hraw)
  stands := .block (by decide) [] (lit " evil/action@main") rfl rfl rfl

/-- The validator accepts the text, and its key is on no line that the validator reads. -/
theorem escapedKey_unseen : ¬∀ text source, validateWorkflowText text source = [] →
    ∀ keys : List (Key (splitLines text)), ∀ key ∈ keys, key.value = lit "uses" →
      SafeUses (codeAt (splitLines text) key.line) := by
  intro h
  obtain ⟨uses, huses, -⟩ := h escapedText (lit "ci.yml") (by decide +kernel) [escapedKey] escapedKey
    (List.mem_singleton_self _) rfl
  have hnone : usesRe (codeAt (splitLines escapedText) 1) = none := by decide +kernel
  rw [show codeAt _ escapedKey.line = codeAt _ 1 from rfl, hnone] at huses
  cases huses

end Sentinel.Workflow
