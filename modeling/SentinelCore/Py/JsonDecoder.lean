import SentinelCore.Py.Json

/-!
# `json.loads`

The scanner of CPython's `json` module on a text: strict strings, the number pattern, the constants
`NaN`, `Infinity` and `-Infinity`, later members of an object overwriting earlier ones, and the
recursion limit. The functions run on fuel; `loads` starts with more than the length of the text,
which is enough since every call reads a character.

`loads_loadable`: what is accepted is `Loadable`, that is, its objects have distinct keys and it
stays within the interpreter's limits.
-/

namespace Py

/-- Why scanning stops. -/
inductive ScanError where
  | invalid
  | tooDeep
  | tooManyDigits
  deriving DecidableEq

def isJsonSpace (c : CodePoint) : Bool := c = chr ' ' || c = chr '\t' || c = chr '\n' || c = chr '\r'

def skipSpace (s : PyStr) : PyStr := s.dropWhile isJsonSpace

def hexValue (c : CodePoint) : Option ℕ :=
  if isAsciiDigit c then some (c.val - 0x30)
  else if 0x61 ≤ c.val ∧ c.val ≤ 0x66 then some (c.val - 0x61 + 10)
  else if 0x41 ≤ c.val ∧ c.val ≤ 0x46 then some (c.val - 0x41 + 10)
  else none

/-- Four hexadecimal digits. -/
def scanHex4 : PyStr → Option (ℕ × PyStr)
  | a :: b :: c :: d :: rest => do
    let a ← hexValue a
    let b ← hexValue b
    let c ← hexValue c
    let d ← hexValue d
    return (a * 4096 + b * 256 + c * 16 + d, rest)
  | _ => none

def isHighSurrogate (n : ℕ) : Bool := 0xD800 ≤ n && n < 0xDC00

def isLowSurrogate (n : ℕ) : Bool := 0xDC00 ≤ n && n < 0xE000

/-- The code unit after `\u`, joined with a following low surrogate when it is a high one. -/
def scanUnit (s : PyStr) : Option (CodePoint × PyStr) := do
  let (n, rest) ← scanHex4 s
  if isHighSurrogate n then
    match rest with
    | a :: b :: rest' =>
      if a = chr '\\' ∧ b = chr 'u' then
        let (m, rest'') ← scanHex4 rest'
        if isLowSurrogate m then
          return (point (0x10000 + (n - 0xD800) * 1024 + (m - 0xDC00)), rest'')
        else return (point n, rest)
      else return (point n, rest)
    | _ => return (point n, rest)
  else return (point n, rest)

/-- The character an escape stands for; the text starts after the backslash. -/
def scanEscape : PyStr → Option (CodePoint × PyStr)
  | [] => none
  | c :: rest =>
    if c = chr '"' then some (chr '"', rest)
    else if c = chr '\\' then some (chr '\\', rest)
    else if c = chr '/' then some (chr '/', rest)
    else if c = chr 'b' then some (point 0x08, rest)
    else if c = chr 'f' then some (point 0x0C, rest)
    else if c = chr 'n' then some (chr '\n', rest)
    else if c = chr 'r' then some (chr '\r', rest)
    else if c = chr 't' then some (chr '\t', rest)
    else if c = chr 'u' then scanUnit rest
    else none

/-- One character of a string literal, escaped or not. -/
def scanChar : PyStr → Option (CodePoint × PyStr)
  | [] => none
  | c :: rest =>
    if c = chr '\\' then scanEscape rest
    else if c.val < 0x20 then none
    else some (c, rest)

/-- The rest of a string literal, after its opening quote. -/
def scanString : ℕ → PyStr → Option (PyStr × PyStr)
  | 0, _ => none
  | fuel + 1, s =>
    if s.head? = some (chr '"') then some ([], s.tail)
    else do
      let (c, rest) ← scanChar s
      let (t, rest) ← scanString fuel rest
      return (c :: t, rest)

/-- A number: its text, whether it has a fraction or an exponent, and what follows. -/
def matchNumber (s : PyStr) : Option (PyStr × Bool × PyStr) :=
  let sign := s.takeWhile (· = chr '-') |>.take 1
  let s := s.drop sign.length
  let whole := if s.head? = some (chr '0') then [chr '0'] else s.takeWhile isAsciiDigit
  let s := s.drop whole.length
  let digits := s.tail.takeWhile isAsciiDigit
  let frac := if s.head? = some (chr '.') ∧ digits ≠ [] then chr '.' :: digits else []
  let s := s.drop frac.length
  let mark := s.tail.takeWhile (fun c => c = chr '+' || c = chr '-') |>.take 1
  let digits := (s.tail.drop mark.length).takeWhile isAsciiDigit
  let expo :=
    if (s.head? = some (chr 'e') ∨ s.head? = some (chr 'E')) ∧ digits ≠ [] then
      s.take 1 ++ mark ++ digits
    else []
  if whole = [] then none
  else some (sign ++ whole ++ frac ++ expo, !(frac ++ expo).isEmpty, s.drop expo.length)

/-- `int(text)` for an integer text of JSON. -/
def intOfText (s : PyStr) : Except ScanError ℤ :=
  let digits := s.dropWhile (· = chr '-')
  if Json.intDigitsLimit < digits.length then .error .tooManyDigits
  else if s.head? = some (chr '-') then .ok (-(digitsValue digits : ℤ))
  else .ok (digitsValue digits)

/-- The constants of JSON and the three float constants CPython adds. -/
def jsonConstants : List (PyStr × Json) :=
  [(lit "null", .null), (lit "true", .bool true), (lit "false", .bool false),
    (lit "NaN", .float ⟨lit "NaN", by decide⟩),
    (lit "Infinity", .float ⟨lit "Infinity", by decide⟩),
    (lit "-Infinity", .float ⟨lit "-Infinity", by decide⟩)]

def scanConstant (s : PyStr) : Option (Json × PyStr) :=
  (jsonConstants.find? fun kv => startsWith s kv.1).map fun kv => (kv.2, s.drop kv.1.length)

/-- A constant or a number. -/
def scanScalar (rt : Runtime) (s : PyStr) : Except ScanError (Json × PyStr) :=
  match scanConstant s with
  | some r => .ok r
  | none =>
    match matchNumber s with
    | none => .error .invalid
    | some (t, isFloat, rest) =>
      if isFloat then .ok (.float (rt.floatOfText t), rest)
      else do
        let i ← intOfText t
        return (.int i, rest)

mutual

/-- One value. `depth` is how many containers may still be opened. -/
def scanValue (rt : Runtime) : ℕ → ℕ → PyStr → Except ScanError (Json × PyStr)
  | 0, _, _ => .error .invalid
  | fuel + 1, depth, s =>
    if s.head? = some (chr '"') then
      match scanString (s.length + 1) s.tail with
      | some (t, rest) => .ok (.str t, rest)
      | none => .error .invalid
    else if s.head? = some (chr '{') then
      match depth with
      | 0 => .error .tooDeep
      | depth + 1 =>
        let s := skipSpace s.tail
        if s.head? = some (chr '}') then .ok (.obj [], s.tail)
        else scanMembers rt fuel depth [] s
    else if s.head? = some (chr '[') then
      match depth with
      | 0 => .error .tooDeep
      | depth + 1 =>
        let s := skipSpace s.tail
        if s.head? = some (chr ']') then .ok (.arr [], s.tail)
        else scanItems rt fuel depth [] s
    else scanScalar rt s

/-- The items of an array from the next one on, after those read before it. -/
def scanItems (rt : Runtime) : ℕ → ℕ → List Json → PyStr → Except ScanError (Json × PyStr)
  | 0, _, _, _ => .error .invalid
  | fuel + 1, depth, items, s => do
    let (v, s) ← scanValue rt fuel depth s
    let items := items ++ [v]
    let s := skipSpace s
    if s.head? = some (chr ']') then .ok (.arr items, s.tail)
    else if s.head? = some (chr ',') then scanItems rt fuel depth items (skipSpace s.tail)
    else .error .invalid

/-- The members of an object from the next one on. -/
def scanMembers (rt : Runtime) :
    ℕ → ℕ → List (PyStr × Json) → PyStr → Except ScanError (Json × PyStr)
  | 0, _, _, _ => .error .invalid
  | fuel + 1, depth, fields, s =>
    if s.head? = some (chr '"') then
      match scanString (s.length + 1) s.tail with
      | none => .error .invalid
      | some (key, s) =>
        let s := skipSpace s
        if s.head? = some (chr ':') then do
          let (v, s) ← scanValue rt fuel depth (skipSpace s.tail)
          let fields := setField fields key v
          let s := skipSpace s
          if s.head? = some (chr '}') then .ok (.obj fields, s.tail)
          else if s.head? = some (chr ',') then
            scanMembers rt fuel depth fields (skipSpace s.tail)
          else .error .invalid
        else .error .invalid
    else .error .invalid

end

/-- `json.loads(text)`. -/
def loads (rt : Runtime) (text : PyStr) : Except PyExc Json :=
  let invalid := PyExc.std .jsonDecodeError (.jsonLoads text)
  if text.head? = some 0xFEFF then .error invalid
  else
    match scanValue rt (text.length + 1) rt.maxDepth (skipSpace text) with
    | .ok (v, rest) => if skipSpace rest = [] then .ok v else .error invalid
    | .error .invalid => .error invalid
    | .error .tooDeep => .error (.std .recursionError (.jsonLoads text))
    | .error .tooManyDigits => .error (.std .valueError (.jsonLoads text))

/-! ## What is accepted -/

/-- The value keeps to a nesting depth and is otherwise loadable. -/
def FitsDepth (depth : ℕ) (v : Json) : Prop :=
  v.wellFormed = true ∧ v.depth ≤ depth ∧ v.intsPrintable = true

theorem FitsDepth.arr {depth : ℕ} {items : List Json} (h : ∀ v ∈ items, FitsDepth depth v) :
    FitsDepth (depth + 1) (.arr items) := by
  refine ⟨Json.wellFormed_arr.mpr fun v hv => (h v hv).1, ?_, ?_⟩
  · rw [Json.depth, Nat.add_le_add_iff_right, Json.depthItems_le]
    exact fun v hv => (h v hv).2.1
  · rw [Json.intsPrintable, Json.intsPrintableItems_iff]
    exact fun v hv => (h v hv).2.2

theorem FitsDepth.obj {depth : ℕ} {fields : List (PyStr × Json)}
    (hn : (fields.map Prod.fst).Nodup) (h : ∀ kv ∈ fields, FitsDepth depth kv.2) :
    FitsDepth (depth + 1) (.obj fields) := by
  refine ⟨Json.wellFormed_obj.mpr ⟨hn, fun kv hkv => (h kv hkv).1⟩, ?_, ?_⟩
  · rw [Json.depth, Nat.add_le_add_iff_right, Json.depthFields_le]
    exact fun kv hkv => (h kv hkv).2.1
  · rw [Json.intsPrintable, Json.intsPrintableFields_iff]
    exact fun kv hkv => (h kv hkv).2.2

/-- The text of an integer number is a sign and digits. -/
theorem matchNumber_int {s t rest : PyStr} (h : matchNumber s = some (t, false, rest)) :
    ∀ c ∈ t.dropWhile (· = chr '-'), isAsciiDigit c = true := by
  unfold matchNumber at h
  extract_lets sign s1 whole s2 digits frac s3 mark digits' expo at h
  split at h
  · cases h
  · simp only [Option.some.injEq, Prod.mk.injEq, Bool.not_eq_false', List.isEmpty_iff,
      List.append_eq_nil_iff] at h
    obtain ⟨rfl, ⟨hf, he⟩, -⟩ := h
    rw [hf, he, List.append_nil, List.append_nil]
    have hwhole : ∀ c ∈ whole, isAsciiDigit c = true := by
      intro c hc
      simp only [whole] at hc
      split at hc
      · rw [List.mem_singleton.mp hc]; decide
      · exact List.mem_takeWhile_imp hc
    have hsign : ∀ c ∈ sign, c = chr '-' := by
      intro c hc
      have := List.mem_takeWhile_imp (List.mem_of_mem_take hc)
      simpa using this
    intro c hc
    rw [List.dropWhile_append] at hc
    split at hc
    · exact hwhole c ((List.dropWhile_suffix _).subset hc)
    · next hne =>
      rw [List.isEmpty_iff, List.dropWhile_eq_nil_iff] at hne
      exact absurd (fun c hc => by simpa using hsign c hc) hne

theorem intOfText_printable {t : PyStr} {i : ℤ}
    (ht : ∀ c ∈ t.dropWhile (· = chr '-'), isAsciiDigit c = true) (h : intOfText t = .ok i) :
    Json.isPrintable i = true := by
  unfold intOfText at h
  dsimp only at h
  have hlt := digitsValue_lt ht
  split_ifs at h with h1 h2
  all_goals
    have hle : 10 ^ (t.dropWhile (· = chr '-')).length ≤ 10 ^ Json.intDigitsLimit :=
      Nat.pow_le_pow_right (by norm_num) (by omega)
    cases h
    rw [Json.isPrintable, decide_eq_true_eq]
    omega

theorem scanScalar_fits {rt : Runtime} {s rest : PyStr} {v : Json} {depth : ℕ}
    (h : scanScalar rt s = .ok (v, rest)) : FitsDepth depth v := by
  unfold scanScalar at h
  split at h
  · next r hr =>
    cases h
    unfold scanConstant at hr
    obtain ⟨kv, hkv, he⟩ := Option.map_eq_some_iff.mp hr
    cases he
    have hall : ∀ kv ∈ jsonConstants, kv.2.wellFormed = true ∧ kv.2.depth = 0 ∧
        kv.2.intsPrintable = true := by decide
    obtain ⟨h1, h2, h3⟩ := hall kv (List.mem_of_find?_eq_some hkv)
    exact ⟨h1, h2 ▸ Nat.zero_le _, h3⟩
  · split at h
    · cases h
    · next t isFloat rest' hm =>
      cases isFloat with
      | true => cases h; exact ⟨rfl, Nat.zero_le _, rfl⟩
      | false =>
        cases hi : intOfText t with
        | error e => rw [hi] at h; cases h
        | ok i =>
          rw [hi] at h
          cases h
          exact ⟨rfl, Nat.zero_le _, intOfText_printable (matchNumber_int hm) hi⟩

theorem scan_fits (rt : Runtime) : ∀ fuel,
    (∀ depth s v rest, scanValue rt fuel depth s = .ok (v, rest) → FitsDepth depth v) ∧
    (∀ depth items s v rest, (∀ x ∈ items, FitsDepth depth x) →
      scanItems rt fuel depth items s = .ok (v, rest) → FitsDepth (depth + 1) v) ∧
    (∀ depth fields s v rest, (fields.map Prod.fst).Nodup →
      (∀ kv ∈ fields, FitsDepth depth kv.2) →
      scanMembers rt fuel depth fields s = .ok (v, rest) → FitsDepth (depth + 1) v) := by
  intro fuel
  induction fuel with
  | zero =>
    refine ⟨?_, ?_, ?_⟩
    · intro depth s v rest h; cases h
    · intro depth items s v rest _ h; cases h
    · intro depth fields s v rest _ _ h; cases h
  | succ fuel ih =>
    obtain ⟨ihv, ihi, ihm⟩ := ih
    refine ⟨?_, ?_, ?_⟩
    · intro depth s v rest h
      rw [scanValue.eq_def] at h
      dsimp only at h
      split at h
      · split at h
        · cases h; exact ⟨rfl, Nat.zero_le _, rfl⟩
        · cases h
      · split at h
        · split at h
          · cases h
          · split at h
            · cases h; exact FitsDepth.obj (by simp) (by simp)
            · exact ihm _ _ _ _ _ (by simp) (by simp) h
        · split at h
          · split at h
            · cases h
            · split at h
              · cases h; exact FitsDepth.arr (by simp)
              · exact ihi _ _ _ _ _ (by simp) h
          · exact scanScalar_fits h
    · intro depth items s v rest hitems h
      rw [scanItems.eq_def] at h
      dsimp only at h
      cases hv : scanValue rt fuel depth s with
      | error e => rw [hv] at h; cases h
      | ok r =>
        rw [hv] at h
        have hall : ∀ x ∈ items ++ [r.1], FitsDepth depth x := by
          intro x hx
          rcases List.mem_append.mp hx with hx | hx
          · exact hitems x hx
          · rw [List.mem_singleton.mp hx]; exact ihv _ _ _ _ hv
        simp only [bind, Except.bind] at h
        split_ifs at h with h1 h2
        · cases h; exact FitsDepth.arr hall
        · exact ihi _ _ _ _ _ hall h
    · intro depth fields s v rest hn hfields h
      rw [scanMembers.eq_def] at h
      dsimp only at h
      split_ifs at h with h1
      split at h
      · cases h
      · next key s' _ =>
        split_ifs at h with h2
        cases hv : scanValue rt fuel depth (skipSpace (skipSpace s').tail) with
        | error e => rw [hv] at h; cases h
        | ok r =>
          rw [hv] at h
          have hall : ∀ kv ∈ setField fields key r.1, FitsDepth depth kv.2 := by
            intro kv hkv
            rcases mem_setField hkv with rfl | hkv
            · exact ihv _ _ _ _ hv
            · exact hfields kv hkv
          simp only [bind, Except.bind] at h
          split_ifs at h with h3 h4
          · cases h; exact FitsDepth.obj (setField_nodup hn) hall
          · exact ihm _ _ _ _ _ (setField_nodup hn) hall h

/-- **What `json.loads` accepts is well formed** and within the interpreter's limits. -/
theorem loads_loadable {rt : Runtime} {text : PyStr} {v : Json} (h : loads rt text = .ok v) :
    rt.Loadable v := by
  unfold loads at h
  dsimp only at h
  split at h
  · cases h
  · split at h
    · next v' rest hs =>
      split_ifs at h with h1
      cases h
      exact (scan_fits rt _).1 _ _ _ _ hs
    all_goals cases h

end Py
