import SentinelCore.Py.Space
import SentinelCore.Py.Json
import SentinelCore.Lib.Layout

/-!
# The workflow gate

`sentinel_core.workflow_security`: the check of GitHub Actions workflows, line by line. Every regular
expression of the module reads a line in only one way, so each is a function that returns its groups.

1. A first pass reads each line without its comment and refuses `uses` and `persist-credentials` keys
   it cannot read, and action references that are not pinned.
2. A second pass rebuilds the step around each `uses` line from the indentation (`stepBounds`) and checks
   the inputs of the checkout action in it (`validateCheckoutInputs`).
-/

namespace Sentinel.Workflow

open Py Lib

/-! ## Lines -/

/-- The line boundaries of `str.splitlines`. -/
def isLineBreak (c : CodePoint) : Bool :=
  (0x0A ≤ c.val && c.val ≤ 0x0D) || (0x1C ≤ c.val && c.val ≤ 0x1E) || c.val = 0x85 ||
    c.val = 0x2028 || c.val = 0x2029

/-- `text.splitlines()`, after what was read of the line at hand; `afterReturn` says that a carriage
return has just ended a line, which a line feed then belongs to. -/
def splitLinesFrom (line : PyStr) (afterReturn : Bool) : PyStr → List PyStr
  | [] => if line = [] then [] else [line]
  | c :: text =>
    if afterReturn ∧ c = chr '\n' then splitLinesFrom [] false text
    else if isLineBreak c then line :: splitLinesFrom [] (c = chr '\r') text
    else splitLinesFrom (line ++ [c]) false text

def splitLines (text : PyStr) : List PyStr := splitLinesFrom [] false text

/-- The line up to its comment, as the loop of `_without_yaml_comment` reads it. -/
def uncommented (quote : Option CodePoint) (escaped : Bool) : PyStr → PyStr
  | [] => []
  | c :: line =>
    if quote = some (chr '"') ∧ escaped then c :: uncommented quote false line
    else if quote = some (chr '"') ∧ c = chr '\\' then c :: uncommented quote true line
    else if quote = none ∧ (c = chr '\'' ∨ c = chr '"') then c :: uncommented (some c) escaped line
    else if quote = some c then c :: uncommented none escaped line
    else if quote = none ∧ c = chr '#' then []
    else c :: uncommented quote escaped line

/-- `_without_yaml_comment`. -/
def withoutYamlComment (line : PyStr) : PyStr := rstrip (uncommented none false line)

/-- `_indent`. -/
def indentOf (line : PyStr) : ℕ := line.length - (line.dropWhile isSpace).length

/-- `_without_yaml_comment(lines[index])`. -/
def codeAt (lines : List PyStr) (index : ℕ) : PyStr := withoutYamlComment (lines.getD index [])

/-- `not code.strip()`. -/
def isBlank (code : PyStr) : Bool := strip code = []

/-! ## Regular expressions -/

/-- `(?P<dash>-\s+)?` and what follows it. -/
def dashGroup : PyStr → Option PyStr × PyStr
  | [] => (none, [])
  | c :: rest =>
    if c = chr '-' ∧ rest.takeWhile isSpace ≠ [] then
      (some (c :: rest.takeWhile isSpace), rest.dropWhile isSpace)
    else (none, c :: rest)

/-- The groups of `_USES_RE`. -/
structure UsesMatch where
  indent : PyStr
  dash : Option PyStr
  value : PyStr
  deriving DecidableEq

/-- `[^\s#]`. -/
def isValueChar (c : CodePoint) : Bool := !isSpace c && c ≠ chr '#'

/-- `_USES_RE.fullmatch(code)`. -/
def usesRe (code : PyStr) : Option UsesMatch :=
  let (dash, rest) := dashGroup (code.dropWhile isSpace)
  match (lit "uses:").isPrefixOf? rest with
  | none => none
  | some after =>
    let value := (after.dropWhile isSpace).takeWhile isValueChar
    let trailing := (after.dropWhile isSpace).dropWhile isValueChar
    if after.takeWhile isSpace ≠ [] ∧ value ≠ [] ∧ trailing.all isSpace then
      some ⟨code.takeWhile isSpace, dash, value⟩
    else none

/-- `_WITH_RE.fullmatch(code)`: the group `indent`. -/
def withRe (code : PyStr) : Option PyStr :=
  match (lit "with:").isPrefixOf? (code.dropWhile isSpace) with
  | none => none
  | some after => if after.all isSpace then some (code.takeWhile isSpace) else none

/-- `_PERSIST_RE.fullmatch(code)`: the groups `indent` and `value`. -/
def persistRe (code : PyStr) : Option (PyStr × PyStr) :=
  match (lit "persist-credentials:").isPrefixOf? (code.dropWhile isSpace) with
  | none => none
  | some after =>
    let value := rstrip (after.dropWhile isSpace)
    if after.takeWhile isSpace ≠ [] ∧ (value = lit "true" ∨ value = lit "false") then
      some (code.takeWhile isSpace, value)
    else none

/-- `_STEP_START_RE.match(code)`: the group `indent`. -/
def stepStartRe (code : PyStr) : Option PyStr :=
  (dashGroup (code.dropWhile isSpace)).1.map fun _ => code.takeWhile isSpace

/-- `['\"]`. -/
def isQuote (c : CodePoint) : Bool := c = chr '\'' || c = chr '"'

/-- `\s*:`. -/
def colonNext (s : PyStr) : Bool := (s.dropWhile isSpace).head? = some (chr ':')

/-- `(?:['\"]key['\"]|key)\s*:`, at the start of the text. -/
def keyHere (key : PyStr) (s : PyStr) : Bool :=
  ((key.isPrefixOf? s).any colonNext) ||
    match s with
    | [] => false
    | q :: s =>
      isQuote q && (key.isPrefixOf? s).any fun rest =>
        match rest with
        | [] => false
        | q' :: rest => isQuote q' && colonNext rest

/-- `[\s{,]`. -/
def isSeparator (c : CodePoint) : Bool := isSpace c || c = 0x7B || c = chr ','

/-- Whether the key stands behind a separator of the text. -/
def keyAfterSeparator (key : PyStr) : PyStr → Bool
  | [] => false
  | c :: s => (isSeparator c && keyHere key s) || keyAfterSeparator key s

/-- `_USES_KEY_RE.search(code) is not None` and `_PERSIST_KEY_RE.search(code) is not None`. -/
def keySearch (key : PyStr) (code : PyStr) : Bool := keyHere key code || keyAfterSeparator key code

def usesKeyRe (code : PyStr) : Bool := keySearch (lit "uses") code

def persistKeyRe (code : PyStr) : Bool := keySearch (lit "persist-credentials") code

/-- `[0-9a-fA-F]{40}`. -/
def isCommit (s : PyStr) : Bool := s.length = 40 && s.all isHexDigit

/-- `_REMOTE_ACTION_RE.fullmatch(value)`. -/
def remoteActionRe (value : PyStr) : Bool :=
  match partitionChar? value (chr '@') with
  | none => false
  | some (action, commit) => action ≠ [] && action.all (fun c => !isSpace c) && isCommit commit

/-- `_LOCAL_ACTION_RE.fullmatch(value)`. -/
def localActionRe (value : PyStr) : Bool :=
  match (lit "./").isPrefixOf? value with
  | none => false
  | some path => path ≠ [] && path.all isValueChar

/-- `_CHECKOUT_RE.fullmatch(value)`. -/
def checkoutRe (value : PyStr) : Bool := ((lit "actions/checkout@").isPrefixOf? value).any isCommit

/-! ## Bounds -/

/-- The upward scan of `_step_bounds` from line `index`, for a `uses` key without a dash: the line that
opens the step and its indent. -/
def stepStart (lines : List PyStr) (usesIndent : ℕ) : ℕ → Option (ℕ × ℕ)
  | 0 => none
  | index + 1 =>
    let code := codeAt lines index
    if isBlank code then stepStart lines usesIndent index
    else
      match stepStartRe code with
      | some indent =>
        if indent.length < usesIndent then some (index, indent.length)
        else if indentOf code < usesIndent then none
        else stepStart lines usesIndent index
      | none => if indentOf code < usesIndent then none else stepStart lines usesIndent index

/-- Whether the downward scan of `_step_bounds` ends the step at the line. -/
def endsStep (lines : List PyStr) (stepIndent index : ℕ) : Bool :=
  let code := codeAt lines index
  !isBlank code && (indentOf code < stepIndent ||
    (stepStartRe code).any fun indent => indent.length = stepIndent)

/-- `_step_bounds`. -/
def stepBounds (lines : List PyStr) (usesIndex : ℕ) : Option (ℕ × ℕ) :=
  match usesRe (codeAt lines usesIndex) with
  | none => none
  | some uses =>
    let opened :=
      match uses.dash with
      | some _ => some (usesIndex, uses.indent.length)
      | none => stepStart lines uses.indent.length usesIndex
    opened.map fun (start, stepIndent) =>
      (start, firstIndex (endsStep lines stepIndent) (start + 1) lines.length)

/-- Whether the scan of `_mapping_bounds` ends the mapping at the line. -/
def endsMapping (lines : List PyStr) (keyIndent index : ℕ) : Bool :=
  !isBlank (codeAt lines index) && indentOf (codeAt lines index) ≤ keyIndent

/-- `_mapping_bounds`. -/
def mappingBounds (lines : List PyStr) (start stop : ℕ) : ℕ × ℕ :=
  (start + 1, firstIndex (endsMapping lines (indentOf (codeAt lines start))) (start + 1) stop)

/-- `range(start, stop)`. -/
def indices (start stop : ℕ) : List ℕ := List.range' start (stop - start)

/-! ## The checkout inputs -/

/-- `f"{source}:{line}: "`. -/
def location (source : PyStr) (line : ℕ) : PyStr :=
  source ++ lit ":" ++ intText line ++ lit ": "

/-- The lines of `[start, stop)` with a block-style `with:` at the indent. -/
def withLines (lines : List PyStr) (start stop usesIndent : ℕ) : List ℕ :=
  (indices start stop).filter fun index =>
    (withRe (codeAt lines index)).any fun indent => indent.length = usesIndent

/-- A line of `all_persist`: its index, its indent and its value. -/
structure PersistLine where
  index : ℕ
  indent : ℕ
  value : PyStr
  deriving DecidableEq

/-- `all_persist`. -/
def allPersist (lines : List PyStr) (start stop : ℕ) : List PersistLine :=
  (indices start stop).filterMap fun index =>
    (persistRe (codeAt lines index)).map fun (indent, value) => ⟨index, indent.length, value⟩

/-- `content_lines`. -/
def contentLines (lines : List PyStr) (start stop : ℕ) : List ℕ :=
  (indices start stop).filter fun index => !isBlank (codeAt lines index)

/-- `first_level_indent`. -/
def firstLevelIndent (lines : List PyStr) (content : List ℕ) : ℕ :=
  ((content.map fun index => indentOf (codeAt lines index)).min?).getD 0

/-- `_validate_checkout_inputs`. -/
def validateCheckoutInputs (lines : List PyStr) (source : PyStr)
    (stepStart stepEnd usesLine usesIndent : ℕ) : List PyStr :=
  let persist := allPersist lines stepStart stepEnd
  match withLines lines stepStart stepEnd usesIndent with
  | [withLine] =>
    let (contentStart, contentEnd) := mappingBounds lines withLine stepEnd
    let content := contentLines lines contentStart contentEnd
    if content = [] then
      [location source usesLine ++ lit "checkout with mapping must contain persist-credentials: false"]
    else
      let level := firstLevelIndent lines content
      let inside := fun p : PersistLine => contentStart ≤ p.index && p.index < contentEnd
      let direct := persist.filter fun p => inside p && p.indent = level
      let outside := persist.filter fun p => !inside p
      (match outside with
        | [] => []
        | p :: _ =>
          [location source (p.index + 1) ++ lit "persist-credentials must be inside checkout with"]) ++
        if direct.length ≠ 1 ∨ direct.head?.map PersistLine.value ≠ some (lit "false") then
          [location source usesLine ++ lit "checkout must set persist-credentials: false exactly once " ++
            lit "as a direct with input"]
        else []
  | _ =>
    [location source usesLine ++ lit "checkout must contain exactly one block-style with mapping"]

/-! ## The validator -/

/-- The failures of the first pass at one line. -/
def lineFailures (source : PyStr) (index : ℕ) (code : PyStr) : List PyStr :=
  (match usesRe code with
    | none =>
      if usesKeyRe code then
        [location source index ++
          lit "unsupported or ambiguous uses syntax; use block-style `uses: value`"]
      else []
    | some uses =>
      if startsWith uses.value (lit "./") then
        if localActionRe uses.value then []
        else [location source index ++ lit "invalid local action path: " ++ uses.value]
      else if remoteActionRe uses.value then []
      else
        [location source index ++ lit "remote action is not pinned to a 40-hex commit: " ++
          uses.value]) ++
    if persistKeyRe code ∧ persistRe code = none then
      [location source index ++ lit "unsupported or ambiguous persist-credentials syntax"]
    else []

/-- The first pass. -/
def syntaxFailures (lines : List PyStr) (source : PyStr) : List PyStr :=
  (indices 0 lines.length).flatMap fun index =>
    if isBlank (codeAt lines index) then [] else lineFailures source (index + 1) (codeAt lines index)

/-- `allowed_uses`. -/
def allowedUses (lines : List PyStr) : List ℕ :=
  (indices 0 lines.length).filter fun index =>
    !isBlank (codeAt lines index) && (usesRe (codeAt lines index)).isSome

/-- `step_uses`: the `uses` lines of `[start, stop)`, by line number. -/
def stepUses (lines : List PyStr) (start stop : ℕ) : List (ℕ × UsesMatch) :=
  (indices start stop).filterMap fun index =>
    (usesRe (codeAt lines index)).map fun uses => (index + 1, uses)

/-- `", ".join(texts)`. -/
def commaJoin (texts : List PyStr) : PyStr := (lit ", ").intercalate texts

/-- The failures of the second pass at one step. -/
def stepFailures (lines : List PyStr) (source : PyStr) (start stop : ℕ) : List PyStr :=
  let uses := stepUses lines start stop
  (if uses.length > 1 then
      [source ++ lit ":" ++ commaJoin (uses.map fun u => intText u.1) ++
        lit ": step contains duplicate uses keys"]
    else []) ++
    uses.flatMap fun (usesLine, u) =>
      if checkoutRe u.value then
        validateCheckoutInputs lines source start stop usesLine u.indent.length
      else []

-- The membership test of `checkSteps` rests on it.
instance lawfulBEq_bounds : LawfulBEq (ℕ × ℕ) := inferInstance

/-- The second pass, over the remaining `uses` lines and with the steps already checked. -/
def checkSteps (lines : List PyStr) (source : PyStr) : List ℕ → List (ℕ × ℕ) → List PyStr
  | [], _ => []
  | usesIndex :: rest, checked =>
    match stepBounds lines usesIndex with
    | none => checkSteps lines source rest checked
    | some bounds =>
      if bounds ∈ checked then checkSteps lines source rest checked
      else
        stepFailures lines source bounds.1 bounds.2 ++
          checkSteps lines source rest (bounds :: checked)

/-- `validate_workflow_text`. -/
def validateWorkflowText (text source : PyStr) : List PyStr :=
  let lines := splitLines text
  syntaxFailures lines source ++ checkSteps lines source (allowedUses lines) []

end Sentinel.Workflow
