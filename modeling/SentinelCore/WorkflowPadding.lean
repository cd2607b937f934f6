import SentinelCore.WorkflowSteps
import SentinelCore.Lib.Padding

/-!
# Blank lines and comments

Lines that are blank or hold only a comment do not count: every scan of the gate passes them, so a text
and the same text without them have the same failures, each at the line its own line has become.

1. A failure is first told apart from its text (`Failure`); the gate's messages are the texts of `faults`,
   with the lines numbered from one (`validateWorkflowText_eq`).
2. `Padding` says how a list of lines is another one with lines put in between, and every part of the
   gate commutes with it (`faults_padded`).
3. A text is its lines that count, padded (`padding_place`).
-/

namespace Sentinel.Workflow

open Py Lib

/-! ## Failures -/

/-- What the gate objects to, at which lines. -/
inductive Failure where
  | usesSyntax (line : ℕ)
  | localPath (line : ℕ) (value : PyStr)
  | unpinned (line : ℕ) (value : PyStr)
  | persistSyntax (line : ℕ)
  | duplicateUses (lines : List ℕ)
  | withCount (line : ℕ)
  | withEmpty (line : ℕ)
  | persistOutside (line : ℕ)
  | persistCount (line : ℕ)

namespace Failure

/-- The message of a failure, with a number for each line. -/
def text (source : PyStr) (number : ℕ → ℕ) : Failure → PyStr
  | .usesSyntax line => location source (number line) ++
      lit "unsupported or ambiguous uses syntax; use block-style `uses: value`"
  | .localPath line value => location source (number line) ++ lit "invalid local action path: " ++ value
  | .unpinned line value => location source (number line) ++
      lit "remote action is not pinned to a 40-hex commit: " ++ value
  | .persistSyntax line => location source (number line) ++
      lit "unsupported or ambiguous persist-credentials syntax"
  | .duplicateUses lines => source ++ lit ":" ++ commaJoin (lines.map fun line => intText (number line)) ++
      lit ": step contains duplicate uses keys"
  | .withCount line => location source (number line) ++
      lit "checkout must contain exactly one block-style with mapping"
  | .withEmpty line => location source (number line) ++
      lit "checkout with mapping must contain persist-credentials: false"
  | .persistOutside line => location source (number line) ++
      lit "persist-credentials must be inside checkout with"
  | .persistCount line => location source (number line) ++
      lit "checkout must set persist-credentials: false exactly once " ++ lit "as a direct with input"

/-- The failure, its lines moved. -/
def move (σ : ℕ → ℕ) : Failure → Failure
  | .usesSyntax line => .usesSyntax (σ line)
  | .localPath line value => .localPath (σ line) value
  | .unpinned line value => .unpinned (σ line) value
  | .persistSyntax line => .persistSyntax (σ line)
  | .duplicateUses lines => .duplicateUses (lines.map σ)
  | .withCount line => .withCount (σ line)
  | .withEmpty line => .withEmpty (σ line)
  | .persistOutside line => .persistOutside (σ line)
  | .persistCount line => .persistCount (σ line)

theorem text_move (source : PyStr) (number σ : ℕ → ℕ) (failure : Failure) :
    (failure.move σ).text source number = failure.text source fun line => number (σ line) := by
  cases failure with
  | duplicateUses lines =>
    show source ++ lit ":" ++ commaJoin ((lines.map σ).map fun line => intText (number line)) ++
      lit ": step contains duplicate uses keys" = _
    rw [List.map_map]
    rfl
  | _ => rfl

end Failure

variable (lines : List PyStr)

/-- The failures of the first pass at one line. -/
def lineFaults (index : ℕ) (code : PyStr) : List Failure :=
  (match usesRe code with
    | none => if usesKeyRe code then [.usesSyntax index] else []
    | some uses =>
      if startsWith uses.value (lit "./") then
        if localActionRe uses.value then [] else [.localPath index uses.value]
      else if remoteActionRe uses.value then [] else [.unpinned index uses.value]) ++
    if persistKeyRe code ∧ persistRe code = none then [.persistSyntax index] else []

def syntaxFaults : List Failure :=
  (indices 0 lines.length).flatMap fun index =>
    if isBlank (codeAt lines index) then [] else lineFaults index (codeAt lines index)

/-- The failures of a checkout step. -/
def inputFaults (start stop usesIndex usesIndent : ℕ) : List Failure :=
  let persist := allPersist lines start stop
  match withLines lines start stop usesIndent with
  | [withLine] =>
    let (contentStart, contentEnd) := mappingBounds lines withLine stop
    let content := contentLines lines contentStart contentEnd
    if content = [] then [.withEmpty usesIndex]
    else
      let level := firstLevelIndent lines content
      let inside := fun p : PersistLine => contentStart ≤ p.index && p.index < contentEnd
      let direct := persist.filter fun p => inside p && p.indent = level
      let outside := persist.filter fun p => !inside p
      (match outside with
        | [] => []
        | p :: _ => [.persistOutside p.index]) ++
        if direct.length ≠ 1 ∨ direct.head?.map PersistLine.value ≠ some (lit "false") then
          [.persistCount usesIndex]
        else []
  | _ => [.withCount usesIndex]

/-- The `uses` lines of `[start, stop)`. -/
def usesIn (start stop : ℕ) : List (ℕ × UsesMatch) :=
  (indices start stop).filterMap fun index =>
    (usesRe (codeAt lines index)).map fun uses => (index, uses)

/-- The failures of the second pass at one step. -/
def stepFaults (start stop : ℕ) : List Failure :=
  let uses := usesIn lines start stop
  (if uses.length > 1 then [.duplicateUses (uses.map Prod.fst)] else []) ++
    uses.flatMap fun (index, u) =>
      if checkoutRe u.value then inputFaults lines start stop index u.indent.length else []

def checkFaults : List ℕ → List (ℕ × ℕ) → List Failure
  | [], _ => []
  | usesIndex :: rest, checked =>
    match stepBounds lines usesIndex with
    | none => checkFaults rest checked
    | some bounds =>
      if bounds ∈ checked then checkFaults rest checked
      else stepFaults lines bounds.1 bounds.2 ++ checkFaults rest (bounds :: checked)

/-- All failures of the lines, in order. -/
def faults : List Failure := syntaxFaults lines ++ checkFaults lines (allowedUses lines) []

variable {lines} {source : PyStr}

/-! ### Their messages -/

theorem lineFailures_eq (index : ℕ) (code : PyStr) :
    lineFailures source (index + 1) code =
      (lineFaults index code).map (Failure.text source (· + 1)) := by
  unfold lineFailures lineFaults
  rw [List.map_append]
  congr 1
  · cases usesRe code with
    | none => dsimp only; split_ifs <;> rfl
    | some uses => dsimp only; split_ifs <;> rfl
  · split_ifs <;> rfl

theorem syntaxFailures_eq :
    syntaxFailures lines source = (syntaxFaults lines).map (Failure.text source (· + 1)) := by
  unfold syntaxFailures syntaxFaults
  rw [List.map_flatMap]
  congr 1
  funext index
  split_ifs
  · rfl
  · exact lineFailures_eq index _

theorem validateCheckoutInputs_eq (start stop usesIndex usesIndent : ℕ) :
    validateCheckoutInputs lines source start stop (usesIndex + 1) usesIndent =
      (inputFaults lines start stop usesIndex usesIndent).map (Failure.text source (· + 1)) := by
  unfold validateCheckoutInputs inputFaults
  dsimp only
  rcases withLines lines start stop usesIndent with _ | ⟨withLine, _ | ⟨second, rest⟩⟩
  · rfl
  · dsimp only
    split_ifs with hcontent hcount
    · rfl
    · rw [List.map_append]
      congr 1
      generalize (allPersist lines start stop).filter _ = outside
      cases outside <;> rfl
    · rw [List.map_append]
      congr 1
      generalize (allPersist lines start stop).filter _ = outside
      cases outside <;> rfl
  · rfl

theorem stepUses_eq (start stop : ℕ) :
    stepUses lines start stop = (usesIn lines start stop).map fun u => (u.1 + 1, u.2) := by
  unfold stepUses usesIn
  rw [List.map_filterMap]
  congr 1
  funext index
  rw [Option.map_map]
  rfl

theorem stepFailures_eq (start stop : ℕ) :
    stepFailures lines source start stop =
      (stepFaults lines start stop).map (Failure.text source (· + 1)) := by
  unfold stepFailures stepFaults
  dsimp only
  rw [List.map_append, stepUses_eq, List.length_map, List.map_map, List.flatMap_map, List.map_flatMap]
  congr 1
  · split_ifs
    · rw [List.map_singleton, Failure.text, List.map_map]
      rfl
    · rfl
  · congr 1
    funext u
    split_ifs
    · exact validateCheckoutInputs_eq _ _ _ _
    · rfl

theorem checkSteps_eq (uses : List ℕ) (checked : List (ℕ × ℕ)) :
    checkSteps lines source uses checked =
      (checkFaults lines uses checked).map (Failure.text source (· + 1)) := by
  induction uses generalizing checked with
  | nil => rfl
  | cons usesIndex rest ih =>
    rw [checkSteps, checkFaults]
    cases stepBounds lines usesIndex with
    | none => exact ih checked
    | some bounds =>
      dsimp only
      split_ifs
      · exact ih checked
      · rw [List.map_append, stepFailures_eq, ih]

/-- The messages are the texts of the failures, with the lines numbered from one. -/
theorem validateWorkflowText_eq (text source : PyStr) :
    validateWorkflowText text source =
      (faults (splitLines text)).map (Failure.text source (· + 1)) := by
  unfold validateWorkflowText faults
  dsimp only
  rw [List.map_append, syntaxFailures_eq, checkSteps_eq]

/-! ## Padding -/

/-- The lines are those of `core`, of which line `k` has gone to `σ k`; the others are blank. -/
structure Padding (σ : ℕ → ℕ) (core lines : List PyStr) : Prop where
  mono : StrictMono σ
  code : ∀ k, codeAt lines (σ k) = codeAt core k
  blank : ∀ i, i ∉ Set.range σ → isBlank (codeAt lines i) = true
  stop : σ core.length = lines.length

namespace Padding

variable {σ : ℕ → ℕ} {core : List PyStr} {i k l column : ℕ}

/-- Nothing is matched on a blank line. -/
theorem gap {β : Type} {f : PyStr → Option β} (hf : f [] = none) (h : Padding σ core lines)
    (hi : i ∉ Set.range σ) : f (codeAt lines i) = none := by
  rw [codeAt_of_blank (h.blank i hi), hf]

/-- Matches on the lines of a range are those on the lines of the core. -/
theorem filterMap_code {β γ : Type} {f : PyStr → Option β} (hf : f [] = none) (g : ℕ → β → γ)
    (h : Padding σ core lines) (hi : StartsAt σ i k) :
    ((indices i (σ l)).filterMap fun j => (f (codeAt lines j)).map (g j)) =
      (indices k l).filterMap fun m => (f (codeAt core m)).map (g (σ m)) := by
  unfold indices
  rw [filterMap_padded h.mono (fun j hj => by rw [h.gap hf hj]; rfl) hi]
  congr 1
  funext m
  rw [h.code]

theorem filter_code {p : PyStr → Bool} (hp : ∀ code, isBlank code = true → p code = false)
    (h : Padding σ core lines) (hi : StartsAt σ i k) :
    ((indices i (σ l)).filter fun j => p (codeAt lines j)) =
      ((indices k l).filter fun m => p (codeAt core m)).map σ := by
  unfold indices
  rw [filter_padded h.mono (fun j hj => hp _ (h.blank j hj)) hi]
  congr 2
  funext m
  rw [h.code]

theorem firstIndex_code {p : PyStr → Bool} (hp : ∀ code, isBlank code = true → p code = false)
    (h : Padding σ core lines) (hi : StartsAt σ i k) :
    firstIndex (fun j => p (codeAt lines j)) i (σ l) =
      σ (firstIndex (fun m => p (codeAt core m)) k l) := by
  rw [firstIndex_padded h.mono (fun j hj => hp _ (h.blank j hj)) hi]
  congr 2
  funext m
  rw [h.code]

/-! ### The scans -/

theorem stepStart_padded (h : Padding σ core lines) (hi : StartsAt σ i k) :
    stepStart lines column i = (stepStart core column k).map fun s => (σ s.1, s.2) := by
  induction i generalizing k with
  | zero =>
    obtain rfl : k = 0 := Nat.le_zero.mp ((hi 0).mp (Nat.zero_le _))
    rfl
  | succ i ih =>
    by_cases hmem : i ∈ Set.range σ
    · obtain ⟨m, rfl⟩ := hmem
      have hk : k = m + 1 := by
        have hle := (hi (m + 1)).mp (Nat.succ_le_of_lt (h.mono (Nat.lt_succ_self m)))
        have hnot : ¬k ≤ m := fun hkm => absurd ((hi m).mpr hkm) (by omega)
        omega
      subst hk
      have hrec := ih (startsAt_self h.mono m)
      rw [stepStart, stepStart, h.code]
      cases stepStartRe (codeAt core m) with
      | none =>
        dsimp only
        split_ifs
        · exact hrec
        · rfl
        · exact hrec
      | some indent =>
        dsimp only
        split_ifs
        · exact hrec
        · rfl
        · rfl
        · exact hrec
    · have hrest : StartsAt σ i k := fun m => by
        rw [← hi m, Nat.succ_le_iff]
        exact ⟨fun hle => lt_of_le_of_ne hle fun heq => hmem ⟨m, heq.symm⟩, Nat.le_of_lt⟩
      rw [stepStart, if_pos (h.blank i hmem)]
      exact ih hrest

theorem stepBounds_padded (h : Padding σ core lines) (k : ℕ) :
    stepBounds lines (σ k) = (stepBounds core k).map fun b => (σ b.1, σ b.2) := by
  have hend : ∀ s column, firstIndex (endsStep lines column) (σ s + 1) lines.length =
      σ (firstIndex (endsStep core column) (s + 1) core.length) := by
    intro s column
    rw [← h.stop]
    exact h.firstIndex_code (p := fun code => !isBlank code && (indentOf code < column ||
      (stepStartRe code).any fun indent => indent.length = column))
      (fun code hb => by simp [hb]) (startsAt_succ h.mono s)
  unfold stepBounds
  rw [h.code]
  cases usesRe (codeAt core k) with
  | none => rfl
  | some uses =>
    dsimp only
    cases uses.dash with
    | some dash => rw [Option.map_some, Option.map_some, Option.map_some, hend]
    | none =>
      dsimp only
      rw [h.stepStart_padded (startsAt_self h.mono k), Option.map_map, Option.map_map]
      congr 1
      funext s
      simp only [Function.comp, hend]

theorem mappingBounds_padded (h : Padding σ core lines) (k l : ℕ) :
    mappingBounds lines (σ k) (σ l) = (σ k + 1, σ (mappingBounds core k l).2) := by
  unfold mappingBounds
  rw [h.code]
  congr 1
  exact h.firstIndex_code (p := fun code => !isBlank code && indentOf code ≤ indentOf (codeAt core k))
    (fun code hb => by simp [hb]) (startsAt_succ h.mono k)

theorem firstLevelIndent_padded (h : Padding σ core lines) (content : List ℕ) :
    firstLevelIndent lines (content.map σ) = firstLevelIndent core content := by
  unfold firstLevelIndent
  rw [List.map_map]
  congr 3
  funext m
  exact congrArg indentOf (h.code m)

/-! ### The failures -/

theorem persist_nil : persistRe [] = none := by decide

theorem uses_nil : usesRe [] = none := by decide

theorem allPersist_padded (h : Padding σ core lines) (k l : ℕ) :
    allPersist lines (σ k) (σ l) =
      (allPersist core k l).map fun p => ⟨σ p.index, p.indent, p.value⟩ := by
  unfold allPersist
  rw [List.map_filterMap]
  apply (h.filterMap_code persist_nil (fun index p => PersistLine.mk index p.1.length p.2)
    (startsAt_self h.mono k)).trans
  congr 1
  funext m
  rw [Option.map_map]
  rfl

theorem withLines_padded (h : Padding σ core lines) (k l usesIndent : ℕ) :
    withLines lines (σ k) (σ l) usesIndent = (withLines core k l usesIndent).map σ :=
  h.filter_code (p := fun code => (withRe code).any fun (indent : PyStr) => indent.length = usesIndent)
    (fun code hb => by rw [withRe, isBlank_iff.mp hb]; rfl) (startsAt_self h.mono k)

theorem contentLines_padded (h : Padding σ core lines) (k l : ℕ) :
    contentLines lines (σ k + 1) (σ l) = (contentLines core (k + 1) l).map σ :=
  h.filter_code (p := fun code => !isBlank code) (fun code hb => by simp [hb])
    (startsAt_succ h.mono k)

theorem usesIn_padded (h : Padding σ core lines) (k l : ℕ) :
    usesIn lines (σ k) (σ l) = (usesIn core k l).map fun u => (σ u.1, u.2) := by
  unfold usesIn
  rw [List.map_filterMap, h.filterMap_code uses_nil (fun index u => (index, u)) (startsAt_self h.mono k)]
  congr 1
  funext m
  rw [Option.map_map]
  rfl

theorem inside_padded (h : Padding σ core lines) (p : PersistLine) (k l : ℕ) :
    (decide (σ k + 1 ≤ σ p.index) && decide (σ p.index < σ l)) =
      (decide (k + 1 ≤ p.index) && decide (p.index < l)) := by
  rw [decide_eq_decide.mpr (startsAt_succ h.mono k p.index), decide_eq_decide.mpr h.mono.lt_iff_lt]

theorem inputFaults_padded (h : Padding σ core lines) (k l usesIndex usesIndent : ℕ) :
    inputFaults lines (σ k) (σ l) (σ usesIndex) usesIndent =
      (inputFaults core k l usesIndex usesIndent).map (Failure.move σ) := by
  unfold inputFaults
  rw [h.withLines_padded, h.allPersist_padded]
  rcases withLines core k l usesIndent with _ | ⟨withLine, _ | ⟨second, rest⟩⟩
  · rfl
  · obtain ⟨stop, hstop⟩ : ∃ stop, mappingBounds core withLine l = (withLine + 1, stop) := ⟨_, rfl⟩
    simp only [List.map_cons, List.map_nil, h.mappingBounds_padded, hstop, h.contentLines_padded,
      h.firstLevelIndent_padded, List.map_eq_nil_iff, List.filter_map, Function.comp_def,
      h.inside_padded, List.length_map, List.head?_map, Option.map_map]
    split_ifs
    · rfl
    · generalize (allPersist core k l).filter (fun p => !_) = outside
      cases outside <;> rfl
    · generalize (allPersist core k l).filter (fun p => !_) = outside
      cases outside <;> rfl
  · rfl

theorem stepFaults_padded (h : Padding σ core lines) (k l : ℕ) :
    stepFaults lines (σ k) (σ l) = (stepFaults core k l).map (Failure.move σ) := by
  unfold stepFaults
  rw [h.usesIn_padded]
  dsimp only
  rw [List.length_map, List.map_append, List.map_map, List.flatMap_map, List.map_flatMap]
  congr 1
  · split_ifs
    · rw [List.map_singleton, Failure.move, List.map_map]
      rfl
    · rfl
  · congr 1
    funext u
    split_ifs
    · exact h.inputFaults_padded _ _ _ _
    · rfl

theorem checkFaults_padded (h : Padding σ core lines) (uses : List ℕ) (checked : List (ℕ × ℕ)) :
    checkFaults lines (uses.map σ) (checked.map (Prod.map σ σ)) =
      (checkFaults core uses checked).map (Failure.move σ) := by
  have hσ : Function.Injective (Prod.map σ σ) := h.mono.injective.prodMap h.mono.injective
  induction uses generalizing checked with
  | nil => rfl
  | cons usesIndex rest ih =>
    rw [List.map_cons, checkFaults, checkFaults, h.stepBounds_padded]
    cases stepBounds core usesIndex with
    | none => exact ih checked
    | some bounds =>
      have hmem : (σ bounds.1, σ bounds.2) ∈ checked.map (Prod.map σ σ) ↔ bounds ∈ checked :=
        List.mem_map_of_injective hσ (a := bounds)
      dsimp only [Option.map_some]
      rw [if_congr hmem rfl rfl]
      split_ifs
      · exact ih checked
      · rw [List.map_append, h.stepFaults_padded, ← ih]
        rfl

theorem allowedUses_padded (h : Padding σ core lines) :
    allowedUses lines = (allowedUses core).map σ := by
  unfold allowedUses
  rw [← h.stop]
  exact h.filter_code (p := fun code => !isBlank code && (usesRe code).isSome)
    (fun code hb => by simp [hb]) startsAt_zero

theorem lineFaults_move (index : ℕ) (code : PyStr) :
    lineFaults (σ index) code = (lineFaults index code).map (Failure.move σ) := by
  unfold lineFaults
  rw [List.map_append]
  congr 1
  · cases usesRe code with
    | none => dsimp only; split_ifs <;> rfl
    | some uses => dsimp only; split_ifs <;> rfl
  · split_ifs <;> rfl

theorem syntaxFaults_padded (h : Padding σ core lines) :
    syntaxFaults lines = (syntaxFaults core).map (Failure.move σ) := by
  unfold syntaxFaults indices
  rw [← h.stop, flatMap_padded h.mono (fun i hi => if_pos (h.blank i hi)) startsAt_zero,
    List.map_flatMap]
  congr 1
  funext m
  rw [h.code]
  split_ifs
  · rfl
  · exact lineFaults_move m _

/-- Padded lines have the failures of the lines themselves, moved with their lines. -/
theorem faults_padded (h : Padding σ core lines) : faults lines = (faults core).map (Failure.move σ) := by
  unfold faults
  rw [List.map_append, h.syntaxFaults_padded, h.allowedUses_padded, ← h.checkFaults_padded]
  rfl

end Padding

/-! ## Lines that count -/

/-- The lines that are neither blank nor only a comment. -/
def codeLines (lines : List PyStr) : List PyStr :=
  lines.filter fun line => !isBlank (withoutYamlComment line)

/-- Where line `k` of those that count stands. -/
def place : List PyStr → ℕ → ℕ
  | [], k => k
  | line :: lines, k =>
    if isBlank (withoutYamlComment line) then place lines k + 1
    else
      match k with
      | 0 => 0
      | k + 1 => place lines k + 1

section Place

variable {line noise : PyStr} {before after : List PyStr}

theorem codeLines_cons_noise (h : isBlank (withoutYamlComment noise) = true) :
    codeLines (noise :: lines) = codeLines lines := by
  rw [codeLines, List.filter_cons_of_neg (by simp [h]), codeLines]

theorem codeLines_cons_code (h : isBlank (withoutYamlComment line) = false) :
    codeLines (line :: lines) = line :: codeLines lines := by
  rw [codeLines, List.filter_cons_of_pos (by simp [h]), codeLines]

/-- Such a line may be put in anywhere, and taken out. -/
theorem codeLines_insert (h : isBlank (withoutYamlComment noise) = true) :
    codeLines (before ++ noise :: after) = codeLines (before ++ after) := by
  unfold codeLines
  rw [List.filter_append, List.filter_append, List.filter_cons_of_neg (by simp [h])]

theorem place_noise (h : isBlank (withoutYamlComment noise) = true) :
    place (noise :: lines) = fun k => place lines k + 1 := by
  funext k
  rw [place.eq_def]
  exact if_pos h

theorem place_code_zero (h : isBlank (withoutYamlComment line) = false) :
    place (line :: lines) 0 = 0 := by
  rw [place.eq_def]
  exact if_neg (by simp [h])

theorem place_code_succ (h : isBlank (withoutYamlComment line) = false) (k : ℕ) :
    place (line :: lines) (k + 1) = place lines k + 1 := by
  rw [place.eq_def]
  exact if_neg (by simp [h])

theorem codeAt_cons_zero : codeAt (line :: lines) 0 = withoutYamlComment line := rfl

theorem codeAt_cons_succ (i : ℕ) : codeAt (line :: lines) (i + 1) = codeAt lines i := rfl

theorem not_mem_range_place {i : ℕ} (hi : i + 1 ∉ Set.range (place (line :: lines))) :
    i ∉ Set.range (place lines) := by
  rintro ⟨k, rfl⟩
  apply hi
  cases hline : isBlank (withoutYamlComment line) with
  | true => exact ⟨k, congrFun (place_noise hline) k⟩
  | false => exact ⟨k + 1, place_code_succ hline k⟩

end Place

/-- The lines are their lines that count, padded. -/
theorem padding_place : Padding (place lines) (codeLines lines) lines := by
  induction lines with
  | nil => exact ⟨strictMono_id, fun _ => rfl, fun i hi => absurd ⟨i, rfl⟩ hi, rfl⟩
  | cons line lines ih =>
    cases hline : isBlank (withoutYamlComment line) with
    | true =>
      have hplace : place (line :: lines) = fun k => place lines k + 1 := place_noise hline
      rw [codeLines_cons_noise hline]
      refine ⟨?_, fun k => ?_, fun i hi => ?_, ?_⟩
      · rw [hplace]
        exact ih.mono.add_const 1
      · rw [hplace, codeAt_cons_succ, ih.code]
      · cases i with
        | zero => exact hline
        | succ i => exact ih.blank i (not_mem_range_place hi)
      · rw [hplace, List.length_cons]
        exact congrArg (· + 1) ih.stop
    | false =>
      have hzero : place (line :: lines) 0 = 0 := place_code_zero hline
      have hsucc : ∀ k, place (line :: lines) (k + 1) = place lines k + 1 := place_code_succ hline
      rw [codeLines_cons_code hline]
      refine ⟨strictMono_nat_of_lt_succ fun k => ?_, fun k => ?_, fun i hi => ?_, ?_⟩
      · cases k with
        | zero => rw [hzero, hsucc]; exact Nat.succ_pos _
        | succ k => rw [hsucc, hsucc]; exact Nat.succ_lt_succ (ih.mono (Nat.lt_succ_self k))
      · cases k with
        | zero => rw [hzero, codeAt_cons_zero, codeAt_cons_zero]
        | succ k => rw [hsucc, codeAt_cons_succ, codeAt_cons_succ, ih.code]
      · cases i with
        | zero => exact absurd ⟨0, hzero⟩ hi
        | succ i => exact ih.blank i (not_mem_range_place hi)
      · rw [List.length_cons, List.length_cons, hsucc]
        exact congrArg (· + 1) ih.stop

/-- The messages for a text are those of its lines that count, numbered as the lines stand in it. -/
theorem validateWorkflowText_codeLines (text source : PyStr) :
    validateWorkflowText text source = (faults (codeLines (splitLines text))).map
      (Failure.text source fun k => place (splitLines text) k + 1) := by
  have h : Padding (place (splitLines text)) (codeLines (splitLines text)) (splitLines text) :=
    padding_place
  rw [validateWorkflowText_eq, h.faults_padded, List.map_map]
  congr 1
  funext failure
  exact failure.text_move source (· + 1) _

/-- Texts that differ only in blank lines and comments have the same failures, each at its own line. -/
theorem validateWorkflowText_reflow {text text' : PyStr} (source : PyStr)
    (h : codeLines (splitLines text) = codeLines (splitLines text')) :
    ∃ failures : List Failure,
      validateWorkflowText text source =
        failures.map (Failure.text source fun k => place (splitLines text) k + 1) ∧
      validateWorkflowText text' source =
        failures.map (Failure.text source fun k => place (splitLines text') k + 1) ∧
      (validateWorkflowText text source = [] ↔ validateWorkflowText text' source = []) := by
  have htext := validateWorkflowText_codeLines text source
  have htext' := validateWorkflowText_codeLines text' source
  rw [← h] at htext'
  refine ⟨_, htext, htext', ?_⟩
  rw [htext, htext', List.map_eq_nil_iff, List.map_eq_nil_iff]

/-- A mutable checkout without inputs, and the same with a comment and a blank line in between. -/
def bareCheckout : PyStr := lit "steps:\n  - uses: actions/checkout@v4\n  - uses: ./a\n    uses: ./b\n"

def commentedCheckout : PyStr := lit ("# ci\nsteps:\n  - uses: actions/checkout@v4\n\n  - uses: ./a\n" ++
  "# uses: ./c\n    uses: ./b\n")

theorem bareCheckout_reflow :
    codeLines (splitLines bareCheckout) = codeLines (splitLines commentedCheckout) ∧
    validateWorkflowText bareCheckout (lit "ci.yml") ≠ [] ∧
    ∃ failures : List Failure,
      validateWorkflowText bareCheckout (lit "ci.yml") =
        failures.map (Failure.text (lit "ci.yml") fun k => place (splitLines bareCheckout) k + 1) ∧
      validateWorkflowText commentedCheckout (lit "ci.yml") =
        failures.map (Failure.text (lit "ci.yml") fun k => place (splitLines commentedCheckout) k + 1) ∧
      (validateWorkflowText bareCheckout (lit "ci.yml") = [] ↔
        validateWorkflowText commentedCheckout (lit "ci.yml") = []) := by
  have hsame : codeLines (splitLines bareCheckout) = codeLines (splitLines commentedCheckout) := by
    decide +kernel
  exact ⟨hsame, by decide +kernel, validateWorkflowText_reflow (lit "ci.yml") hsame⟩

end Sentinel.Workflow
