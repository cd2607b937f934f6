import SentinelCore.Workflow

/-!
# The steps of a workflow

What the scans of `_step_bounds` and `_mapping_bounds` find, in terms of the layout of the text: a line
that is not blank has a depth (`depthAt`), and the bounds are those of the blocks of the layout.

1. The upward scan stops at the nearest line above that is less deep than the key, and finds a step
   exactly if that line opens an item (`stepStart_eq_some`).
2. The downward scan passes every line that is deeper than the dash (`lt_stepEnd`), so the line it
   started from lies in the step it found (`Step.lt_stop`).
3. The content of a mapping is what is deeper than its key (`lt_mappingEnd_iff`).
-/

namespace Sentinel.Workflow

open Py Lib

variable {lines : List PyStr} {code : PyStr} {i : ℕ}

/-! ## Lines -/

theorem indentOf_eq : indentOf code = (code.takeWhile isSpace).length := by
  have h := congrArg List.length (List.takeWhile_append_dropWhile (p := isSpace) (l := code))
  rw [List.length_append] at h
  unfold indentOf
  omega

theorem isBlank_iff : isBlank code = true ↔ code.dropWhile isSpace = [] := by
  unfold isBlank strip rstrip
  rw [decide_eq_true_iff, List.rdropWhile_eq_nil_iff]
  constructor
  · intro h
    by_contra hne
    exact List.dropWhile_get_zero_not isSpace code (List.length_pos_iff.mpr hne)
      (h _ (List.get_mem _ _))
  · intro h
    rw [h]
    exact fun c hc => absurd hc List.not_mem_nil

theorem codeAt_of_blank (h : isBlank (codeAt lines i) = true) : codeAt lines i = [] := by
  have hall : (codeAt lines i).all isSpace = true := by
    have hdrop := isBlank_iff.mp h
    have happ := List.takeWhile_append_dropWhile (p := isSpace) (l := codeAt lines i)
    rw [hdrop, List.append_nil] at happ
    rw [← happ]
    exact List.all_takeWhile
  have hidem : rstrip (codeAt lines i) = codeAt lines i := List.rdropWhile_idempotent ..
  rw [← hidem]
  exact List.rdropWhile_eq_nil_iff.mpr fun c hc => List.all_eq_true.mp hall c hc

/-- The depth of a line that is not blank. -/
def depthAt (lines : List PyStr) (index : ℕ) : Option ℕ :=
  if isBlank (codeAt lines index) then none else some (indentOf (codeAt lines index))

theorem depthAt_eq_some {d : ℕ} :
    depthAt lines i = some d ↔ isBlank (codeAt lines i) = false ∧ indentOf (codeAt lines i) = d := by
  unfold depthAt
  cases isBlank (codeAt lines i) with
  | true => exact ⟨(nomatch ·), fun h => nomatch h.1⟩
  | false => exact ⟨fun h => ⟨rfl, Option.some.inj h⟩, fun h => congrArg some h.2⟩

theorem usesRe_eq_some {uses : UsesMatch} (h : usesRe code = some uses) :
    uses.indent = code.takeWhile isSpace ∧
      ∃ after, dashGroup (code.dropWhile isSpace) = (uses.dash, lit "uses:" ++ after) := by
  unfold usesRe at h
  cases hg : dashGroup (code.dropWhile isSpace) with
  | mk dash rest =>
    rw [hg] at h
    dsimp only at h
    cases ha : (lit "uses:").isPrefixOf? rest with
    | none => rw [ha] at h; cases h
    | some after =>
      rw [ha] at h
      dsimp only at h
      split at h
      · obtain rfl := Option.some.inj h
        exact ⟨rfl, after, by rw [List.isPrefixOf?_eq_some_iff_append_eq.mp ha]⟩
      · cases h

theorem withRe_eq_some {indent : PyStr} (h : withRe code = some indent) :
    indent = code.takeWhile isSpace ∧ ∃ after, code.dropWhile isSpace = lit "with:" ++ after := by
  unfold withRe at h
  cases ha : (lit "with:").isPrefixOf? (code.dropWhile isSpace) with
  | none => rw [ha] at h; cases h
  | some after =>
    rw [ha] at h
    dsimp only at h
    split at h
    · exact ⟨(Option.some.inj h).symm, after, (List.isPrefixOf?_eq_some_iff_append_eq.mp ha).symm⟩
    · cases h

theorem persistRe_eq_some {indent value : PyStr} (h : persistRe code = some (indent, value)) :
    indent = code.takeWhile isSpace ∧
      ∃ after, code.dropWhile isSpace = lit "persist-credentials:" ++ after := by
  unfold persistRe at h
  cases ha : (lit "persist-credentials:").isPrefixOf? (code.dropWhile isSpace) with
  | none => rw [ha] at h; cases h
  | some after =>
    rw [ha] at h
    dsimp only at h
    split at h
    · obtain ⟨rfl, -⟩ := Prod.mk.inj (Option.some.inj h)
      exact ⟨rfl, after, (List.isPrefixOf?_eq_some_iff_append_eq.mp ha).symm⟩
    · cases h

/-- A line with something on it is as deep as its leading white space is long. -/
theorem depthAt_of_ne_nil (h : (codeAt lines i).dropWhile isSpace ≠ []) :
    depthAt lines i = some ((codeAt lines i).takeWhile isSpace).length := by
  refine depthAt_eq_some.mpr ⟨Bool.eq_false_iff.mpr fun hb => h (isBlank_iff.mp hb), indentOf_eq⟩

theorem usesRe_depth {uses : UsesMatch} (h : usesRe (codeAt lines i) = some uses) :
    depthAt lines i = some uses.indent.length := by
  obtain ⟨hindent, after, hgroup⟩ := usesRe_eq_some h
  rw [hindent]
  apply depthAt_of_ne_nil
  intro hnil
  rw [hnil] at hgroup
  exact absurd (Prod.mk.inj hgroup).2 (by simp [lit])

theorem withRe_depth {indent : PyStr} (h : withRe (codeAt lines i) = some indent) :
    depthAt lines i = some indent.length := by
  obtain ⟨rfl, after, hafter⟩ := withRe_eq_some h
  apply depthAt_of_ne_nil
  rw [hafter]
  exact List.cons_ne_nil _ _

theorem persistRe_depth {indent value : PyStr} (h : persistRe (codeAt lines i) = some (indent, value)) :
    depthAt lines i = some indent.length := by
  obtain ⟨rfl, after, hafter⟩ := persistRe_eq_some h
  apply depthAt_of_ne_nil
  rw [hafter]
  exact List.cons_ne_nil _ _

theorem stepStartRe_indent {indent : PyStr} (h : stepStartRe code = some indent) :
    indent.length = indentOf code := by
  unfold stepStartRe at h
  obtain ⟨dash, -, rfl⟩ := Option.map_eq_some_iff.mp h
  exact indentOf_eq.symm

/-! ## The upward scan -/

/-- The scan finds the nearest line above that is less deep than the key, if that line opens an item. -/
theorem stepStart_eq_some {usesIndent start column : ℕ} :
    ∀ {n : ℕ}, stepStart lines usesIndent n = some (start, column) →
      start < n ∧ depthAt lines start = some column ∧ (stepStartRe (codeAt lines start)).isSome ∧
        column < usesIndent ∧
        ∀ k d, start < k → k < n → depthAt lines k = some d → usesIndent ≤ d := by
  intro n
  induction n with
  | zero => exact (nomatch ·)
  | succ n ih =>
    intro h
    -- A line that stops the scan neither way is passed: it is blank or at least as deep as the key.
    have pass : stepStart lines usesIndent n = some (start, column) →
        (∀ d, depthAt lines n = some d → usesIndent ≤ d) →
        start < n + 1 ∧ depthAt lines start = some column ∧ (stepStartRe (codeAt lines start)).isSome ∧
          column < usesIndent ∧
          ∀ k d, start < k → k < n + 1 → depthAt lines k = some d → usesIndent ≤ d := by
      intro hn hdeep
      obtain ⟨hlt, hdepth, hdash, hcol, hk⟩ := ih hn
      refine ⟨by omega, hdepth, hdash, hcol, fun k d hsk hkn hd => ?_⟩
      by_cases hkn' : k = n
      · exact hdeep d (hkn' ▸ hd)
      · exact hk k d hsk (by omega) hd
    rw [stepStart] at h
    by_cases hb : isBlank (codeAt lines n) = true
    · rw [if_pos hb] at h
      exact pass h fun d hd => by rw [(depthAt_eq_some.mp hd).1] at hb; cases hb
    · rw [if_neg hb] at h
      have hb := Bool.eq_false_iff.mpr hb
      have deep : ¬ indentOf (codeAt lines n) < usesIndent →
          ∀ d, depthAt lines n = some d → usesIndent ≤ d := by
        intro hle d hd
        have := (depthAt_eq_some.mp hd).2
        omega
      cases hm : stepStartRe (codeAt lines n) with
      | none =>
        simp only [hm] at h
        by_cases hlt : indentOf (codeAt lines n) < usesIndent
        · rw [if_pos hlt] at h
          cases h
        · rw [if_neg hlt] at h
          exact pass h (deep hlt)
      | some indent =>
        simp only [hm] at h
        rw [stepStartRe_indent hm] at h
        by_cases hlt : indentOf (codeAt lines n) < usesIndent
        · rw [if_pos hlt] at h
          obtain ⟨rfl, rfl⟩ := Prod.mk.inj (Option.some.inj h)
          refine ⟨by omega, depthAt_eq_some.mpr ⟨hb, rfl⟩, by rw [hm]; rfl, hlt, fun k d hk hkn => ?_⟩
          omega
        · rw [if_neg hlt, if_neg hlt] at h
          exact pass h (deep hlt)

/-- The upward scan finds the dash of a step. -/
theorem stepStart_of_deep {usesIndent start column n : ℕ} (hlt : start < n)
    (hdepth : depthAt lines start = some column)
    (hdash : (stepStartRe (codeAt lines start)).isSome = true) (hcolumn : column < usesIndent)
    (hdeep : ∀ k d, start < k → k < n → depthAt lines k = some d → usesIndent ≤ d) :
    stepStart lines usesIndent n = some (start, column) := by
  induction n with
  | zero => omega
  | succ n ih =>
    rw [stepStart]
    by_cases heq : start = n
    · subst heq
      obtain ⟨hb, rfl⟩ := depthAt_eq_some.mp hdepth
      obtain ⟨indent, hindent⟩ := Option.isSome_iff_exists.mp hdash
      rw [hb, hindent]
      dsimp only
      rw [stepStartRe_indent hindent, if_pos hcolumn]
      rfl
    · have hrest := ih (by omega) fun k d hk hkn hd => hdeep k d hk (by omega) hd
      by_cases hb : isBlank (codeAt lines n) = true
      · rw [if_pos hb, hrest]
      · have hb := Bool.eq_false_iff.mpr hb
        have hle := hdeep n _ (by omega) (Nat.lt_succ_self n) (depthAt_eq_some.mpr ⟨hb, rfl⟩)
        have hnot : ¬indentOf (codeAt lines n) < usesIndent := by omega
        rw [hb, if_neg Bool.false_ne_true]
        cases hm : stepStartRe (codeAt lines n) with
        | none =>
          dsimp only
          rw [if_neg hnot, hrest]
        | some indent =>
          dsimp only
          rw [stepStartRe_indent hm, if_neg hnot, if_neg hnot, hrest]

/-! ## The bounds -/

/-- The step of `[start, stop)` around the `uses` line `i`, with its dash at `column`. -/
structure Step (lines : List PyStr) (i : ℕ) (uses : UsesMatch) (start stop column : ℕ) : Prop where
  depth : depthAt lines start = some column
  dash : (stepStartRe (codeAt lines start)).isSome
  stop_eq : stop = firstIndex (endsStep lines column) (start + 1) lines.length
  line : (uses.dash.isSome ∧ start = i ∧ column = uses.indent.length) ∨
    (uses.dash = none ∧ start < i ∧ column < uses.indent.length ∧
      ∀ k d, start < k → k < i → depthAt lines k = some d → uses.indent.length ≤ d)

theorem stepBounds_step {uses : UsesMatch} {start stop : ℕ} (h : usesRe (codeAt lines i) = some uses)
    (hb : stepBounds lines i = some (start, stop)) : ∃ column, Step lines i uses start stop column := by
  unfold stepBounds at hb
  rw [h] at hb
  obtain ⟨⟨s, column⟩, hopened, heq⟩ := Option.map_eq_some_iff.mp hb
  obtain ⟨rfl, hstop⟩ := Prod.mk.inj heq
  refine ⟨column, ?_⟩
  cases hd : uses.dash with
  | some dash =>
    rw [hd] at hopened
    obtain ⟨rfl, rfl⟩ := Prod.mk.inj (Option.some.inj hopened)
    refine ⟨usesRe_depth h, ?_, hstop.symm, .inl ⟨by rw [hd]; rfl, rfl, rfl⟩⟩
    unfold stepStartRe
    obtain ⟨-, after, hgroup⟩ := usesRe_eq_some h
    rw [hgroup, hd]
    rfl
  | none =>
    rw [hd] at hopened
    obtain ⟨hlt, hdepth, hdash, hcol, hdeep⟩ := stepStart_eq_some hopened
    exact ⟨hdepth, hdash, hstop.symm, .inr ⟨hd, hlt, hcol, hdeep⟩⟩

/-- A line that is deeper than the dash does not end the step. -/
theorem endsStep_eq_false {column k : ℕ} (h : ∀ d, depthAt lines k = some d → column < d) :
    endsStep lines column k = false := by
  unfold endsStep
  dsimp only
  cases hb : isBlank (codeAt lines k) with
  | true => rfl
  | false =>
    have hlt : column < indentOf (codeAt lines k) := h _ (depthAt_eq_some.mpr ⟨hb, rfl⟩)
    have hdash : ((stepStartRe (codeAt lines k)).any fun indent => indent.length = column) = false := by
      cases hm : stepStartRe (codeAt lines k) with
      | none => rfl
      | some indent =>
        rw [Option.any_some, stepStartRe_indent hm]
        exact decide_eq_false (by omega)
    rw [hdash, decide_eq_false (by omega)]
    rfl

/-- The downward scan passes what lies in the item of the dash. -/
theorem lt_stepEnd {start column j : ℕ} (h : Under (depthAt lines) start column j)
    (hj : j < lines.length) : j < firstIndex (endsStep lines column) (start + 1) lines.length :=
  lt_firstIndex_iff.mpr ⟨hj, fun k hk hkj => endsStep_eq_false fun d hd => h.2 k d hk hkj hd⟩

/-- The content of the mapping of the key at `line`: what is deeper than the key. -/
theorem lt_mappingEnd_iff {line keyIndent stop j : ℕ} (hj : line < j) :
    j < firstIndex (endsMapping lines keyIndent) (line + 1) stop ↔
      j < stop ∧ Under (depthAt lines) line keyIndent j := by
  rw [lt_firstIndex_iff]
  refine and_congr_right fun _ => ⟨fun h => ⟨hj, fun k d hk hkj hd => ?_⟩, fun h k hk hkj => ?_⟩
  · have hend := h k hk hkj
    obtain ⟨hb, rfl⟩ := depthAt_eq_some.mp hd
    unfold endsMapping at hend
    rw [hb] at hend
    simpa using hend
  · unfold endsMapping
    cases hb : isBlank (codeAt lines k) with
    | true => rfl
    | false => simpa using h.2 k _ hk hkj (depthAt_eq_some.mpr ⟨hb, rfl⟩)

namespace Step

variable {uses : UsesMatch} {start stop column : ℕ}

theorem le (s : Step lines i uses start stop column) : start ≤ i := by
  rcases s.line with ⟨-, h, -⟩ | ⟨-, h, -⟩ <;> omega

/-- The line lies in the item the scan found. -/
theorem under (s : Step lines i uses start stop column) (h : usesRe (codeAt lines i) = some uses)
    (hne : start ≠ i) : Under (depthAt lines) start column i := by
  rcases s.line with ⟨-, heq, -⟩ | ⟨-, hlt, hcol, hdeep⟩
  · exact absurd heq hne
  · refine ⟨hlt, fun k d hk hki hd => ?_⟩
    by_cases hik : k = i
    · rw [hik, usesRe_depth h] at hd
      obtain rfl := Option.some.inj hd
      exact hcol
    · exact hcol.trans_le (hdeep k d hk (by omega) hd)

theorem lt_stop (s : Step lines i uses start stop column) (h : usesRe (codeAt lines i) = some uses)
    (hi : i < lines.length) : i < stop := by
  rw [s.stop_eq]
  by_cases heq : start = i
  · exact lt_firstIndex_iff.mpr ⟨hi, fun k hk hki => by omega⟩
  · exact lt_stepEnd (s.under h heq) hi

end Step

end Sentinel.Workflow
