import SentinelCore.WorkflowCheckout

/-!
# The ranges of the steps

What `_step_bounds` makes of a list of lines. The range of a `uses` line begins at the line with the dash
of its step and goes on to the next line that is less deep than the dash or has a dash at its column with
something behind it (`stepBounds_eq_some`).

1. Ranges nest (`nested_ranges`), the second pass examines each once, and the range of a line holds the
   whole step of the line (`range_holds`).
2. A dash alone on its line opens an item too, and it does not end a range: the ranges are those of the
   steps exactly if no such dash follows the lines of a step (`reconstructs_iff`).
-/

namespace Sentinel.Workflow

open Py Lib

variable {lines : List PyStr} {source : PyStr} {i j k start stop column : ℕ}

/-! ## Ranges nest -/

/-- Two ranges are equal, disjoint or nested. -/
def Nested (a b : ℕ × ℕ) : Prop :=
  a = b ∨ (a.2 ≤ b.1 ∨ b.2 ≤ a.1) ∨ ((a.1 ≤ b.1 ∧ b.2 ≤ a.2) ∨ (b.1 ≤ a.1 ∧ a.2 ≤ b.2))

theorem Nested.symm {a b : ℕ × ℕ} (h : Nested a b) : Nested b a := by
  obtain heq | (hle | hle) | hin | hin := h
  · exact .inl heq.symm
  · exact .inr (.inl (.inr hle))
  · exact .inr (.inl (.inl hle))
  · exact .inr (.inr (.inr hin))
  · exact .inr (.inr (.inl hin))

/-- A dash line inside of a range has its dash behind that of the range, so whatever ends the range ends that
of the line. -/
theorem stopAt_le_of_inside {other : ℕ} (hother : (stepStartRe (codeAt lines other)).isSome = true)
    (hlt : start < other) (hin : other < stopAt lines start) :
    stopAt lines other ≤ stopAt lines start := by
  have hpassed := (lt_stopAt_iff.mp hin).2 other hlt le_rfl
  have hcolumn : dashColumn lines start < dashColumn lines other :=
    (endsStep_eq_false_iff.mp hpassed _ (depthAt_of_stepStartRe hother)).2 hother
  refine firstIndex_le (fun k hk => ?_) hin
  obtain ⟨d, hd, h⟩ := endsStep_iff.mp hk
  refine endsStep_iff.mpr ⟨d, hd, .inl ?_⟩
  rcases h with hlt | ⟨rfl, -⟩
  · exact hlt.trans hcolumn
  · exact hcolumn

theorem OpenedAt.dash (h : OpenedAt lines i start) : (stepStartRe (codeAt lines start)).isSome = true := by
  obtain ⟨uses, -, hdash, -⟩ := h
  exact hdash

/-- The ranges of any two lines are equal, disjoint or nested. -/
theorem nested_ranges {a b : ℕ × ℕ} (ha : stepBounds lines i = some a) (hb : stepBounds lines j = some b) :
    Nested a b := by
  obtain ⟨start, stop⟩ := a
  obtain ⟨start', stop'⟩ := b
  obtain ⟨hopened, rfl⟩ := stepBounds_eq_some.mp ha
  obtain ⟨hopened', rfl⟩ := stepBounds_eq_some.mp hb
  have inside : ∀ {s s' : ℕ}, (stepStartRe (codeAt lines s')).isSome = true → s < s' →
      Nested (s, stopAt lines s) (s', stopAt lines s') := by
    intro s s' hdash hlt
    by_cases hin : s' < stopAt lines s
    · exact .inr (.inr (.inl ⟨hlt.le, stopAt_le_of_inside hdash hlt hin⟩))
    · exact .inr (.inl (.inl (not_lt.mp hin)))
  rcases Nat.lt_trichotomy start start' with hlt | rfl | hgt
  · exact inside hopened'.dash hlt
  · exact .inl rfl
  · exact (inside hopened.dash hgt).symm

/-! ## What the second pass examines -/

/-- The ranges that the second pass examines, over the remaining `uses` lines and with those already
checked. -/
def examined (lines : List PyStr) : List ℕ → List (ℕ × ℕ) → List (ℕ × ℕ)
  | [], _ => []
  | usesIndex :: rest, checked =>
    match stepBounds lines usesIndex with
    | none => examined lines rest checked
    | some bounds =>
      if bounds ∈ checked then examined lines rest checked
      else bounds :: examined lines rest (bounds :: checked)

/-- The ranges that the validator examines. -/
def examinedRanges (lines : List PyStr) : List (ℕ × ℕ) := examined lines (allowedUses lines) []

/-- The failures of the second pass are those of the ranges it examines. -/
theorem checkSteps_examined (uses : List ℕ) (checked : List (ℕ × ℕ)) :
    checkSteps lines source uses checked =
      (examined lines uses checked).flatMap fun b => stepFailures lines source b.1 b.2 := by
  induction uses generalizing checked with
  | nil => rfl
  | cons usesIndex rest ih =>
    rw [checkSteps, examined]
    cases hb : stepBounds lines usesIndex with
    | none => exact ih checked
    | some bounds =>
      dsimp only
      by_cases hc : bounds ∈ checked
      · rw [if_pos hc, if_pos hc, ih]
      · rw [if_neg hc, if_neg hc, List.flatMap_cons, ih]

theorem mem_examined {uses : List ℕ} {checked : List (ℕ × ℕ)} {b : ℕ × ℕ} :
    b ∈ examined lines uses checked ↔ b ∉ checked ∧ ∃ i ∈ uses, stepBounds lines i = some b := by
  induction uses generalizing checked with
  | nil => simp [examined]
  | cons usesIndex rest ih =>
    rw [examined]
    cases hb : stepBounds lines usesIndex with
    | none =>
      dsimp only
      rw [ih]
      simp [hb]
    | some bounds =>
      dsimp only
      by_cases hc : bounds ∈ checked
      · rw [if_pos hc, ih]
        refine and_congr_right fun hnot => ?_
        have hne : bounds ≠ b := fun heq => hnot (heq ▸ hc)
        simp [hb, hne]
      · rw [if_neg hc, List.mem_cons, ih, List.mem_cons, not_or]
        constructor
        · rintro (rfl | ⟨⟨-, hnot⟩, i, hi, hbounds⟩)
          · exact ⟨hc, usesIndex, List.mem_cons_self, hb⟩
          · exact ⟨hnot, i, List.mem_cons_of_mem _ hi, hbounds⟩
        · rintro ⟨hnot, i, hi, hbounds⟩
          by_cases heq : b = bounds
          · exact .inl heq
          · refine .inr ⟨⟨heq, hnot⟩, ?_⟩
            rcases List.mem_cons.mp hi with rfl | hi
            · exact absurd (Option.some.inj (hbounds.symm.trans hb)) heq
            · exact ⟨i, hi, hbounds⟩

theorem nodup_examined (uses : List ℕ) (checked : List (ℕ × ℕ)) : (examined lines uses checked).Nodup := by
  induction uses generalizing checked with
  | nil => exact List.nodup_nil
  | cons usesIndex rest ih =>
    rw [examined]
    cases hb : stepBounds lines usesIndex with
    | none => exact ih checked
    | some bounds =>
      dsimp only
      by_cases hc : bounds ∈ checked
      · rw [if_pos hc]
        exact ih checked
      · rw [if_neg hc, List.nodup_cons]
        exact ⟨fun hmem => (mem_examined.mp hmem).1 List.mem_cons_self, ih _⟩

/-- No two examined ranges begin at one dash line. -/
theorem nodup_starts : ((examinedRanges lines).map Prod.fst).Nodup := by
  refine (nodup_examined _ _).map_on fun a ha b hb heq => ?_
  obtain ⟨-, i, -, hi⟩ := mem_examined.mp ha
  obtain ⟨-, j, -, hj⟩ := mem_examined.mp hb
  obtain ⟨start, stop⟩ := a
  obtain ⟨start', stop'⟩ := b
  obtain rfl : start = start' := heq
  rw [(stepBounds_eq_some.mp hi).2, (stepBounds_eq_some.mp hj).2]

/-- The range of a line holds the step of the line, from its dash on. -/
theorem range_holds {bounds : ℕ × ℕ} (h : stepBounds lines i = some bounds) {item : Item}
    (hstep : StepOf lines i item) :
    item.line = bounds.1 ∧ ∀ j, InItem lines item j → bounds.1 ≤ j ∧ j < bounds.2 := by
  obtain ⟨start, stop⟩ := bounds
  obtain ⟨⟨uses, huses, -⟩, -⟩ := stepBounds_eq_some.mp h
  obtain ⟨column, s⟩ := stepBounds_step huses h
  have hline := s.item_line huses hstep.1.2.1 hstep
  refine ⟨hline, ?_⟩
  rintro j ⟨hdash, hj, rfl | hunder⟩
  · rw [hline] at hj ⊢
    refine ⟨le_rfl, ?_⟩
    rw [s.stop_eq]
    exact lt_firstIndex_iff.mpr ⟨hj, fun k hk hkj => by omega⟩
  · exact s.range hline hdash hj hunder

/-! ## Reconstructed steps -/

/-- The range of the `uses` line `i` is one step around it: it begins at a dash, and no line behind that dash
is less deep or opens an item at its column. -/
structure Brackets (lines : List PyStr) (i start stop : ℕ) : Prop where
  start_le : start ≤ i
  lt_stop : i < stop
  opens : dashColumn lines start ∈ dashColumns (codeAt lines start)
  deep : ∀ k d, start < k → k < stop → depthAt lines k = some d → dashColumn lines start ≤ d
  alone : ∀ k, start < k → k < stop → dashColumn lines start ∉ dashColumns (codeAt lines k)

/-- The steps of the lines are reconstructed: ranges are steps and nest, none is examined twice, and every
`uses` line with a range is examined in the step that contains it. -/
structure Reconstructs (lines : List PyStr) : Prop where
  brackets : ∀ i start stop, stepBounds lines i = some (start, stop) → Brackets lines i start stop
  nested : ∀ i j a b, stepBounds lines i = some a → stepBounds lines j = some b → Nested a b
  once : ((examinedRanges lines).map Prod.fst).Nodup
  contained : ∀ i bounds uses, stepBounds lines i = some bounds → usesRe (codeAt lines i) = some uses →
    bounds ∈ examinedRanges lines ∧ (i + 1, uses) ∈ stepUses lines bounds.1 bounds.2 ∧
      ∀ item, StepOf lines i item →
        item.line = bounds.1 ∧ ∀ j, InItem lines item j → bounds.1 ≤ j ∧ j < bounds.2

/-- The line `k` has nothing but a dash at the column of the dash of line `start`, and the lines between are at
least as deep as that dash, those that open an item with something behind it deeper. -/
def BareSibling (lines : List PyStr) (start k : ℕ) : Prop :=
  start < k ∧ k < lines.length ∧ (codeAt lines k).dropWhile isSpace = lit "-" ∧
    dashColumn lines k = dashColumn lines start ∧
    ∀ j d, start < j → j < k → depthAt lines j = some d → dashColumn lines start ≤ d ∧
      ((stepStartRe (codeAt lines j)).isSome = true → dashColumn lines start < d)

/-- The first dash of a line. -/
theorem mem_dashColumns_indentOf {code : PyStr} : indentOf code ∈ dashColumns code ↔
    ∃ rest, code.dropWhile isSpace = chr '-' :: rest ∧ opensItem rest = true := by
  unfold dashColumns
  rw [dashesFrom_spaces, Nat.zero_add, ← indentOf_eq]
  cases hd : code.dropWhile isSpace with
  | nil => simp [dashesFrom]
  | cons c rest =>
    have hs : isSpace c = false := by
      have hnot := List.dropWhile_get_zero_not isSpace code (by rw [hd]; exact Nat.succ_pos _)
      simpa [hd] using hnot
    rw [dashesFrom, if_neg (by simp [hs])]
    by_cases hopen : c = chr '-' ∧ opensItem rest = true
    · rw [if_pos hopen]
      exact ⟨fun _ => ⟨rest, by rw [hopen.1], hopen.2⟩, fun _ => List.mem_cons_self⟩
    · rw [if_neg hopen]
      refine ⟨fun h => absurd h List.not_mem_nil, ?_⟩
      rintro ⟨rest', heq, hrest⟩
      obtain ⟨rfl, rfl⟩ := List.cons.inj heq
      exact absurd ⟨rfl, hrest⟩ hopen

/-- A dash that opens an item has something behind it or is alone on its line. -/
theorem bare_of_opens (hopens : dashColumn lines k ∈ dashColumns (codeAt lines k))
    (hbare : (stepStartRe (codeAt lines k)).isSome = false) :
    (codeAt lines k).dropWhile isSpace = lit "-" := by
  obtain ⟨rest, hcode, hrest⟩ := mem_dashColumns_indentOf.mp hopens
  cases rest with
  | nil => exact hcode
  | cons c rest =>
    unfold stepStartRe at hbare
    have hspace : isSpace c = true := hrest
    rw [hcode, dashGroup, List.takeWhile_cons_of_pos hspace, if_pos ⟨rfl, List.cons_ne_nil _ _⟩] at hbare
    cases hbare

theorem stepStartRe_of_bare (h : (codeAt lines k).dropWhile isSpace = lit "-") :
    (stepStartRe (codeAt lines k)).isSome = false := by
  unfold stepStartRe
  rw [h]
  rfl

/-- An item at the column of the dash that the scan has passed is a bare one. -/
theorem bareSibling_iff : BareSibling lines start k ↔ start < k ∧ k < stopAt lines start ∧
    dashColumn lines start ∈ dashColumns (codeAt lines k) := by
  constructor
  · rintro ⟨hlt, hk, hbare, hcolumn, hbetween⟩
    refine ⟨hlt, lt_stopAt_iff.mpr ⟨hk, fun j hj hjk => endsStep_eq_false_iff.mpr fun d hd => ?_⟩, ?_⟩
    · by_cases heq : j = k
      · subst heq
        obtain ⟨-, rfl⟩ := depthAt_eq_some.mp hd
        rw [stepStartRe_of_bare hbare]
        exact ⟨hcolumn.ge, (nomatch ·)⟩
      · exact hbetween j d hj (by omega) hd
    · rw [← hcolumn]
      exact mem_dashColumns_indentOf.mpr ⟨[], hbare, rfl⟩
  · rintro ⟨hlt, hin, hopens⟩
    obtain ⟨hk, hpassed⟩ := lt_stopAt_iff.mp hin
    obtain ⟨d, hd, hle⟩ := depthAt_of_mem hopens
    obtain ⟨hge, hdeeper⟩ := endsStep_eq_false_iff.mp (hpassed k hlt le_rfl) d hd
    have hcolumn : dashColumn lines k = dashColumn lines start :=
      (depthAt_eq_some.mp hd).2.trans (Nat.le_antisymm hle hge)
    refine ⟨hlt, hk, bare_of_opens (hcolumn.symm ▸ hopens) (Bool.eq_false_iff.mpr fun hdash => ?_), hcolumn,
      fun j d hj hjk hd => endsStep_eq_false_iff.mp (hpassed j hj hjk.le) d hd⟩
    exact absurd (hdeeper hdash) (not_lt.mpr hle)

theorem lt_length_of_usesRe {uses : UsesMatch} (h : usesRe (codeAt lines i) = some uses) :
    i < lines.length := by
  by_contra hi
  have hcode : codeAt lines i = [] := by
    unfold codeAt
    rw [List.getD_eq_getElem?_getD, List.getElem?_eq_none (not_lt.mp hi)]
    rfl
  rw [hcode] at h
  cases h

/-- The range of a line is one step around it exactly if no bare sibling follows in it. -/
theorem brackets_iff (h : stepBounds lines i = some (start, stop)) :
    Brackets lines i start stop ↔ ∀ k, ¬BareSibling lines start k := by
  obtain ⟨hopened, rfl⟩ := stepBounds_eq_some.mp h
  constructor
  · intro brackets k hk
    obtain ⟨hlt, hin, hopens⟩ := bareSibling_iff.mp hk
    exact brackets.alone k hlt hin hopens
  · intro hnone
    obtain ⟨uses, huses, -⟩ := hopened
    obtain ⟨column, s⟩ := stepBounds_step huses h
    exact {
      start_le := s.le
      lt_stop := s.lt_stop huses (lt_length_of_usesRe huses)
      opens := mem_dashColumns s.dash
      deep := fun k d hlt hin hd =>
        (endsStep_eq_false_iff.mp ((lt_stopAt_iff.mp hin).2 k hlt le_rfl) d hd).1
      alone := fun k hlt hin hopens => hnone k (bareSibling_iff.mpr ⟨hlt, hin, hopens⟩) }

/-- A `uses` line with a range is among the lines that are examined with the range. -/
theorem examined_of_bounds {bounds : ℕ × ℕ} {uses : UsesMatch} (h : stepBounds lines i = some bounds)
    (huses : usesRe (codeAt lines i) = some uses) :
    bounds ∈ examinedRanges lines ∧ (i + 1, uses) ∈ stepUses lines bounds.1 bounds.2 := by
  obtain ⟨start, stop⟩ := bounds
  obtain ⟨column, s⟩ := stepBounds_step huses h
  have hi := lt_length_of_usesRe huses
  constructor
  · refine mem_examined.mpr ⟨List.not_mem_nil, i, ?_, h⟩
    refine List.mem_filter.mpr ⟨mem_indices.mpr ⟨Nat.zero_le i, hi⟩, ?_⟩
    rw [(depthAt_eq_some.mp (usesRe_depth huses)).1, huses]
    rfl
  · refine List.mem_filterMap.mpr ⟨i, mem_indices.mpr ⟨s.le, s.lt_stop huses hi⟩, ?_⟩
    rw [huses]
    rfl

/-- **The steps of a list of lines are reconstructed exactly if no bare dash follows the lines of a step at
the column of its dash.** -/
theorem reconstructs_iff : Reconstructs lines ↔
    ∀ i start, OpenedAt lines i start → ∀ k, ¬BareSibling lines start k := by
  constructor
  · intro h i start hopened
    have hbounds : stepBounds lines i = some (start, stopAt lines start) :=
      stepBounds_eq_some.mpr ⟨hopened, rfl⟩
    exact (brackets_iff hbounds).mp (h.brackets i start _ hbounds)
  · intro h
    exact {
      brackets := fun i start stop hbounds =>
        (brackets_iff hbounds).mpr (h i start (stepBounds_eq_some.mp hbounds).1)
      nested := fun i j a b => nested_ranges
      once := nodup_starts
      contained := fun i bounds uses hbounds huses => by
        obtain ⟨hexamined, huse⟩ := examined_of_bounds hbounds huses
        exact ⟨hexamined, huse, fun item => range_holds hbounds⟩ }

/-- Two steps, the second with its dash on a line of its own. -/
def bareSiblingText : PyStr := lit ("jobs:\n  test:\n    steps:\n      - name: Build\n" ++
  "        uses: ./build\n      -\n        name: Deploy\n        uses: ./deploy\n")

/-- The range of the first step holds the second one too. -/
theorem bareSibling_joined : ¬ ∀ lines, Reconstructs lines := by
  intro h
  have hrun : stepBounds (splitLines bareSiblingText) 4 = some (3, 8) ∧
      dashColumn (splitLines bareSiblingText) 3 ∈ dashColumns (codeAt (splitLines bareSiblingText) 5) := by
    rw [bareSiblingText]
    repeat rw [lit_append]
    repeat rw [lit_ofList]
    decide +kernel
  obtain ⟨hbounds, hopens⟩ := hrun
  exact ((h _).brackets 4 3 8 hbounds).alone 5 (by decide) (by decide) hopens

end Sentinel.Workflow
