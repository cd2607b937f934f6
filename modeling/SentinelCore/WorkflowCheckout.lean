import SentinelCore.WorkflowKeys
import SentinelCore.WorkflowRule

/-!
# Checkout steps in accepted texts

1. A line has a range exactly if a dash line opens its step, and the range depends on that dash line only:
   it goes on to the next line that is less deep than the dash or has a dash at its column with something
   behind it (`stepBounds_eq_some`, `stopAt`).
2. Where the validator examines a step without a failure, one line of its range counts as the `with:`
   of the key, and all `persist-credentials` entries of the range lie in the mapping of that line
   (`Passed`, `passed_of_nil`).
3. The range holds the whole item (`Step.range`). So the rule is met exactly if the lines the validator
   counted are those of the item at the column of the key (`complies_iff`).
4. The range can be longer than the item, the validator looks for `with:` at the column of the dash when
   the key stands behind one (`not_complies_of_dash`), and it examines nothing where its upward scan
   gives up: acceptance says nothing about the lines in these cases (`accepted_complies_iff`).
-/

namespace Sentinel.Workflow

open Py Lib

/-- The line `start` opens the step of the `uses` line `i`: it has a dash with something behind it, and it is
the line of the key or the nearest line above that is less deep than the key. -/
def OpenedAt (lines : List PyStr) (i start : ℕ) : Prop :=
  ∃ uses, usesRe (codeAt lines i) = some uses ∧ (stepStartRe (codeAt lines start)).isSome = true ∧
    (start = i ∨ (uses.dash = none ∧ start < i ∧
      indentOf (codeAt lines start) < indentOf (codeAt lines i) ∧
      ∀ k d, start < k → k < i → depthAt lines k = some d → indentOf (codeAt lines i) ≤ d))

/-- The column of the dash of the line. -/
def dashColumn (lines : List PyStr) (start : ℕ) : ℕ := indentOf (codeAt lines start)

/-- Where a range that begins at the line ends. -/
def stopAt (lines : List PyStr) (start : ℕ) : ℕ :=
  firstIndex (endsStep lines (dashColumn lines start)) (start + 1) lines.length

/-- The line opens a block-style `with:` at the indentation of the line `i`, with no dash before it. -/
def AlignedWith (lines : List PyStr) (i j : ℕ) : Prop :=
  indentOf (codeAt lines j) = indentOf (codeAt lines i) ∧
    IsWith lines (indentOf (codeAt lines i)) j

/-- A dash line opens the step of the `uses` line `i`, and the `with:` lines at the indentation of line `i`,
from the dash line on and before the range ends, are those of the step at the column of the key. -/
def Seen (lines : List PyStr) (i : ℕ) : Prop :=
  ∃ start, OpenedAt lines i start ∧ ∀ j,
    (start ≤ j ∧ j < stopAt lines start ∧ AlignedWith lines i j) ↔
      ∃ item, StepOf lines i item ∧ InItem lines item j ∧ IsWith lines (keyColumn lines i) j

variable {lines : List PyStr} {code source : PyStr} {i : ℕ}

/-! ## What opens and ends a range -/

section Ranges

variable {k start stop column : ℕ}

theorem endsStep_iff : endsStep lines column k = true ↔ ∃ d, depthAt lines k = some d ∧
    (d < column ∨ (d = column ∧ (stepStartRe (codeAt lines k)).isSome = true)) := by
  unfold endsStep
  dsimp only
  rw [Bool.and_eq_true, Bool.or_eq_true, decide_eq_true_eq, Option.any_eq_true]
  constructor
  · rintro ⟨hb, h⟩
    refine ⟨_, depthAt_eq_some.mpr ⟨(Bool.not_eq_true' _).mp hb, rfl⟩, ?_⟩
    rcases h with hlt | ⟨indent, hindent, heq⟩
    · exact .inl hlt
    · refine .inr ⟨?_, Option.isSome_of_eq_some hindent⟩
      rw [← stepStartRe_indent hindent]
      exact of_decide_eq_true heq
  · rintro ⟨d, hd, h⟩
    obtain ⟨hb, rfl⟩ := depthAt_eq_some.mp hd
    refine ⟨(Bool.not_eq_true' _).mpr hb, ?_⟩
    rcases h with hlt | ⟨heq, hdash⟩
    · exact .inl hlt
    · obtain ⟨indent, hindent⟩ := Option.isSome_iff_exists.mp hdash
      exact .inr ⟨indent, hindent, decide_eq_true ((stepStartRe_indent hindent).trans heq)⟩

/-- A line that does not end the range is at least as deep as the dash, and deeper if it has a dash with
something behind it. -/
theorem endsStep_eq_false_iff : endsStep lines column k = false ↔ ∀ d, depthAt lines k = some d →
    column ≤ d ∧ ((stepStartRe (codeAt lines k)).isSome = true → column < d) := by
  rw [← Bool.not_eq_true, endsStep_iff]
  constructor
  · intro h d hd
    have hle : column ≤ d := not_lt.mp fun hlt => h ⟨d, hd, .inl hlt⟩
    exact ⟨hle, fun hdash => lt_of_le_of_ne hle fun heq => h ⟨d, hd, .inr ⟨heq.symm, hdash⟩⟩⟩
  · rintro h ⟨d, hd, hlt | ⟨rfl, hdash⟩⟩
    · exact absurd (h d hd).1 (not_le.mpr hlt)
    · exact absurd ((h d hd).2 hdash) (lt_irrefl d)

/-- The depth of a dash line is the column of its dash. -/
theorem depthAt_of_stepStartRe (h : (stepStartRe (codeAt lines start)).isSome = true) :
    depthAt lines start = some (dashColumn lines start) := by
  obtain ⟨d, hd, -⟩ := depthAt_of_mem (mem_dashColumns h)
  rw [hd]
  exact congrArg some (depthAt_eq_some.mp hd).2.symm

/-- A line has a range exactly if a dash line opens its step. -/
theorem stepBounds_eq_some :
    stepBounds lines i = some (start, stop) ↔ OpenedAt lines i start ∧ stop = stopAt lines start := by
  constructor
  · intro h
    cases huses : usesRe (codeAt lines i) with
    | none =>
      unfold stepBounds at h
      rw [huses] at h
      cases h
    | some uses =>
      obtain ⟨column, s⟩ := stepBounds_step huses h
      have hcolumn : dashColumn lines start = column := (depthAt_eq_some.mp s.depth).2
      have hindent := (depthAt_eq_some.mp (usesRe_depth huses)).2
      refine ⟨⟨uses, huses, s.dash, ?_⟩, ?_⟩
      · rcases s.line with ⟨-, heq, -⟩ | ⟨hnone, hlt, hless, hdeep⟩
        · exact .inl heq
        · refine .inr ⟨hnone, hlt, ?_, ?_⟩
          · rw [hindent]
            exact hcolumn.trans_lt hless
          · rwa [hindent]
      · rw [s.stop_eq, stopAt, hcolumn]
  · rintro ⟨⟨uses, huses, hdash, hline⟩, rfl⟩
    have hindent := (depthAt_eq_some.mp (usesRe_depth huses)).2
    unfold stepBounds
    rw [huses]
    dsimp only
    rcases hline with rfl | ⟨hnone, hlt, hless, hdeep⟩
    · obtain ⟨-, after, hgroup⟩ := usesRe_eq_some huses
      unfold stepStartRe at hdash
      rw [hgroup, Option.isSome_map] at hdash
      obtain ⟨dash, hd⟩ : ∃ dash, uses.dash = some dash := Option.isSome_iff_exists.mp hdash
      rw [hd]
      dsimp only
      rw [← hindent]
      rfl
    · rw [hnone]
      dsimp only
      rw [hindent] at hless hdeep
      rw [stepStart_of_deep hlt (depthAt_of_stepStartRe hdash) hdash hless hdeep]
      rfl

/-- The lines of a range behind its first one. -/
theorem lt_stopAt_iff : k < stopAt lines start ↔ k < lines.length ∧
    ∀ j, start < j → j ≤ k → endsStep lines (dashColumn lines start) j = false := by
  unfold stopAt
  rw [lt_firstIndex_iff]
  exact Iff.rfl

end Ranges

/-! ## Accepted texts -/

theorem mem_indices {start stop j : ℕ} : j ∈ indices start stop ↔ start ≤ j ∧ j < stop := by
  unfold indices
  rw [List.mem_range'_1]
  omega

theorem checkSteps_eq_nil {uses : List ℕ} {checked : List (ℕ × ℕ)}
    (h : checkSteps lines source uses checked = []) :
    ∀ j ∈ uses, ∀ bounds, stepBounds lines j = some bounds →
      bounds ∈ checked ∨ stepFailures lines source bounds.1 bounds.2 = [] := by
  induction uses generalizing checked with
  | nil => exact fun j hj => absurd hj List.not_mem_nil
  | cons first rest ih =>
    rw [checkSteps] at h
    cases hb : stepBounds lines first with
    | none =>
      rw [hb] at h
      intro j hj bounds hbounds
      rcases List.mem_cons.mp hj with rfl | hj
      · rw [hb] at hbounds
        cases hbounds
      · exact ih h j hj bounds hbounds
    | some b =>
      simp only [hb] at h
      by_cases hc : b ∈ checked
      · rw [if_pos hc] at h
        intro j hj bounds hbounds
        rcases List.mem_cons.mp hj with rfl | hj
        · rw [hb] at hbounds
          obtain rfl := Option.some.inj hbounds
          exact .inl hc
        · exact ih h j hj bounds hbounds
      · rw [if_neg hc, List.append_eq_nil_iff] at h
        intro j hj bounds hbounds
        rcases List.mem_cons.mp hj with rfl | hj
        · rw [hb] at hbounds
          obtain rfl := Option.some.inj hbounds
          exact .inr h.1
        · rcases ih h.2 j hj bounds hbounds with hmem | hnil
          · rcases List.mem_cons.mp hmem with rfl | hmem
            · exact .inr h.1
            · exact .inl hmem
          · exact .inr hnil

/-- In an accepted text the checkout inputs of every step the validator finds pass. -/
theorem inputs_of_accepted {start stop : ℕ} {uses : UsesMatch}
    (accepted : checkSteps lines source (allowedUses lines) [] = []) (hi : i < lines.length)
    (huses : usesRe (codeAt lines i) = some uses) (hcheckout : checkoutRe uses.value = true)
    (hbounds : stepBounds lines i = some (start, stop)) :
    validateCheckoutInputs lines source start stop (i + 1) uses.indent.length = [] := by
  obtain ⟨column, s⟩ := stepBounds_step huses hbounds
  have hallowed : i ∈ allowedUses lines := by
    refine List.mem_filter.mpr ⟨mem_indices.mpr ⟨Nat.zero_le i, hi⟩, ?_⟩
    rw [(depthAt_eq_some.mp (usesRe_depth huses)).1, huses]
    rfl
  rcases checkSteps_eq_nil accepted i hallowed _ hbounds with hmem | hnil
  · cases hmem
  · unfold stepFailures at hnil
    have hflat := (List.append_eq_nil_iff.mp hnil).2
    have hmem : (i + 1, uses) ∈ stepUses lines start stop := by
      refine List.mem_filterMap.mpr ⟨i, mem_indices.mpr ⟨s.le, s.lt_stop huses hi⟩, ?_⟩
      rw [huses]
      rfl
    have hline := List.flatMap_eq_nil_iff.mp hflat _ hmem
    dsimp only at hline
    rw [if_pos hcheckout] at hline
    exact hline

/-- In an accepted text every line with a `persist-credentials` key is one the validator reads. -/
theorem persistRe_of_accepted (accepted : syntaxFailures lines source = []) (hi : i < lines.length)
    (hkey : persistKeyRe (codeAt lines i) = true) : (persistRe (codeAt lines i)).isSome := by
  have hline := List.flatMap_eq_nil_iff.mp accepted i (mem_indices.mpr ⟨Nat.zero_le i, hi⟩)
  by_cases hb : isBlank (codeAt lines i) = true
  · rw [codeAt_of_blank hb] at hkey
    exact absurd hkey (by decide)
  · rw [if_neg hb] at hline
    unfold lineFailures at hline
    have hpersist := (List.append_eq_nil_iff.mp hline).2
    by_contra hnone
    rw [if_pos ⟨hkey, Option.not_isSome_iff_eq_none.mp hnone⟩] at hpersist
    cases hpersist

/-- Conversely a line the validator reads has the key. -/
theorem persistKeyRe_of_persistRe (h : (persistRe code).isSome) : persistKeyRe code = true := by
  obtain ⟨⟨indent, value⟩, hre⟩ := Option.isSome_iff_exists.mp h
  obtain ⟨-, after, hafter⟩ := persistRe_eq_some hre
  have hcode : code =
      code.takeWhile isSpace ++ (lit "persist-credentials" ++ chr ':' :: after) := by
    calc code = code.takeWhile isSpace ++ code.dropWhile isSpace :=
          List.takeWhile_append_dropWhile.symm
      _ = _ := by rw [hafter]; rfl
  exact keySearch_iff.mpr ⟨_, showsAt_of_space hcode (behind_takeWhile code) rfl⟩

/-! ## What the validator examined -/

/-- The range `[start, stop)` passed for the key at the indent `c`: one line `w` counts as its `with:`,
every `persist-credentials` line of the range is in the mapping of `w`, and `p` alone is at the first
level there, with the value false. -/
structure Passed (lines : List PyStr) (start stop c w p : ℕ) : Prop where
  counted : withLines lines start stop c = [w]
  inside : ∀ j, start ≤ j → j < stop → (persistRe (codeAt lines j)).isSome →
    Under (depthAt lines) w c j
  direct : ∀ j, (start ≤ j ∧ j < stop ∧ (persistRe (codeAt lines j)).isSome ∧
    ∀ k d d', Under (depthAt lines) w c k → k < stop → depthAt lines k = some d →
      depthAt lines j = some d' → d' ≤ d) ↔ j = p
  value : (persistRe (codeAt lines p)).map Prod.snd = some (lit "false")

theorem mem_withLines {start stop c j : ℕ} :
    j ∈ withLines lines start stop c ↔
      (start ≤ j ∧ j < stop) ∧ ∃ indent, withRe (codeAt lines j) = some indent ∧ indent.length = c := by
  unfold withLines
  rw [List.mem_filter, mem_indices, Option.any_eq_true]
  simp only [decide_eq_true_eq]

/-- The lines that the validator counts as the `with:` of line `i`. -/
theorem mem_withLines_indentOf {start stop j : ℕ} :
    j ∈ withLines lines start stop (indentOf (codeAt lines i)) ↔
      start ≤ j ∧ j < stop ∧ AlignedWith lines i j := by
  rw [mem_withLines, and_assoc]
  refine and_congr_right fun _ => and_congr_right fun _ => ⟨?_, fun ⟨hindent, hwith⟩ => ?_⟩
  · rintro ⟨indent, hwith, hindent⟩
    exact ⟨(depthAt_eq_some.mp (withRe_depth hwith)).2.trans hindent, hindent ▸ isWith_of_withRe hwith⟩
  · exact withRe_of_isWith hwith hindent

theorem mem_allPersist {start stop : ℕ} {q : PersistLine} :
    q ∈ allPersist lines start stop ↔
      (start ≤ q.index ∧ q.index < stop) ∧
        ∃ indent, persistRe (codeAt lines q.index) = some (indent, q.value) ∧ indent.length = q.indent := by
  unfold allPersist
  rw [List.mem_filterMap]
  constructor
  · rintro ⟨j, hj, hq⟩
    obtain ⟨⟨indent, value⟩, hpersist, rfl⟩ := Option.map_eq_some_iff.mp hq
    exact ⟨mem_indices.mp hj, indent, hpersist, rfl⟩
  · rintro ⟨hj, indent, hpersist, hindent⟩
    refine ⟨q.index, mem_indices.mpr hj, ?_⟩
    rw [hpersist, Option.map_some]
    show some (PersistLine.mk q.index indent.length q.value) = some q
    rw [hindent]

/-- The least indent of the content is at most that of every content line, and one line has it. -/
theorem firstLevelIndent_spec {content : List ℕ} (hne : content ≠ []) :
    (∃ k ∈ content, firstLevelIndent lines content = indentOf (codeAt lines k)) ∧
      ∀ k ∈ content, firstLevelIndent lines content ≤ indentOf (codeAt lines k) := by
  unfold firstLevelIndent
  cases hm : (content.map fun index => indentOf (codeAt lines index)).min? with
  | none => exact absurd (List.map_eq_nil_iff.mp (List.min?_eq_none_iff.mp hm)) hne
  | some m =>
    obtain ⟨hmem, hle⟩ := List.min?_eq_some_iff.mp hm
    obtain ⟨k, hk, rfl⟩ := List.mem_map.mp hmem
    exact ⟨⟨k, hk, rfl⟩, fun j hj => hle _ (List.mem_map.mpr ⟨j, hj, rfl⟩)⟩

theorem mem_content {w stop j : ℕ} :
    j ∈ contentLines lines (mappingBounds lines w stop).1 (mappingBounds lines w stop).2 ↔
      j < stop ∧ Under (depthAt lines) w (indentOf (codeAt lines w)) j ∧
        isBlank (codeAt lines j) = false := by
  unfold contentLines mappingBounds
  rw [List.mem_filter, mem_indices, Bool.not_eq_true']
  constructor
  · rintro ⟨⟨hwj, hlt⟩, hb⟩
    obtain ⟨hstop, hunder⟩ := (lt_mappingEnd_iff hwj).mp hlt
    exact ⟨hstop, hunder, hb⟩
  · rintro ⟨hstop, hunder, hb⟩
    exact ⟨⟨hunder.1, (lt_mappingEnd_iff hunder.1).mpr ⟨hstop, hunder⟩⟩, hb⟩

/-- What a check of the inputs without failures has seen. -/
theorem inputs_eq_nil {start stop line c : ℕ}
    (h : validateCheckoutInputs lines source start stop line c = []) :
    ∃ w, withLines lines start stop c = [w] ∧
      let bounds := mappingBounds lines w stop
      let inside := fun p : PersistLine => decide (bounds.1 ≤ p.index) && decide (p.index < bounds.2)
      let level := firstLevelIndent lines (contentLines lines bounds.1 bounds.2)
      contentLines lines bounds.1 bounds.2 ≠ [] ∧
      (∀ q ∈ allPersist lines start stop, inside q = true) ∧
      ∃ p, (allPersist lines start stop).filter (fun q => inside q && q.indent = level) = [p] ∧
        p.value = lit "false" := by
  unfold validateCheckoutInputs at h
  dsimp only at h
  split at h
  · next w hw =>
    refine ⟨w, hw, ?_⟩
    intro bounds inside level
    by_cases hc : contentLines lines bounds.1 bounds.2 = []
    · rw [if_pos hc] at h
      cases h
    · rw [if_neg hc, List.append_eq_nil_iff] at h
      obtain ⟨hout, hdirect⟩ := h
      refine ⟨hc, fun q hq => ?_, ?_⟩
      · split at hout
        · next hnil =>
          have hin : ¬ (!inside q) = true := List.filter_eq_nil_iff.mp hnil q hq
          simpa using hin
        · cases hout
      · split at hdirect
        · cases hdirect
        · next hone =>
          obtain ⟨hlen, hvalue⟩ := not_or.mp hone
          obtain ⟨p, hp⟩ := List.length_eq_one_iff.mp (not_not.mp hlen)
          refine ⟨p, hp, ?_⟩
          have := not_not.mp hvalue
          rw [hp] at this
          exact Option.some.inj this
  · cases h

theorem passed_of_nil {start stop line c : ℕ}
    (h : validateCheckoutInputs lines source start stop line c = []) :
    ∃ w p, Passed lines start stop c w p := by
  obtain ⟨w, hw, hne, hinside, q, hdirect, hvalue⟩ := inputs_eq_nil h
  obtain ⟨-, indentW, hwith, hcw⟩ := mem_withLines.mp (hw ▸ List.mem_singleton_self w)
  have hindent : indentOf (codeAt lines w) = c := by
    rw [(depthAt_eq_some.mp (withRe_depth hwith)).2, hcw]
  have hcontent : ∀ j, j ∈ contentLines lines (mappingBounds lines w stop).1
      (mappingBounds lines w stop).2 ↔
      j < stop ∧ Under (depthAt lines) w c j ∧ isBlank (codeAt lines j) = false :=
    fun j => hindent ▸ mem_content
  obtain ⟨⟨k, hk, hlevel⟩, hleast⟩ := @firstLevelIndent_spec lines _ hne
  -- Every `persist-credentials` line of the range is a content line.
  have hall : ∀ r ∈ allPersist lines start stop, Under (depthAt lines) w c r.index := by
    intro r hr
    have hin := hinside r hr
    rw [Bool.and_eq_true, decide_eq_true_eq, decide_eq_true_eq] at hin
    have hunder := ((lt_mappingEnd_iff hin.1).mp hin.2).2
    rwa [hindent] at hunder
  have hread : ∀ j, start ≤ j → j < stop → (persistRe (codeAt lines j)).isSome →
      ∃ r ∈ allPersist lines start stop, r.index = j ∧ depthAt lines j = some r.indent := by
    intro j hsj hjs hsome
    obtain ⟨⟨indent, value⟩, hpersist⟩ := Option.isSome_iff_exists.mp hsome
    exact ⟨⟨j, indent.length, value⟩, mem_allPersist.mpr ⟨⟨hsj, hjs⟩, indent, hpersist, rfl⟩, rfl,
      persistRe_depth hpersist⟩
  have hq : q ∈ allPersist lines start stop ∧ q.indent =
      firstLevelIndent lines (contentLines lines (mappingBounds lines w stop).1
        (mappingBounds lines w stop).2) := by
    have hmem := List.mem_filter.mp (hdirect ▸ List.mem_singleton_self q)
    rw [Bool.and_eq_true, decide_eq_true_eq] at hmem
    exact ⟨hmem.1, hmem.2.2⟩
  obtain ⟨hqrange, indentQ, hqpersist, hqindent⟩ := mem_allPersist.mp hq.1
  refine ⟨w, q.index, hw, fun j hsj hjs hsome => ?_, fun j => ⟨?_, ?_⟩, ?_⟩
  · obtain ⟨r, hr, rfl, -⟩ := hread j hsj hjs hsome
    exact hall r hr
  · rintro ⟨hsj, hjs, hsome, hmin⟩
    obtain ⟨r, hr, rfl, hdepth⟩ := hread j hsj hjs hsome
    -- No content line is less deep than `r`, so `r` is at the first level.
    have hrcontent : r.index ∈ contentLines lines (mappingBounds lines w stop).1
        (mappingBounds lines w stop).2 :=
      (hcontent _).mpr ⟨hjs, hall r hr, (depthAt_eq_some.mp hdepth).1⟩
    have hle : r.indent ≤ firstLevelIndent lines (contentLines lines (mappingBounds lines w stop).1
        (mappingBounds lines w stop).2) := by
      obtain ⟨hkstop, hkunder, hkb⟩ := (hcontent k).mp hk
      rw [hlevel]
      exact hmin k _ _ hkunder hkstop (depthAt_eq_some.mpr ⟨hkb, rfl⟩) hdepth
    have hge := hleast _ hrcontent
    rw [(depthAt_eq_some.mp hdepth).2] at hge
    have hmem : r ∈ [q] := by
      rw [← hdirect, List.mem_filter]
      refine ⟨hr, ?_⟩
      rw [Bool.and_eq_true, decide_eq_true_eq]
      exact ⟨hinside r hr, Nat.le_antisymm hle hge⟩
    rw [List.mem_singleton.mp hmem]
  · rintro rfl
    refine ⟨hqrange.1, hqrange.2, by rw [hqpersist]; rfl, fun k d d' hk hks hd hd' => ?_⟩
    obtain ⟨hb, rfl⟩ := depthAt_eq_some.mp hd
    rw [persistRe_depth hqpersist, hqindent, hq.2] at hd'
    obtain rfl := Option.some.inj hd'
    exact hleast k ((hcontent k).mpr ⟨hks, hk, hb⟩)
  · rw [hqpersist, ← hvalue]
    rfl

/-! ## The step and its range -/

namespace Step

variable {uses : UsesMatch} {start stop column : ℕ} {item : Item}

/-- The step of the line opens on the line that the upward scan found. -/
theorem item_line (s : Step lines i uses start stop column) (h : usesRe (codeAt lines i) = some uses)
    (hi : i < lines.length) (hstep : StepOf lines i item) : item.line = start := by
  have hcolumn := (depthAt_eq_some.mp s.depth).2
  have hfound : InItem lines ⟨start, column⟩ i := by
    refine ⟨hcolumn ▸ mem_dashColumns s.dash, hi, ?_⟩
    by_cases hne : start = i
    · exact .inl hne.symm
    · exact .inr (s.under h hne)
  have hle := hstep.2 _ hfound
  obtain ⟨⟨hdash, -, hitem⟩, -⟩ := hstep
  by_contra hne
  have hlt : start < item.line := by
    rcases hle with hlt | ⟨heq, -⟩
    · exact hlt
    · exact absurd heq.symm hne
  rcases s.line with ⟨-, rfl, -⟩ | ⟨hnone, -, -, hdeep⟩
  · rcases hitem with heq | hunder
    · omega
    · have := hunder.1
      omega
  · rcases hitem with rfl | hunder
    · rw [(usesRe_entry h hnone).2] at hdash
      cases hdash
    · -- A line between the dash and the key is at least as deep as the key.
      obtain ⟨d, hd, hdle⟩ := depthAt_of_mem hdash
      have hkey := hdeep item.line d hlt hunder.1 hd
      have := hunder.2 i _ hunder.1 le_rfl (usesRe_depth h)
      omega

/-- The range of the validator holds what lies below the dash of the step. -/
theorem range (s : Step lines i uses start stop column) (hline : item.line = start)
    (hdash : item.column ∈ dashColumns (codeAt lines item.line)) {j : ℕ} (hj : j < lines.length)
    (h : Under (depthAt lines) item.line item.column j) : start ≤ j ∧ j < stop := by
  obtain ⟨d, hd, hle⟩ := depthAt_of_mem hdash
  rw [hline, s.depth] at hd
  obtain rfl := Option.some.inj hd
  rw [hline] at h
  refine ⟨h.1.le, ?_⟩
  rw [s.stop_eq]
  exact lt_stepEnd (h.weaken hle) hj

theorem stop_le (s : Step lines i uses start stop column) {j : ℕ} (h : j < stop) :
    j < lines.length := by
  rw [s.stop_eq] at h
  exact (lt_firstIndex_iff.mp h).1

end Step

/-! ## The rule -/

section Rule

variable {uses : UsesMatch} {start stop column w p : ℕ}

/-- A step that meets the rule has its `with:` where the validator counted it. -/
theorem with_of_rule {item : Item} {w' p' : ℕ} (s : Step lines i uses start stop column)
    (h : usesRe (codeAt lines i) = some uses) (passed : Passed lines start stop uses.indent.length w p)
    (accepted : syntaxFailures lines source = []) (hline : item.line = start)
    (hw' : InItem lines item w' ∧ IsWith lines (keyColumn lines i) w')
    (hp' : DirectPersist lines w' (keyColumn lines i) p') : w' = w := by
  obtain ⟨hkey, hlt, hunder', -⟩ := hp'
  have hbelow := hw'.1.mapping hw'.2 hunder'
  obtain ⟨hsp, hps⟩ := s.range hline hw'.1.1 hlt hbelow
  have hunder := passed.inside p' hsp hps (persistRe_of_accepted accepted hlt hkey)
  obtain ⟨⟨hsw, -⟩, indentW, hwith, hcw⟩ :=
    mem_withLines.mp (passed.counted ▸ List.mem_singleton_self w)
  have hdepth : depthAt lines w = some uses.indent.length := hcw ▸ withRe_depth hwith
  rcases s.line with ⟨-, rfl, rfl⟩ | ⟨hnone, -, -, -⟩
  · -- Behind a dash the validator counts at the column of the dash, outside the item.
    obtain ⟨d, hd, hdle⟩ := depthAt_of_mem hw'.1.1
    rw [hline, s.depth] at hd
    obtain rfl := Option.some.inj hd
    have hne : start ≠ w := by
      rintro rfl
      have hentry := lt_entryFrom_of_mem (mem_dashColumns s.dash)
      have := withRe_entry hwith
      unfold entryOf at this
      omega
    have := hbelow.2 w _ (by omega) hunder.1.le hdepth
    omega
  · have hcolumn : keyColumn lines i = uses.indent.length := by
      unfold keyColumn
      rw [(usesRe_entry h hnone).1, (depthAt_eq_some.mp (usesRe_depth h)).2]
    rw [hcolumn] at hunder' hw'
    obtain ⟨d, hd, hdle⟩ := depthAt_of_isWith hw'.2
    exact hunder'.unique hunder hd hdle hdepth le_rfl

theorem seen_of_complies (s : Step lines i uses start stop column)
    (h : usesRe (codeAt lines i) = some uses) (hi : i < lines.length)
    (hbounds : stepBounds lines i = some (start, stop))
    (passed : Passed lines start stop uses.indent.length w p)
    (accepted : syntaxFailures lines source = []) (hc : Complies lines i) : Seen lines i := by
  obtain ⟨item, hstep, w', hw', p', hp', -⟩ := hc
  have hww : w' = w := with_of_rule s h passed accepted (s.item_line h hi hstep) ((hw' w').mpr rfl)
    ((hp' p').mpr rfl)
  obtain ⟨hopened, rfl⟩ := stepBounds_eq_some.mp hbounds
  refine ⟨start, hopened, fun j => ?_⟩
  rw [← mem_withLines_indentOf, (depthAt_eq_some.mp (usesRe_depth h)).2, passed.counted,
    List.mem_singleton]
  constructor
  · rintro rfl
    exact ⟨item, hstep, (hw' j).mpr hww.symm⟩
  · rintro ⟨item', hstep', hj⟩
    rw [← StepOf.unique hstep hstep'] at hj
    rw [(hw' j).mp hj, hww]

/-- The step that was seen is the one that passed, so its `with:` lines are the counted one. -/
theorem Seen.counted (hseen : Seen lines i) (h : usesRe (codeAt lines i) = some uses)
    (hbounds : stepBounds lines i = some (start, stop))
    (passed : Passed lines start stop uses.indent.length w p) (j : ℕ) :
    j = w ↔ ∃ item, StepOf lines i item ∧ InItem lines item j ∧ IsWith lines (keyColumn lines i) j := by
  obtain ⟨start', hopened, hlines⟩ := hseen
  rw [stepBounds_eq_some.mpr ⟨hopened, rfl⟩] at hbounds
  obtain ⟨rfl, rfl⟩ := Prod.mk.inj (Option.some.inj hbounds)
  rw [← hlines, ← mem_withLines_indentOf, (depthAt_eq_some.mp (usesRe_depth h)).2, passed.counted,
    List.mem_singleton]

theorem complies_of_seen (s : Step lines i uses start stop column)
    (h : usesRe (codeAt lines i) = some uses) (hi : i < lines.length)
    (hbounds : stepBounds lines i = some (start, stop))
    (passed : Passed lines start stop uses.indent.length w p)
    (accepted : syntaxFailures lines source = []) (hseen : Seen lines i) : Complies lines i := by
  have hcounted := hseen.counted h hbounds passed
  obtain ⟨item, hstep, hin, hwith⟩ := (hcounted w).mp rfl
  have hline := s.item_line h hi hstep
  -- The key's column is that of the counted `with:`.
  have hcolumn : keyColumn lines i = uses.indent.length := by
    obtain ⟨-, indentW, hre, hcw⟩ := mem_withLines.mp (passed.counted ▸ List.mem_singleton_self w)
    rw [← hwith.1, withRe_entry hre, (depthAt_eq_some.mp (withRe_depth hre)).2, hcw]
  have hrange : ∀ k, k < lines.length → Under (depthAt lines) w uses.indent.length k →
      start ≤ k ∧ k < stop := fun k hk hunder =>
    s.range hline hin.1 hk (hin.mapping hwith (hcolumn ▸ hunder))
  refine ⟨item, hstep, w, fun j => ⟨fun hj => ?_, ?_⟩, p, fun j => ?_, passed.value⟩
  · exact (hcounted j).mpr ⟨item, hstep, hj⟩
  · rintro rfl
    exact ⟨hin, hwith⟩
  · rw [hcolumn, ← passed.direct j]
    constructor
    · rintro ⟨hkey, hj, hunder, hmin⟩
      obtain ⟨hsj, hjs⟩ := hrange j hj hunder
      exact ⟨hsj, hjs, persistRe_of_accepted accepted hj hkey, fun k d d' hk hks =>
        hmin k d d' hk (s.stop_le hks)⟩
    · rintro ⟨hsj, hjs, hsome, hmin⟩
      refine ⟨persistKeyRe_of_persistRe hsome, s.stop_le hjs, passed.inside j hsj hjs hsome,
        fun k d d' hk hkn => hmin k d d' hk (hrange k hkn hk).2⟩

/-- In an accepted text a checkout line whose step the validator finds meets the rule exactly if the
validator counted the `with:` lines of that step. -/
theorem complies_iff {text : PyStr} (accepted : validateWorkflowText text source = [])
    (hcheckout : IsCheckout (splitLines text) i)
    (hfound : (stepBounds (splitLines text) i).isSome) :
    Complies (splitLines text) i ↔ Seen (splitLines text) i := by
  obtain ⟨hi, uses, h, hcommit⟩ := hcheckout
  obtain ⟨⟨start, stop⟩, hbounds⟩ := Option.isSome_iff_exists.mp hfound
  obtain ⟨hmarkers, hsteps⟩ := List.append_eq_nil_iff.mp accepted
  obtain ⟨column, s⟩ := stepBounds_step h hbounds
  obtain ⟨w, p, passed⟩ := passed_of_nil (inputs_of_accepted hsteps hi h hcommit hbounds)
  exact ⟨seen_of_complies s h hi hbounds passed hmarkers,
    complies_of_seen s h hi hbounds passed hmarkers⟩

end Rule

/-! ## Accepted texts and the rule -/

section Accepted

variable {text : PyStr}

/-- Where the key stands behind a dash, an accepted text never meets the rule. -/
theorem not_complies_of_dash {uses : UsesMatch} (accepted : validateWorkflowText text source = [])
    (hcheckout : IsCheckout (splitLines text) i) (h : usesRe (codeAt (splitLines text) i) = some uses)
    (hdash : uses.dash.isSome) : ¬ Complies (splitLines text) i := by
  intro hc
  obtain ⟨dash, hd⟩ := Option.isSome_iff_exists.mp hdash
  have hfound : (stepBounds (splitLines text) i).isSome := by
    unfold stepBounds
    rw [h]
    dsimp only
    rw [hd]
    rfl
  have hseen := (complies_iff accepted hcheckout hfound).mp hc
  obtain ⟨bounds, hbounds⟩ := Option.isSome_iff_exists.mp hfound
  obtain ⟨hi, uses', h', hcommit⟩ := hcheckout
  rw [h] at h'
  obtain rfl := Option.some.inj h'
  obtain ⟨-, hsteps⟩ := List.append_eq_nil_iff.mp accepted
  obtain ⟨w, p, passed⟩ := passed_of_nil (inputs_of_accepted hsteps hi h hcommit hbounds)
  have hindent := (depthAt_eq_some.mp (usesRe_depth h)).2
  obtain ⟨-, -, -, hwith⟩ := (hseen.counted h hbounds passed w).mp rfl
  -- The counted line is at the column of the dash, which is before that of the key.
  obtain ⟨-, indentW, hre, hcw⟩ := mem_withLines.mp (passed.counted ▸ List.mem_singleton_self w)
  have hcolumn := withRe_entry hre
  rw [hwith.1, (depthAt_eq_some.mp (withRe_depth hre)).2, hcw] at hcolumn
  have hopens : (stepStartRe (codeAt (splitLines text) i)).isSome := by
    obtain ⟨-, after, hgroup⟩ := usesRe_eq_some h
    unfold stepStartRe
    rw [hgroup, hd]
    rfl
  have hlt : indentOf (codeAt (splitLines text) i) < keyColumn (splitLines text) i :=
    lt_entryFrom_of_mem (mem_dashColumns hopens)
  omega

/-- All checkout lines of an accepted text belong to steps that meet the rule, exactly if the validator
saw the step of each, or no dash line opens it and the step meets the rule unexamined. -/
theorem accepted_complies_iff (accepted : validateWorkflowText text source = []) :
    (∀ i, IsCheckout (splitLines text) i → Complies (splitLines text) i) ↔
      ∀ i, IsCheckout (splitLines text) i → Seen (splitLines text) i ∨
        ((¬∃ start, OpenedAt (splitLines text) i start) ∧ Complies (splitLines text) i) := by
  refine forall_congr' fun i => forall_congr' fun hcheckout => ?_
  by_cases hopened : ∃ start, OpenedAt (splitLines text) i start
  · obtain ⟨start, h⟩ := hopened
    have hbounds := stepBounds_eq_some.mpr ⟨h, rfl⟩
    rw [complies_iff accepted hcheckout (Option.isSome_of_eq_some hbounds)]
    refine ⟨.inl, ?_⟩
    rintro (hseen | ⟨hnone, -⟩)
    · exact hseen
    · exact absurd ⟨start, h⟩ hnone
  · refine ⟨fun hc => .inr ⟨hopened, hc⟩, ?_⟩
    rintro (⟨start, h, -⟩ | ⟨-, hc⟩)
    · exact absurd ⟨start, h⟩ hopened
    · exact hc

end Accepted

/-- A workflow whose checkout step keeps no credentials. -/
def sampleText : PyStr := lit ("jobs:\n  test:\n    steps:\n      - name: Checkout\n" ++
  "        uses: actions/checkout@34e114876b0b11c390a56381ad16ebd13914f8d5\n        with:\n" ++
  "          persist-credentials: false\n")

theorem accepted_complies_iff_sample : validateWorkflowText sampleText (lit "ci.yml") = [] ∧
    IsCheckout (splitLines sampleText) 4 ∧
    ∀ i, IsCheckout (splitLines sampleText) i → Seen (splitLines sampleText) i ∨
      ((¬∃ start, OpenedAt (splitLines sampleText) i start) ∧ Complies (splitLines sampleText) i) := by
  have hrun : validateWorkflowText sampleText (lit "ci.yml") = [] ∧
      IsCheckout (splitLines sampleText) 4 ∧
      ∀ i < (splitLines sampleText).length, IsCheckout (splitLines sampleText) i →
        Complies (splitLines sampleText) i := by
    rw [sampleText]
    repeat rw [lit_append]
    repeat rw [lit_ofList]
    decide +kernel
  obtain ⟨accepted, hcheckout, complies⟩ := hrun
  exact ⟨accepted, hcheckout, (accepted_complies_iff accepted).mp fun i hi => complies i hi.1 hi⟩

/-- A checkout step whose dash stands on a line of its own. -/
def bareDashText : PyStr := lit ("jobs:\n  test:\n    steps:\n      -\n" ++
  "        uses: actions/checkout@34e114876b0b11c390a56381ad16ebd13914f8d5\n")

/-- The validator accepts the text, although its checkout step has no `with:` at all. -/
theorem bareDash_escapes : ¬ ∀ text source, validateWorkflowText text source = [] →
    ∀ i, IsCheckout (splitLines text) i → Complies (splitLines text) i := by
  intro h
  have hrun : validateWorkflowText bareDashText (lit "ci.yml") = [] ∧
      IsCheckout (splitLines bareDashText) 4 ∧ ¬Complies (splitLines bareDashText) 4 := by
    rw [bareDashText]
    repeat rw [lit_append]
    repeat rw [lit_ofList]
    decide +kernel
  obtain ⟨accepted, hcheckout, hnot⟩ := hrun
  exact hnot (h bareDashText (lit "ci.yml") accepted 4 hcheckout)

end Sentinel.Workflow
