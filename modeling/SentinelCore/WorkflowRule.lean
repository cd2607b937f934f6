import SentinelCore.WorkflowSteps

/-!
# The credential rule for checkout steps

A step is an item of a block sequence: a line with a dash and the lines after it that are deeper than
the dash. The rule wants one block-style `with:` at the column of the `uses` key of the step, with one
direct `persist-credentials` entry in its mapping, whose value is false. Lines are read one by one, as
the validator reads them: a block scalar or a quoted text over several lines is not told apart.

1. Every part of the rule speaks about the lines of the text only, so the rule can be decided
   (`complies_iff_bounded`).
2. What stands on a line is behind its indentation and its dashes (`lt_entryFrom_of_mem`), so the
   mapping of a key in an item lies in the item (`InItem.mapping`).
-/

namespace Sentinel.Workflow

open Py Lib

/-! ## Items and entries -/

/-- Whether a dash opens an item: white space follows it, or nothing. -/
def opensItem (rest : PyStr) : Bool :=
  match rest with
  | [] => true
  | c :: _ => isSpace c

/-- The columns of the dashes that open an item on the line, from the column read so far. -/
def dashesFrom (column : ℕ) : PyStr → List ℕ
  | [] => []
  | c :: rest =>
    if isSpace c then dashesFrom (column + 1) rest
    else if c = chr '-' ∧ opensItem rest then column :: dashesFrom (column + 1) rest
    else []

def dashColumns (code : PyStr) : List ℕ := dashesFrom 0 code

/-- What stands on the line behind its indentation and its dashes, with its column. -/
def entryFrom (column : ℕ) : PyStr → ℕ × PyStr
  | [] => (column, [])
  | c :: rest =>
    if isSpace c ∨ (c = chr '-' ∧ opensItem rest) then entryFrom (column + 1) rest
    else (column, c :: rest)

def entryOf (code : PyStr) : ℕ × PyStr := entryFrom 0 code

/-- An item of a block sequence: the line of its dash and the dash's column. -/
structure Item where
  line : ℕ
  column : ℕ

/-- The line `j` lies in the item: it opens the item, or everything from there to it is deeper. -/
def InItem (lines : List PyStr) (item : Item) (j : ℕ) : Prop :=
  item.column ∈ dashColumns (codeAt lines item.line) ∧ j < lines.length ∧
    (j = item.line ∨ Under (depthAt lines) item.line item.column j)

/-- The step of line `i`: the innermost item the line lies in. -/
def StepOf (lines : List PyStr) (i : ℕ) (item : Item) : Prop :=
  InItem lines item i ∧ ∀ item', InItem lines item' i →
    item'.line < item.line ∨ (item'.line = item.line ∧ item'.column ≤ item.column)

/-- The line opens a block-style `with:` mapping at the column. -/
def IsWith (lines : List PyStr) (column j : ℕ) : Prop :=
  (entryOf (codeAt lines j)).1 = column ∧ rstrip (entryOf (codeAt lines j)).2 = lit "with:"

/-- The line `j` is a direct `persist-credentials` entry of the mapping that the key at `line` and
`column` opens: no line of the mapping is less deep. -/
def DirectPersist (lines : List PyStr) (line column j : ℕ) : Prop :=
  persistKeyRe (codeAt lines j) = true ∧ j < lines.length ∧ Under (depthAt lines) line column j ∧
    ∀ k d d', Under (depthAt lines) line column k → k < lines.length → depthAt lines k = some d →
      depthAt lines j = some d' → d' ≤ d

/-- The rule for the item and the column of its `uses` key. -/
def Rule (lines : List PyStr) (item : Item) (column : ℕ) : Prop :=
  ∃ w, (∀ j, InItem lines item j ∧ IsWith lines column j ↔ j = w) ∧
    ∃ p, (∀ j, DirectPersist lines w column j ↔ j = p) ∧
      (persistRe (codeAt lines p)).map Prod.snd = some (lit "false")

/-- The column of the key on the line. -/
def keyColumn (lines : List PyStr) (i : ℕ) : ℕ := (entryOf (codeAt lines i)).1

/-- The checkout line `i` belongs to a step that meets the rule. -/
def Complies (lines : List PyStr) (i : ℕ) : Prop :=
  ∃ item, StepOf lines i item ∧ Rule lines item (keyColumn lines i)

/-- The line is a `uses` line of the checkout action at a commit. -/
def IsCheckout (lines : List PyStr) (i : ℕ) : Prop :=
  i < lines.length ∧ ∃ uses, usesRe (codeAt lines i) = some uses ∧ checkoutRe uses.value = true

variable {lines : List PyStr} {code : PyStr} {i : ℕ}

/-! ## Columns -/

theorem dashesFrom_spaces (column : ℕ) :
    dashesFrom column code =
      dashesFrom (column + (code.takeWhile isSpace).length) (code.dropWhile isSpace) := by
  induction code generalizing column with
  | nil => rfl
  | cons c rest ih =>
    by_cases hc : isSpace c = true
    · rw [dashesFrom, if_pos hc, ih (column + 1), List.takeWhile_cons_of_pos hc,
        List.dropWhile_cons_of_pos hc, List.length_cons]
      congr 1
      omega
    · rw [List.takeWhile_cons_of_neg hc, List.dropWhile_cons_of_neg hc]
      rfl

theorem entryFrom_spaces (column : ℕ) :
    entryFrom column code =
      entryFrom (column + (code.takeWhile isSpace).length) (code.dropWhile isSpace) := by
  induction code generalizing column with
  | nil => rfl
  | cons c rest ih =>
    by_cases hc : isSpace c = true
    · rw [entryFrom, if_pos (Or.inl hc), ih (column + 1), List.takeWhile_cons_of_pos hc,
        List.dropWhile_cons_of_pos hc, List.length_cons]
      congr 1
      omega
    · rw [List.takeWhile_cons_of_neg hc, List.dropWhile_cons_of_neg hc]
      rfl

theorem le_of_mem_dashesFrom {column c : ℕ} (h : c ∈ dashesFrom column code) : column ≤ c := by
  induction code generalizing column with
  | nil => cases h
  | cons d rest ih =>
    unfold dashesFrom at h
    split_ifs at h with hs hd
    · have := ih h
      omega
    · rcases List.mem_cons.mp h with rfl | h
      · exact le_rfl
      · have := ih h
        omega
    · cases h

theorem le_entryFrom (column : ℕ) : column ≤ (entryFrom column code).1 := by
  induction code generalizing column with
  | nil => exact le_rfl
  | cons c rest ih =>
    unfold entryFrom
    split
    · have := ih (column + 1)
      omega
    · exact le_rfl

/-- What stands on the line is behind its dashes. -/
theorem lt_entryFrom_of_mem {column c : ℕ} (h : c ∈ dashesFrom column code) :
    c < (entryFrom column code).1 := by
  induction code generalizing column with
  | nil => cases h
  | cons d rest ih =>
    unfold dashesFrom at h
    unfold entryFrom
    split_ifs at h with hs hd
    · rw [if_pos (Or.inl hs)]
      exact ih h
    · rw [if_pos (Or.inr hd)]
      rcases List.mem_cons.mp h with rfl | h
      · exact le_entryFrom (c + 1)
      · exact ih h
    · cases h

theorem indentOf_le_of_mem {c : ℕ} (h : c ∈ dashColumns code) : indentOf code ≤ c := by
  unfold dashColumns at h
  rw [dashesFrom_spaces, Nat.zero_add, ← indentOf_eq] at h
  exact le_of_mem_dashesFrom h

theorem indentOf_le_entryOf : indentOf code ≤ (entryOf code).1 := by
  unfold entryOf
  rw [entryFrom_spaces, Nat.zero_add, ← indentOf_eq]
  exact le_entryFrom _

/-- A line whose text starts with no dash is its own entry and opens no item. -/
theorem entryOf_of_head {c : CodePoint} {rest : PyStr} (h : code.dropWhile isSpace = c :: rest)
    (hc : c ≠ chr '-') : (entryOf code).1 = indentOf code ∧ dashColumns code = [] := by
  have hs : isSpace c = false := by
    have hnot := List.dropWhile_get_zero_not isSpace code (by rw [h]; exact Nat.succ_pos _)
    simpa [h] using hnot
  unfold entryOf dashColumns
  rw [entryFrom_spaces, dashesFrom_spaces, h, Nat.zero_add, ← indentOf_eq, entryFrom, dashesFrom,
    if_neg (by simp [hs, hc]), if_neg (by simp [hs]), if_neg (by simp [hc])]
  exact ⟨rfl, rfl⟩

theorem mem_dashColumns (h : (stepStartRe code).isSome) : indentOf code ∈ dashColumns code := by
  unfold stepStartRe at h
  rw [Option.isSome_map] at h
  unfold dashColumns
  rw [dashesFrom_spaces, Nat.zero_add, ← indentOf_eq]
  cases hd : code.dropWhile isSpace with
  | nil => rw [hd] at h; cases h
  | cons c rest =>
    have hs : isSpace c = false := by
      have hnot := List.dropWhile_get_zero_not isSpace code (by rw [hd]; exact Nat.succ_pos _)
      simpa [hd] using hnot
    rw [hd, dashGroup] at h
    split at h
    · next hdash =>
      have hopen : opensItem rest = true := by
        cases rest with
        | nil => rfl
        | cons d rest =>
          by_contra hne
          exact hdash.2 (List.takeWhile_cons_of_neg hne)
      rw [dashesFrom, if_neg (by simp [hs]), if_pos ⟨hdash.1, hopen⟩]
      exact List.mem_cons_self
    · cases h

theorem usesRe_entry {uses : UsesMatch} (h : usesRe code = some uses) (hd : uses.dash = none) :
    (entryOf code).1 = indentOf code ∧ dashColumns code = [] := by
  obtain ⟨-, after, hgroup⟩ := usesRe_eq_some h
  rw [hd] at hgroup
  cases hcode : code.dropWhile isSpace with
  | nil =>
    rw [hcode] at hgroup
    exact absurd (Prod.mk.inj hgroup).2 (by simp [lit])
  | cons c rest =>
    rw [hcode, dashGroup] at hgroup
    split at hgroup
    · cases (Prod.mk.inj hgroup).1
    · refine entryOf_of_head hcode fun hc => ?_
      have hhead : c = chr 'u' := (List.cons.inj (Prod.mk.inj hgroup).2).1
      rw [hc] at hhead
      exact absurd hhead (by decide)

theorem withRe_entry {indent : PyStr} (h : withRe code = some indent) :
    (entryOf code).1 = indentOf code := by
  obtain ⟨-, after, hafter⟩ := withRe_eq_some h
  exact (entryOf_of_head hafter (by decide)).1

/-- A line whose entry stands at its indentation has no dash before the entry. -/
theorem entryOf_of_indent (h : (entryOf code).1 = indentOf code) :
    (entryOf code).2 = code.dropWhile isSpace := by
  unfold entryOf at h ⊢
  rw [entryFrom_spaces, Nat.zero_add, ← indentOf_eq] at h ⊢
  cases hcode : code.dropWhile isSpace with
  | nil => rfl
  | cons c rest =>
    rw [hcode, entryFrom] at h
    rw [entryFrom]
    split at h
    · have hle : indentOf code + 1 ≤ (entryFrom (indentOf code + 1) rest).1 := le_entryFrom _
      omega
    · next hnot => rw [if_neg hnot]

theorem withRe_iff {indent : PyStr} : withRe code = some indent ↔ indent = code.takeWhile isSpace ∧
    ∃ t, code.dropWhile isSpace = lit "with:" ++ t ∧ t.all isSpace = true := by
  constructor
  · intro h
    obtain ⟨hindent, t, ht⟩ := withRe_eq_some h
    refine ⟨hindent, t, ht, ?_⟩
    unfold withRe at h
    rw [List.isPrefixOf?_eq_some_iff_append_eq.mpr ht.symm] at h
    dsimp only at h
    by_contra hspaces
    rw [if_neg hspaces] at h
    cases h
  · rintro ⟨rfl, t, ht, hspaces⟩
    unfold withRe
    rw [List.isPrefixOf?_eq_some_iff_append_eq.mpr ht.symm]
    exact if_pos hspaces

theorem isWith_of_withRe {indent : PyStr} {w : ℕ} (h : withRe (codeAt lines w) = some indent) :
    IsWith lines indent.length w := by
  obtain ⟨-, t, ht, hspaces⟩ := withRe_iff.mp h
  refine ⟨(withRe_entry h).trans (depthAt_eq_some.mp (withRe_depth h)).2, ?_⟩
  rw [entryOf_of_indent (withRe_entry h), ht, rstrip_append_spaces hspaces]
  decide

theorem withRe_of_isWith {column w : ℕ} (h : IsWith lines column w)
    (hindent : indentOf (codeAt lines w) = column) :
    ∃ indent, withRe (codeAt lines w) = some indent ∧ indent.length = column := by
  obtain ⟨hcolumn, hentry⟩ := h
  obtain ⟨t, ht, hspaces⟩ := exists_rstrip (entryOf (codeAt lines w)).2
  rw [hentry, entryOf_of_indent (hcolumn.trans hindent.symm)] at ht
  exact ⟨_, withRe_iff.mpr ⟨rfl, t, ht, hspaces⟩, indentOf_eq.symm.trans hindent⟩

/-! ## Items -/

theorem depthAt_of_mem {c : ℕ} (h : c ∈ dashColumns (codeAt lines i)) :
    ∃ d, depthAt lines i = some d ∧ d ≤ c := by
  refine ⟨_, depthAt_eq_some.mpr ⟨Bool.eq_false_iff.mpr fun hb => ?_, rfl⟩, indentOf_le_of_mem h⟩
  rw [codeAt_of_blank hb] at h
  cases h

theorem depthAt_of_isWith {column : ℕ} (h : IsWith lines column i) :
    ∃ d, depthAt lines i = some d ∧ d ≤ column := by
  refine ⟨_, depthAt_eq_some.mpr ⟨Bool.eq_false_iff.mpr fun hb => ?_, rfl⟩,
    h.1 ▸ indentOf_le_entryOf⟩
  have hwith := h.2
  rw [codeAt_of_blank hb] at hwith
  exact absurd hwith (by decide)

/-- The mapping of a `with:` in an item lies in the item, below its dash. -/
theorem InItem.mapping {item : Item} {column w k : ℕ} (h : InItem lines item w)
    (hwith : IsWith lines column w) (hk : Under (depthAt lines) w column k) :
    Under (depthAt lines) item.line item.column k := by
  obtain ⟨hdash, -, rfl | hunder⟩ := h
  · refine hk.weaken ?_
    rw [← hwith.1]
    exact (lt_entryFrom_of_mem hdash).le
  · refine hunder.trans hk ?_
    obtain ⟨d, hd, hle⟩ := depthAt_of_isWith hwith
    exact (hunder.2 w d hunder.1 le_rfl hd).le.trans hle

theorem StepOf.unique {item item' : Item} (h : StepOf lines i item) (h' : StepOf lines i item') :
    item = item' := by
  have hle := h.2 item' h'.1
  have hle' := h'.2 item h.1
  have hline : item.line = item'.line := by omega
  have hcolumn : item.column = item'.column := by omega
  cases item
  cases item'
  exact congrArg₂ Item.mk hline hcolumn

/-! ## Deciding the rule -/

section Deciding

variable {j column line : ℕ} {item : Item}

instance : Decidable (InItem lines item j) := by unfold InItem; infer_instance
instance : Decidable (IsWith lines column j) := by unfold IsWith; infer_instance

theorem InItem.line_le (h : InItem lines item j) : item.line ≤ j := by
  rcases h.2.2 with h | h
  · omega
  · exact h.1.le

theorem stepOf_iff : StepOf lines i item ↔ InItem lines item i ∧
    ∀ l < i + 1, ∀ c ∈ dashColumns (codeAt lines l), InItem lines ⟨l, c⟩ i →
      l < item.line ∨ (l = item.line ∧ c ≤ item.column) := by
  refine and_congr_right fun _ => ⟨fun h l _ c _ hin => h ⟨l, c⟩ hin, fun h item' hin => ?_⟩
  exact h item'.line (Nat.lt_succ_of_le hin.line_le) item'.column hin.1 hin

instance : Decidable (StepOf lines i item) := decidable_of_iff' _ stepOf_iff

theorem directPersist_iff : DirectPersist lines line column j ↔
    persistKeyRe (codeAt lines j) = true ∧ j < lines.length ∧ Under (depthAt lines) line column j ∧
      ∀ k < lines.length, Under (depthAt lines) line column k →
        (depthAt lines k).all fun d => (depthAt lines j).all fun d' => d' ≤ d := by
  refine and_congr_right fun _ => and_congr_right fun _ => and_congr_right fun _ =>
    ⟨fun h k hk hu => ?_, fun h k d d' hu hk hd hd' => ?_⟩
  · cases hd : depthAt lines k with
    | none => rfl
    | some d =>
      cases hd' : depthAt lines j with
      | none => rfl
      | some d' => exact decide_eq_true (h k d d' hu hk hd hd')
  · have := h k hk hu
    rw [hd, hd'] at this
    exact of_decide_eq_true this

instance : Decidable (DirectPersist lines line column j) := decidable_of_iff' _ directPersist_iff

theorem rule_iff : Rule lines item column ↔
    ∃ w < lines.length, (IsWith lines column w ∧ InItem lines item w) ∧
      (∀ j < lines.length, IsWith lines column j → InItem lines item j → j = w) ∧
      ∃ p < lines.length, DirectPersist lines w column p ∧
        (∀ j < lines.length, DirectPersist lines w column j → j = p) ∧
        (persistRe (codeAt lines p)).map Prod.snd = some (lit "false") := by
  constructor
  · rintro ⟨w, hw, p, hp, hvalue⟩
    obtain ⟨hin, hwith⟩ := (hw w).mpr rfl
    have hdirect := (hp p).mpr rfl
    exact ⟨w, hin.2.1, ⟨hwith, hin⟩, fun j _ h h' => (hw j).mp ⟨h', h⟩, p, hdirect.2.1, hdirect,
      fun j _ h => (hp j).mp h, hvalue⟩
  · rintro ⟨w, -, ⟨hwith, hin⟩, hw, p, -, hdirect, hp, hvalue⟩
    refine ⟨w, fun j => ⟨fun h => hw j h.1.2.1 h.2 h.1, ?_⟩, p, fun j => ⟨fun h => hp j h.2.1 h, ?_⟩, hvalue⟩
    · rintro rfl
      exact ⟨hin, hwith⟩
    · rintro rfl
      exact hdirect

instance : Decidable (Rule lines item column) := decidable_of_iff' _ rule_iff

theorem complies_iff_bounded : Complies lines i ↔ ∃ l < i + 1, ∃ c ∈ dashColumns (codeAt lines l),
    StepOf lines i ⟨l, c⟩ ∧ Rule lines ⟨l, c⟩ (keyColumn lines i) := by
  constructor
  · rintro ⟨item, hstep, hrule⟩
    exact ⟨item.line, Nat.lt_succ_of_le hstep.1.line_le, item.column, hstep.1.1, hstep, hrule⟩
  · rintro ⟨l, -, c, -, h⟩
    exact ⟨⟨l, c⟩, h⟩

instance : Decidable (Complies lines i) := decidable_of_iff' _ complies_iff_bounded

theorem isCheckout_iff : IsCheckout lines i ↔
    i < lines.length ∧ (usesRe (codeAt lines i)).any fun uses => checkoutRe uses.value := by
  unfold IsCheckout
  rw [Option.any_eq_true]

instance : Decidable (IsCheckout lines i) := decidable_of_iff' _ isCheckout_iff

end Deciding

end Sentinel.Workflow
