import SentinelCore.WorkflowCheckout
import SentinelCore.WorkflowComments

/-!
# Layouts of compliant workflows

Which texts made of block-style steps the validator accepts, if their action references are pinned and
each checkout step keeps no credentials. A step has its keys at one column, the first of them behind the
dash, in any order and at any depth (`BlockStep`).

1. The range the validator examines for a step begins at its dash and holds its lines
   (`stepBounds_uses`, `reaches_of_inItem`). It can go on behind the step, up to a line that is less deep
   than the dash or opens an item at its column (`Reaches`).
2. The `with:` of a step is a line of its own at the column of the keys, so the validator finds it only if
   neither `with:` nor `uses` stands on the line of the dash (`LaidOut`).
-/

namespace Sentinel.Workflow

open Py Lib

/-! ## Steps -/

/-- Where a step of a block sequence has its parts. -/
structure StepLayout where
  /-- The line of the dash. -/
  start : ℕ
  /-- The column of the dash. -/
  column : ℕ
  /-- The column of the keys. -/
  key : ℕ
  /-- The line of the `uses` key. -/
  uses : ℕ

def StepLayout.item (s : StepLayout) : Item := ⟨s.start, s.column⟩

/-- The line has a key of the step. -/
def HasKey (lines : List PyStr) (s : StepLayout) (j : ℕ) : Prop :=
  InItem lines s.item j ∧ keyColumn lines j = s.key

/-- The name of the key on the line. -/
def keyName (lines : List PyStr) (j : ℕ) : PyStr := (entryOf (codeAt lines j)).2.takeWhile (· ≠ chr ':')

/-- No key of the step stands on two lines. -/
def KeysDistinct (lines : List PyStr) (s : StepLayout) : Prop :=
  ∀ j < lines.length, ∀ k < lines.length, HasKey lines s j → HasKey lines s k →
    keyName lines j = keyName lines k → j = k

/-- A block-style step: a key behind its dash, the other keys at the column of the first, everything else
deeper, and no key twice. One of the keys is a `uses` with a reference that is pinned to a commit. -/
@[mk_iff] structure BlockStep (lines : List PyStr) (s : StepLayout) : Prop where
  opens : (stepStartRe (codeAt lines s.start)).isSome = true
  dash : indentOf (codeAt lines s.start) = s.column
  first : keyColumn lines s.start = s.key
  body : ∀ k < lines.length, Under (depthAt lines) s.start s.column k →
    (depthAt lines k).all (fun d => s.key ≤ d) = true
  distinct : KeysDistinct lines s
  hasUses : HasKey lines s s.uses
  pinned : (usesRe (codeAt lines s.uses)).any (fun uses => remoteActionRe uses.value) = true

/-- The step has a block-style `with` on line `w`, with `persist-credentials: false` once, on line `p`, as a
direct entry of the mapping. -/
@[mk_iff] structure KeepsNoCredentials (lines : List PyStr) (s : StepLayout) (w p : ℕ) : Prop where
  inItem : InItem lines s.item w
  isWith : IsWith lines s.key w
  direct : DirectPersist lines w s.key p
  value : (persistRe (codeAt lines p)).map Prod.snd = some (lit "false")
  once : ∀ j < lines.length, InItem lines s.item j → (persistRe (codeAt lines j)).isSome = true → j = p

/-- The text is made of the steps: they are block-style steps, no action is used outside of them, and those
of the checkout action keep no credentials. -/
structure MadeOf (lines : List PyStr) (steps : List StepLayout) : Prop where
  block : ∀ s ∈ steps, BlockStep lines s
  inside : ∀ i < lines.length, (usesRe (codeAt lines i)).isSome = true → ∃ s ∈ steps, InItem lines s.item i
  checkout : ∀ s ∈ steps, IsCheckout lines s.uses → ∃ w p, KeepsNoCredentials lines s w p

/-! ## Layouts -/

/-- The line is one of the step, or follows it without a line that ends the step for the validator: one that
is less deep than the dash or opens an item at its column. -/
def Reaches (lines : List PyStr) (s : StepLayout) (k : ℕ) : Prop :=
  s.start ≤ k ∧ k < lines.length ∧ ∀ j, s.start < j → j ≤ k → endsStep lines s.column j = false

/-- What the validator needs of the layout. -/
structure LaidOut (lines : List PyStr) (steps : List StepLayout) : Prop where
  /-- Nothing but the `uses` keys of the steps looks like one. -/
  uses_keys : ∀ i < lines.length, usesKeyRe (codeAt lines i) = true → ∃ s ∈ steps, s.uses = i
  /-- What looks like a `persist-credentials` key is a block-style entry. -/
  persist_keys : ∀ i < lines.length, persistKeyRe (codeAt lines i) = true →
    (persistRe (codeAt lines i)).isSome = true
  /-- No other `uses` key stands in a step or follows it. -/
  single : ∀ s ∈ steps, ∀ k, Reaches lines s k → (usesRe (codeAt lines k)).isSome = true → k = s.uses
  /-- A checkout step has neither `uses` nor `with` on the line of its dash. -/
  first_key : ∀ s ∈ steps, IsCheckout lines s.uses → s.uses ≠ s.start ∧ ¬IsWith lines s.key s.start
  /-- No `with:` at the column of its keys follows a checkout step, and no `persist-credentials`. -/
  behind : ∀ s ∈ steps, IsCheckout lines s.uses → ∀ k, Reaches lines s k → ¬InItem lines s.item k →
    (∀ indent, withRe (codeAt lines k) = some indent → indent.length ≠ s.key) ∧
      persistRe (codeAt lines k) = none

variable {lines : List PyStr} {code source : PyStr} {s : StepLayout}

/-! ## Entries of a line -/

theorem keyName_of_isWith {column w : ℕ} (h : IsWith lines column w) : keyName lines w = lit "with" := by
  obtain ⟨t, ht, -⟩ := exists_rstrip (entryOf (codeAt lines w)).2
  unfold keyName
  rw [ht, h.2]
  rfl

/-! ## The lines of a step -/

namespace BlockStep

variable {i : ℕ}

theorem inItem_iff (h : BlockStep lines s) : InItem lines s.item i ↔
    i < lines.length ∧ (i = s.start ∨ Under (depthAt lines) s.start s.column i) := by
  have hdash : s.column ∈ dashColumns (codeAt lines s.start) := h.dash ▸ mem_dashColumns h.opens
  exact ⟨fun hin => hin.2, fun hin => ⟨hdash, hin⟩⟩

theorem depth_start (h : BlockStep lines s) : depthAt lines s.start = some s.column := by
  refine depthAt_eq_some.mpr ⟨Bool.eq_false_iff.mpr fun hb => ?_, h.dash⟩
  have hopens := h.opens
  rw [codeAt_of_blank hb] at hopens
  cases hopens

theorem column_lt (h : BlockStep lines s) : s.column < s.key := by
  rw [← h.first, ← h.dash]
  exact lt_entryFrom_of_mem (mem_dashColumns h.opens)

theorem key_le (h : BlockStep lines s) {d : ℕ} (hi : i < lines.length)
    (hunder : Under (depthAt lines) s.start s.column i) (hd : depthAt lines i = some d) : s.key ≤ d := by
  have hbody := h.body i hi hunder
  rw [hd] at hbody
  exact of_decide_eq_true hbody

/-- A key that is not behind the dash stands at the indentation of its line. -/
theorem indent_of_hasKey (h : BlockStep lines s) (hkey : HasKey lines s i) (hne : i ≠ s.start)
    (hb : isBlank (codeAt lines i) = false) : indentOf (codeAt lines i) = s.key := by
  obtain ⟨hi, rfl | hunder⟩ := h.inItem_iff.mp hkey.1
  · exact absurd rfl hne
  · have hle := h.key_le hi hunder (depthAt_eq_some.mpr ⟨hb, rfl⟩)
    have hge : indentOf (codeAt lines i) ≤ keyColumn lines i := indentOf_le_entryOf
    rw [hkey.2] at hge
    omega

/-- The range for the step holds its lines. -/
theorem reaches_of_inItem (h : BlockStep lines s) (hin : InItem lines s.item i) : Reaches lines s i := by
  obtain ⟨hi, rfl | hunder⟩ := h.inItem_iff.mp hin
  · exact ⟨le_rfl, hi, fun j hj hji => by omega⟩
  · exact ⟨hunder.1.le, hi, fun j hj hji => endsStep_eq_false fun d hd => hunder.2 j d hj hji hd⟩

end BlockStep

/-! ## The bounds of a step -/

/-- Where the range of the validator for the step ends. -/
def stopOf (lines : List PyStr) (s : StepLayout) : ℕ :=
  firstIndex (endsStep lines s.column) (s.start + 1) lines.length

theorem reaches_iff {k : ℕ} : Reaches lines s k ↔ s.start ≤ k ∧ k < stopOf lines s := by
  unfold Reaches stopOf
  rw [lt_firstIndex_iff]
  exact Iff.rfl

namespace BlockStep

theorem reads (h : BlockStep lines s) :
    ∃ uses, usesRe (codeAt lines s.uses) = some uses ∧ remoteActionRe uses.value = true := by
  have hpinned := h.pinned
  rwa [Option.any_eq_true] at hpinned

/-- Behind the dash the validator takes the column of the dash for that of the key. -/
theorem uses_indent (h : BlockStep lines s) {uses : UsesMatch}
    (huses : usesRe (codeAt lines s.uses) = some uses) :
    (uses.dash.isSome = true ∧ s.uses = s.start ∧ uses.indent.length = s.column) ∨
      (uses.dash = none ∧ s.uses ≠ s.start ∧ uses.indent.length = s.key) := by
  obtain ⟨hb, hindent⟩ := depthAt_eq_some.mp (usesRe_depth huses)
  obtain ⟨-, after, hgroup⟩ := usesRe_eq_some huses
  have hdash : (stepStartRe (codeAt lines s.uses)).isSome = uses.dash.isSome := by
    unfold stepStartRe
    rw [hgroup, Option.isSome_map]
  by_cases heq : s.uses = s.start
  · refine .inl ⟨?_, heq, ?_⟩
    · rw [← hdash, heq]
      exact h.opens
    · rw [← hindent, heq, h.dash]
  · have hkey := h.indent_of_hasKey h.hasUses heq hb
    refine .inr ⟨?_, heq, by rw [← hindent, hkey]⟩
    cases hd : uses.dash with
    | none => rfl
    | some dash =>
      rw [hd] at hdash
      have hlt : indentOf (codeAt lines s.uses) < keyColumn lines s.uses :=
        lt_entryFrom_of_mem (mem_dashColumns hdash)
      rw [h.hasUses.2, hkey] at hlt
      omega

/-- **The validator finds the step of its `uses` key.** -/
theorem stepBounds_uses (h : BlockStep lines s) :
    stepBounds lines s.uses = some (s.start, stopOf lines s) := by
  obtain ⟨uses, huses, -⟩ := h.reads
  unfold stepBounds
  rw [huses]
  dsimp only
  rcases h.uses_indent huses with ⟨hd, heq, hcolumn⟩ | ⟨hd, hne, hkey⟩
  · obtain ⟨dash, hdash⟩ := Option.isSome_iff_exists.mp hd
    rw [hdash]
    dsimp only
    rw [heq, hcolumn]
    rfl
  · obtain ⟨hlt, heq | hunder⟩ := h.inItem_iff.mp h.hasUses.1
    · exact absurd heq hne
    · rw [hd]
      dsimp only
      rw [hkey, stepStart_of_deep hunder.1 h.depth_start h.opens h.column_lt]
      · rfl
      · intro k d hk hku hd
        refine h.key_le (by omega) ⟨hk, fun j e hj hjk he => ?_⟩ hd
        exact hunder.2 j e hj (by omega) he

end BlockStep

/-! ## Ranges with one hit -/

section Single

variable {β : Type} {f : ℕ → Option β} {b : β} {start stop i : ℕ}

theorem indices_split (hi : start ≤ i ∧ i < stop) :
    indices start stop = indices start i ++ i :: indices (i + 1) stop := by
  obtain ⟨n, rfl⟩ := Nat.exists_eq_add_of_le hi.1
  obtain ⟨m, rfl⟩ := Nat.exists_eq_add_of_lt hi.2
  unfold indices
  have hn : start + n - start = n := by omega
  have hm : start + n + m + 1 - (start + n + 1) = m := by omega
  have hlength : start + n + m + 1 - start = n + (m + 1) := by omega
  rw [hn, hm, hlength, ← List.range'_append_1, List.range'_succ]

theorem filterMap_eq_nil (hother : ∀ k, start ≤ k → k < stop → f k = none) :
    (indices start stop).filterMap f = [] :=
  List.filterMap_eq_nil_iff.mpr fun k hk => hother k (mem_indices.mp hk).1 (mem_indices.mp hk).2

/-- Where one line of a range is read, the lines that are read are that one. -/
theorem filterMap_single (hi : start ≤ i ∧ i < stop) (hf : f i = some b)
    (hother : ∀ k, start ≤ k → k < stop → (f k).isSome = true → k = i) :
    (indices start stop).filterMap f = [b] := by
  have hnone : ∀ k, start ≤ k → k < stop → k ≠ i → f k = none := fun k hk hks hki =>
    Option.not_isSome_iff_eq_none.mp fun h => hki (hother k hk hks h)
  rw [indices_split hi, List.filterMap_append, List.filterMap_cons_some hf,
    filterMap_eq_nil fun k hk hki => hnone k hk (by omega) (by omega),
    filterMap_eq_nil fun k hk hks => hnone k (by omega) hks (by omega)]
  rfl

/-- Conversely a range with at most one hit has no second one. -/
theorem eq_of_length_le_one (hlength : ((indices start stop).filterMap f).length ≤ 1) {k : ℕ}
    (hi : start ≤ i ∧ i < stop) (hk : start ≤ k ∧ k < stop) (hfi : (f i).isSome = true)
    (hfk : (f k).isSome = true) : k = i := by
  obtain ⟨b, hb⟩ := Option.isSome_iff_exists.mp hfi
  rw [indices_split hi, List.filterMap_append, List.filterMap_cons_some hb, List.length_append,
    List.length_cons] at hlength
  have hfront := List.length_eq_zero_iff.mp
    (show ((indices start i).filterMap f).length = 0 by omega)
  have hback := List.length_eq_zero_iff.mp
    (show ((indices (i + 1) stop).filterMap f).length = 0 by omega)
  by_contra hne
  rcases Nat.lt_or_gt_of_ne hne with hlt | hgt
  · rw [List.filterMap_eq_nil_iff.mp hfront k (mem_indices.mpr ⟨hk.1, hlt⟩)] at hfk
    cases hfk
  · rw [List.filterMap_eq_nil_iff.mp hback k (mem_indices.mpr ⟨hgt, hk.2⟩)] at hfk
    cases hfk

end Single

/-! ## Layouts that are accepted -/

section Accepts

variable {steps : List StepLayout} {w p : ℕ}

/-- The entry of a checkout step lies in the step. -/
theorem KeepsNoCredentials.inItem_persist (h : BlockStep lines s) (keeps : KeepsNoCredentials lines s w p) :
    InItem lines s.item p :=
  h.inItem_iff.mpr ⟨keeps.direct.2.1, .inr (keeps.inItem.mapping keeps.isWith keeps.direct.2.2.1)⟩

/-- A `with:` that is not on the line of the dash is read by the validator. -/
theorem KeepsNoCredentials.indent_with (h : BlockStep lines s) (keeps : KeepsNoCredentials lines s w p)
    (hne : w ≠ s.start) : indentOf (codeAt lines w) = s.key := by
  obtain ⟨d, hd, -⟩ := depthAt_of_isWith keeps.isWith
  exact h.indent_of_hasKey ⟨keeps.inItem, keeps.isWith.1⟩ hne (depthAt_eq_some.mp hd).1

theorem withLines_single (h : BlockStep lines s) (keeps : KeepsNoCredentials lines s w p)
    (hne : w ≠ s.start)
    (hbehind : ∀ k, Reaches lines s k → ¬InItem lines s.item k →
      ∀ indent, withRe (codeAt lines k) = some indent → indent.length ≠ s.key) :
    withLines lines s.start (stopOf lines s) s.key = [w] := by
  obtain ⟨indent, hwith, hindent⟩ := withRe_of_isWith keeps.isWith (keeps.indent_with h hne)
  unfold withLines
  rw [← List.filterMap_eq_filter]
  refine filterMap_single (reaches_iff.mp (h.reaches_of_inItem keeps.inItem)) ?_ ?_
  · rw [Option.guard, hwith, Option.any_some, decide_eq_true hindent]
    rfl
  · intro k hk hks hsome
    rw [Option.isSome_guard, Option.any_eq_true] at hsome
    obtain ⟨indent', hwith', hindent'⟩ := hsome
    have hkey := of_decide_eq_true hindent'
    by_cases hin : InItem lines s.item k
    · have hisWith := isWith_of_withRe hwith'
      rw [hkey] at hisWith
      refine h.distinct k hin.2.1 w keeps.inItem.2.1 ⟨hin, hisWith.1⟩
        ⟨keeps.inItem, keeps.isWith.1⟩ ?_
      rw [keyName_of_isWith hisWith, keyName_of_isWith keeps.isWith]
    · exact absurd hkey (hbehind k (reaches_iff.mpr ⟨hk, hks⟩) hin indent' hwith')

theorem allPersist_single (h : BlockStep lines s) (keeps : KeepsNoCredentials lines s w p)
    (hbehind : ∀ k, Reaches lines s k → ¬InItem lines s.item k → persistRe (codeAt lines k) = none) :
    ∃ d, depthAt lines p = some d ∧
      allPersist lines s.start (stopOf lines s) = [⟨p, d, lit "false"⟩] := by
  obtain ⟨⟨indent, value⟩, hpersist, rfl⟩ := Option.map_eq_some_iff.mp keeps.value
  refine ⟨indent.length, persistRe_depth hpersist, ?_⟩
  unfold allPersist
  refine filterMap_single (reaches_iff.mp (h.reaches_of_inItem (keeps.inItem_persist h))) ?_ ?_
  · rw [hpersist]
    rfl
  · intro k hk hks hsome
    rw [Option.isSome_map] at hsome
    by_cases hin : InItem lines s.item k
    · exact keeps.once k hin.2.1 hin hsome
    · rw [hbehind k (reaches_iff.mpr ⟨hk, hks⟩) hin] at hsome
      cases hsome

/-- The inputs of a checkout step pass where nothing behind the step is taken for its own. -/
theorem inputs_of_keeps (h : BlockStep lines s) (keeps : KeepsNoCredentials lines s w p)
    (hne : w ≠ s.start)
    (hbehind : ∀ k, Reaches lines s k → ¬InItem lines s.item k →
      (∀ indent, withRe (codeAt lines k) = some indent → indent.length ≠ s.key) ∧
        persistRe (codeAt lines k) = none) (line : ℕ) :
    validateCheckoutInputs lines source s.start (stopOf lines s) line s.key = [] := by
  obtain ⟨d, hd, hpersist⟩ := allPersist_single h keeps fun k hk hin => (hbehind k hk hin).2
  have hwith := withLines_single h keeps hne fun k hk hin => (hbehind k hk hin).1
  have hindent := keeps.indent_with h hne
  obtain ⟨hkeyRe, hlt, hunder, hleast⟩ := keeps.direct
  have hstop : p < stopOf lines s := (reaches_iff.mp (h.reaches_of_inItem (keeps.inItem_persist h))).2
  have hcontent : ∀ j, j ∈ contentLines lines (mappingBounds lines w (stopOf lines s)).1
      (mappingBounds lines w (stopOf lines s)).2 ↔
      j < stopOf lines s ∧ Under (depthAt lines) w s.key j ∧ isBlank (codeAt lines j) = false :=
    fun j => hindent ▸ mem_content
  have hmem := (hcontent p).mpr ⟨hstop, hunder, (depthAt_eq_some.mp hd).1⟩
  have hlevel : firstLevelIndent lines (contentLines lines (mappingBounds lines w (stopOf lines s)).1
      (mappingBounds lines w (stopOf lines s)).2) = d := by
    obtain ⟨⟨k, hk, hlevel⟩, hle⟩ := @firstLevelIndent_spec lines _ (List.ne_nil_of_mem hmem)
    have hple := hle p hmem
    rw [(depthAt_eq_some.mp hd).2] at hple
    obtain ⟨hks, hku, hkb⟩ := (hcontent k).mp hk
    have hkl : k < lines.length :=
      (reaches_iff.mpr ⟨(h.reaches_of_inItem keeps.inItem).1.trans hku.1.le, hks⟩).2.1
    have hge := hleast k _ d hku hkl (depthAt_eq_some.mpr ⟨hkb, rfl⟩) hd
    omega
  have hinside : (mappingBounds lines w (stopOf lines s)).1 ≤ p ∧
      p < (mappingBounds lines w (stopOf lines s)).2 := by
    have hu : Under (depthAt lines) w (indentOf (codeAt lines w)) p := by rwa [hindent]
    exact ⟨hunder.1, (lt_mappingEnd_iff hunder.1).mpr ⟨hstop, hu⟩⟩
  unfold validateCheckoutInputs
  rw [hwith, hpersist]
  dsimp only
  rw [if_neg (List.ne_nil_of_mem hmem), hlevel]
  simp [hinside]

/-- A reference to a commit passes, also when it begins like a path. -/
theorem reference_ok {uses : UsesMatch} (huses : usesRe code = some uses)
    (hremote : remoteActionRe uses.value = true) :
    startsWith uses.value (lit "./") = true → localActionRe uses.value = true := by
  intro hlocal
  obtain ⟨path, hpath⟩ := List.isPrefixOf_iff_prefix.mp hlocal
  obtain ⟨-, -, -, -, -, -, -, -, hvalue⟩ := usesRe_shape huses
  unfold localActionRe
  rw [List.isPrefixOf?_eq_some_iff_append_eq.mpr hpath]
  dsimp only
  rw [← hpath, List.all_append, Bool.and_eq_true] at hvalue
  rw [Bool.and_eq_true, decide_eq_true_eq]
  refine ⟨?_, hvalue.2⟩
  rintro rfl
  rw [← hpath] at hremote
  exact absurd hremote (by decide)

theorem lineFailures_of_laidOut (made : MadeOf lines steps) (laid : LaidOut lines steps) {i : ℕ}
    (hi : i < lines.length) : lineFailures source (i + 1) (codeAt lines i) = [] := by
  unfold lineFailures
  rw [List.append_eq_nil_iff]
  constructor
  · cases huses : usesRe (codeAt lines i) with
    | none =>
      refine if_neg fun hkey => ?_
      obtain ⟨s, hs, rfl⟩ := laid.uses_keys i hi hkey
      obtain ⟨uses, hreads, -⟩ := (made.block s hs).reads
      rw [huses] at hreads
      cases hreads
    | some uses =>
      obtain ⟨s, hs, rfl⟩ := laid.uses_keys i hi (keySearch_iff.mpr (showsAt_of_usesRe huses))
      obtain ⟨uses', hreads, hremote⟩ := (made.block s hs).reads
      rw [huses] at hreads
      obtain rfl := Option.some.inj hreads
      dsimp only
      by_cases hlocal : startsWith uses.value (lit "./") = true
      · rw [if_pos hlocal, if_pos (reference_ok huses hremote hlocal)]
      · rw [if_neg hlocal, if_pos hremote]
  · refine if_neg fun h => ?_
    have hread := laid.persist_keys i hi h.1
    rw [h.2] at hread
    cases hread

theorem stepFailures_of_laidOut (made : MadeOf lines steps) (laid : LaidOut lines steps) (hs : s ∈ steps) :
    stepFailures lines source s.start (stopOf lines s) = [] := by
  have h := made.block s hs
  obtain ⟨uses, huses, -⟩ := h.reads
  have hsingle : stepUses lines s.start (stopOf lines s) = [(s.uses + 1, uses)] := by
    unfold stepUses
    refine filterMap_single (reaches_iff.mp (h.reaches_of_inItem h.hasUses.1)) ?_ ?_
    · rw [huses]
      rfl
    · intro k hk hks hsome
      rw [Option.isSome_map] at hsome
      exact laid.single s hs k (reaches_iff.mpr ⟨hk, hks⟩) hsome
  unfold stepFailures
  rw [hsingle]
  show [] ++ ((if checkoutRe uses.value then
    validateCheckoutInputs lines source s.start (stopOf lines s) (s.uses + 1) uses.indent.length
      else []) ++ []) = []
  rw [List.nil_append, List.append_nil]
  split
  · next hcheckout =>
    have hstep : IsCheckout lines s.uses := ⟨h.hasUses.1.2.1, uses, huses, hcheckout⟩
    obtain ⟨w, p, keeps⟩ := made.checkout s hs hstep
    obtain ⟨hne, hwith⟩ := laid.first_key s hs hstep
    rcases h.uses_indent huses with ⟨-, heq, -⟩ | ⟨-, -, hkey⟩
    · exact absurd heq hne
    · rw [hkey]
      refine inputs_of_keeps h keeps ?_ (laid.behind s hs hstep) _
      rintro rfl
      exact hwith keeps.isWith
  · rfl

theorem checkSteps_of_nil {uses : List ℕ} (checked : List (ℕ × ℕ))
    (h : ∀ j ∈ uses, ∀ bounds, stepBounds lines j = some bounds →
      stepFailures lines source bounds.1 bounds.2 = []) : checkSteps lines source uses checked = [] := by
  induction uses generalizing checked with
  | nil => rfl
  | cons first rest ih =>
    have hrest := fun checked => ih checked fun j hj => h j (List.mem_cons_of_mem _ hj)
    rw [checkSteps]
    cases hb : stepBounds lines first with
    | none => exact hrest checked
    | some bounds =>
      dsimp only
      by_cases hc : bounds ∈ checked
      · rw [if_pos hc]
        exact hrest checked
      · rw [if_neg hc, h first List.mem_cons_self bounds hb, List.nil_append]
        exact hrest _

theorem accepted_of_laidOut {text : PyStr} (made : MadeOf (splitLines text) steps)
    (laid : LaidOut (splitLines text) steps) : validateWorkflowText text source = [] := by
  refine List.append_eq_nil_iff.mpr ⟨List.flatMap_eq_nil_iff.mpr fun i hi => ?_, ?_⟩
  · split
    · rfl
    · exact lineFailures_of_laidOut made laid (mem_indices.mp hi).2
  · refine checkSteps_of_nil [] fun i hi bounds hbounds => ?_
    obtain ⟨hmem, hcode⟩ := List.mem_filter.mp hi
    rw [Bool.and_eq_true] at hcode
    obtain ⟨uses, huses⟩ := Option.isSome_iff_exists.mp hcode.2
    obtain ⟨s, hs, rfl⟩ :=
      laid.uses_keys i (mem_indices.mp hmem).2 (keySearch_iff.mpr (showsAt_of_usesRe huses))
    rw [(made.block s hs).stepBounds_uses] at hbounds
    obtain rfl := Option.some.inj hbounds
    exact stepFailures_of_laidOut made laid hs

end Accepts

/-! ## Accepted layouts -/

section Accepted

variable {steps : List StepLayout} {w p c w' p' : ℕ}

/-- What the validator took for the `with:` of a step lies in the step: the entry of the step is in its
mapping. -/
theorem inItem_of_passed (h : BlockStep lines s) (keeps : KeepsNoCredentials lines s w p)
    (passed : Passed lines s.start (stopOf lines s) c w' p') : InItem lines s.item w' := by
  obtain ⟨⟨hsw, hws⟩, -⟩ := mem_withLines.mp (passed.counted ▸ List.mem_singleton_self w')
  have hin := keeps.inItem_persist h
  have hreach := reaches_iff.mp (h.reaches_of_inItem hin)
  have hpersist : (persistRe (codeAt lines p)).isSome = true := by
    obtain ⟨match_, hmatch, -⟩ := Option.map_eq_some_iff.mp keeps.value
    rw [hmatch]
    rfl
  have hunder := passed.inside p hreach.1 hreach.2 hpersist
  refine h.inItem_iff.mpr ⟨(reaches_iff.mpr ⟨hsw, hws⟩).2.1, ?_⟩
  by_cases heq : w' = s.start
  · exact .inl heq
  · refine .inr ⟨by omega, fun k d hk hkw hd => ?_⟩
    rcases (h.inItem_iff.mp hin).2 with rfl | hp
    · have := hunder.1
      omega
    · exact hp.2 k d hk (hkw.trans hunder.1.le) hd

/-- The line of the dash is not read as a `with:`. -/
theorem BlockStep.withRe_start (h : BlockStep lines s) : withRe (codeAt lines s.start) = none := by
  refine Option.eq_none_iff_forall_ne_some.mpr fun indent hwith => ?_
  have hentry : keyColumn lines s.start = indentOf (codeAt lines s.start) := withRe_entry hwith
  rw [h.first, h.dash] at hentry
  have := h.column_lt
  omega

theorem exists_of_passed {start stop : ℕ} (passed : Passed lines start stop c w' p') :
    ∃ indent, withRe (codeAt lines w') = some indent ∧ indent.length = c :=
  (mem_withLines.mp (passed.counted ▸ List.mem_singleton_self w')).2

theorem ne_start_of_passed (h : BlockStep lines s) {start stop : ℕ}
    (passed : Passed lines start stop c w' p') : w' ≠ s.start := by
  rintro rfl
  obtain ⟨indent, hwith, -⟩ := exists_of_passed passed
  rw [h.withRe_start] at hwith
  cases hwith

/-- The range of a step with `uses` on the line of its dash does not pass: everything else in the step is
deeper than the dash. -/
theorem uses_of_passed (h : BlockStep lines s) (keeps : KeepsNoCredentials lines s w p) {uses : UsesMatch}
    (huses : usesRe (codeAt lines s.uses) = some uses)
    (passed : Passed lines s.start (stopOf lines s) uses.indent.length w' p') :
    s.uses ≠ s.start ∧ uses.indent.length = s.key := by
  rcases h.uses_indent huses with ⟨-, heq, hcolumn⟩ | ⟨-, hne, hkey⟩
  · obtain ⟨indent, hwith, hindent⟩ := exists_of_passed passed
    rcases (h.inItem_iff.mp (inItem_of_passed h keeps passed)).2 with hstart | hunder
    · exact absurd hstart (ne_start_of_passed h passed)
    · have hdeep := hunder.2 w' _ hunder.1 le_rfl (withRe_depth hwith)
      omega
  · exact ⟨hne, hkey⟩

/-- A `with` of the step is the one the validator counted. -/
theorem with_of_passed (h : BlockStep lines s) (keeps : KeepsNoCredentials lines s w p)
    (passed : Passed lines s.start (stopOf lines s) s.key w' p') {v : ℕ} (hwith : IsWith lines s.key v)
    (hin : InItem lines s.item v) : w' = v := by
  obtain ⟨indent, hre, hindent⟩ := exists_of_passed passed
  have hwith' : IsWith lines s.key w' := hindent ▸ isWith_of_withRe hre
  have hin' := inItem_of_passed h keeps passed
  refine h.distinct w' hin'.2.1 v hin.2.1 ⟨hin', hwith'.1⟩ ⟨hin, hwith.1⟩ ?_
  rw [keyName_of_isWith hwith', keyName_of_isWith hwith]

/-- Behind a step that passes nothing is taken for its own. -/
theorem behind_of_passed (h : BlockStep lines s) (keeps : KeepsNoCredentials lines s w p)
    (passed : Passed lines s.start (stopOf lines s) s.key w' p') {k : ℕ} (hk : Reaches lines s k)
    (hout : ¬InItem lines s.item k) :
    (∀ indent, withRe (codeAt lines k) = some indent → indent.length ≠ s.key) ∧
      persistRe (codeAt lines k) = none := by
  have hin := inItem_of_passed h keeps passed
  have hrange := reaches_iff.mp hk
  refine ⟨fun indent hwith hindent => hout ?_, ?_⟩
  · have hmem : k ∈ withLines lines s.start (stopOf lines s) s.key :=
      mem_withLines.mpr ⟨hrange, indent, hwith, hindent⟩
    rw [passed.counted, List.mem_singleton] at hmem
    rwa [hmem]
  · refine Option.not_isSome_iff_eq_none.mp fun hpersist => hout ?_
    obtain ⟨indent, hre, hindent⟩ := exists_of_passed passed
    have hwith' : IsWith lines s.key w' := hindent ▸ isWith_of_withRe hre
    have hunder := passed.inside k hrange.1 hrange.2 hpersist
    exact h.inItem_iff.mpr ⟨hk.2.1, .inr (hin.mapping hwith' hunder)⟩

/-- In an accepted text the range of a step has its `uses` key alone. -/
theorem single_of_accepted (h : BlockStep lines s)
    (accepted : checkSteps lines source (allowedUses lines) [] = []) {k : ℕ} (hk : Reaches lines s k)
    (hsome : (usesRe (codeAt lines k)).isSome = true) : k = s.uses := by
  obtain ⟨uses, huses, -⟩ := h.reads
  have hallowed : s.uses ∈ allowedUses lines := by
    refine List.mem_filter.mpr ⟨mem_indices.mpr ⟨Nat.zero_le _, h.hasUses.1.2.1⟩, ?_⟩
    rw [(depthAt_eq_some.mp (usesRe_depth huses)).1, huses]
    rfl
  rcases checkSteps_eq_nil accepted s.uses hallowed _ h.stepBounds_uses with hmem | hnil
  · cases hmem
  · unfold stepFailures at hnil
    dsimp only at hnil
    have hlength : (stepUses lines s.start (stopOf lines s)).length ≤ 1 := by
      by_contra hmore
      have hfirst := (List.append_eq_nil_iff.mp hnil).1
      rw [if_pos (by omega)] at hfirst
      cases hfirst
    refine eq_of_length_le_one hlength (reaches_iff.mp (h.reaches_of_inItem h.hasUses.1))
      (reaches_iff.mp hk) ?_ ?_
    · rw [Option.isSome_map, huses]
      rfl
    · rwa [Option.isSome_map]

/-- In an accepted text the range of a checkout step passes at the column of its keys. -/
theorem passed_of_accepted (h : BlockStep lines s) (keeps : KeepsNoCredentials lines s w p)
    (accepted : checkSteps lines source (allowedUses lines) [] = [])
    (hcheckout : IsCheckout lines s.uses) :
    s.uses ≠ s.start ∧ ∃ w' p', Passed lines s.start (stopOf lines s) s.key w' p' := by
  obtain ⟨hi, uses, huses, hcommit⟩ := hcheckout
  obtain ⟨w', p', passed⟩ :=
    passed_of_nil (inputs_of_accepted accepted hi huses hcommit h.stepBounds_uses)
  obtain ⟨hne, hkey⟩ := uses_of_passed h keeps huses passed
  rw [hkey] at passed
  exact ⟨hne, w', p', passed⟩

theorem laidOut_of_accepted {text : PyStr} (made : MadeOf (splitLines text) steps)
    (accepted : validateWorkflowText text source = []) : LaidOut (splitLines text) steps := by
  obtain ⟨hmarkers, hsteps⟩ := List.append_eq_nil_iff.mp accepted
  refine ⟨fun i hi hshown => ?_, fun i hi hshown => persistRe_of_accepted hmarkers hi hshown,
    fun s hs k hk hsome => single_of_accepted (made.block s hs) hsteps hk hsome,
    fun s hs hcheckout => ?_, fun s hs hcheckout k hk hout => ?_⟩
  · obtain ⟨before, hbefore⟩ := keySearch_iff.mp hshown
    obtain ⟨uses, huses, -⟩ := safeUses_of_accepted hmarkers hi hbefore
    have hsome : (usesRe (codeAt (splitLines text) i)).isSome = true := by
      rw [huses]
      rfl
    obtain ⟨s, hs, hin⟩ := made.inside i hi hsome
    have h := made.block s hs
    exact ⟨s, hs, (single_of_accepted h hsteps (h.reaches_of_inItem hin) hsome).symm⟩
  · have h := made.block s hs
    obtain ⟨w, p, keeps⟩ := made.checkout s hs hcheckout
    obtain ⟨hne, w', p', passed⟩ := passed_of_accepted h keeps hsteps hcheckout
    refine ⟨hne, fun hwith => ne_start_of_passed h passed ?_⟩
    have hstart : s.start < (splitLines text).length :=
      (h.reaches_of_inItem keeps.inItem).1.trans_lt keeps.inItem.2.1
    exact with_of_passed h keeps passed hwith (h.inItem_iff.mpr ⟨hstart, .inl rfl⟩)
  · have h := made.block s hs
    obtain ⟨w, p, keeps⟩ := made.checkout s hs hcheckout
    obtain ⟨-, w', p', passed⟩ := passed_of_accepted h keeps hsteps hcheckout
    exact behind_of_passed h keeps passed hk hout

/-- **A text made of compliant steps is accepted exactly if its layout is one the validator can read.** -/
theorem accepted_iff_laidOut {text : PyStr} (made : MadeOf (splitLines text) steps) :
    validateWorkflowText text source = [] ↔ LaidOut (splitLines text) steps :=
  ⟨laidOut_of_accepted made, accepted_of_laidOut made⟩

end Accepted

/-! ## The key behind the dash -/

instance {j : ℕ} : Decidable (HasKey lines s j) := by unfold HasKey; infer_instance
instance : Decidable (KeysDistinct lines s) := by unfold KeysDistinct; infer_instance

instance : Decidable (BlockStep lines s) := decidable_of_iff' _ (blockStep_iff lines s)

instance {w p : ℕ} : Decidable (KeepsNoCredentials lines s w p) :=
  decidable_of_iff' _ (keepsNoCredentials_iff lines s w p)

/-- A text whose one step keeps no credentials. -/
theorem madeOf_single {w p : ℕ} (h : BlockStep lines s) (keeps : KeepsNoCredentials lines s w p)
    (inside : ∀ i < lines.length, (usesRe (codeAt lines i)).isSome = true → InItem lines s.item i) :
    MadeOf lines [s] where
  block _ ht := List.mem_singleton.mp ht ▸ h
  inside i hi huses := ⟨s, List.mem_singleton_self s, inside i hi huses⟩
  checkout _ ht _ := List.mem_singleton.mp ht ▸ ⟨w, p, keeps⟩

/-- The step of the sample begins with its name. -/
theorem accepted_iff_laidOut_sample : validateWorkflowText sampleText (lit "ci.yml") = [] ↔
    LaidOut (splitLines sampleText) [⟨3, 6, 8, 4⟩] := by
  have hrun : BlockStep (splitLines sampleText) ⟨3, 6, 8, 4⟩ ∧
      KeepsNoCredentials (splitLines sampleText) ⟨3, 6, 8, 4⟩ 5 6 ∧
      ∀ i < (splitLines sampleText).length, (usesRe (codeAt (splitLines sampleText) i)).isSome = true →
        InItem (splitLines sampleText) ⟨3, 6⟩ i := by
    rw [sampleText]
    repeat rw [lit_append]
    repeat rw [lit_ofList]
    decide +kernel
  exact accepted_iff_laidOut (madeOf_single hrun.1 hrun.2.1 hrun.2.2)

/-- The step of the sample without its name, so that `uses` stands behind the dash. -/
def namelessText : PyStr := lit ("jobs:\n  test:\n    steps:\n" ++
  "      - uses: actions/checkout@34e114876b0b11c390a56381ad16ebd13914f8d5\n        with:\n" ++
  "          persist-credentials: false\n")

/-- The validator finds no `with` in the step. -/
theorem nameless_refused : ¬∀ text source steps, MadeOf (splitLines text) steps →
    validateWorkflowText text source = [] := by
  intro h
  have hrun : BlockStep (splitLines namelessText) ⟨3, 6, 8, 3⟩ ∧
      KeepsNoCredentials (splitLines namelessText) ⟨3, 6, 8, 3⟩ 4 5 ∧
      (∀ i < (splitLines namelessText).length, (usesRe (codeAt (splitLines namelessText) i)).isSome = true →
        InItem (splitLines namelessText) ⟨3, 6⟩ i) ∧
      validateWorkflowText namelessText (lit "ci.yml") ≠ [] := by
    rw [namelessText]
    repeat rw [lit_append]
    repeat rw [lit_ofList]
    decide +kernel
  obtain ⟨hblock, hkeeps, hinside, hrefused⟩ := hrun
  exact hrefused (h namelessText (lit "ci.yml") _ (madeOf_single hblock hkeeps hinside))

end Sentinel.Workflow
