import Mathlib.Data.List.Basic
import Mathlib.Data.List.Range

/-!
# Layout by indentation

Lines of text of which each is blank or has a depth. A line that opens a block at some column owns the
lines after it as long as they are deeper than that column (`Under`); blank lines belong to whatever
is around them. Scans over the lines find the end of a block: the first index at which something
holds (`firstIndex`).
-/

namespace Lib

/-- The first index of `[start, stop)` with `p`, and `stop` when there is none. -/
def firstIndex (p : ℕ → Bool) (start stop : ℕ) : ℕ :=
  ((List.range' start (stop - start)).find? p).getD stop

variable {p : ℕ → Bool} {start stop j : ℕ}

theorem firstIndex_eq_some {i : ℕ} (h : (List.range' start (stop - start)).find? p = some i) :
    firstIndex p start stop = i ∧ start ≤ i ∧ i < stop ∧ p i = true ∧
      ∀ k, start ≤ k → k < i → p k = false := by
  obtain ⟨hp, hi, hlt⟩ := List.find?_range'_eq_some.mp h
  have hmem := List.mem_range'_1.mp hi
  refine ⟨by rw [firstIndex, h, Option.getD_some], hmem.1, by omega, hp, fun k hk hki => ?_⟩
  simpa using hlt k hk hki

theorem firstIndex_eq_none (h : (List.range' start (stop - start)).find? p = none) :
    firstIndex p start stop = stop ∧ ∀ k, start ≤ k → k < stop → p k = false := by
  refine ⟨by rw [firstIndex, h, Option.getD_none], fun k hk hlt => ?_⟩
  simpa using List.find?_range'_eq_none.mp h k hk (by omega)

/-- The scan passes exactly the indices up to which nothing is found. -/
theorem lt_firstIndex_iff :
    j < firstIndex p start stop ↔ j < stop ∧ ∀ k, start ≤ k → k ≤ j → p k = false := by
  cases hf : (List.range' start (stop - start)).find? p with
  | none =>
    obtain ⟨heq, hnot⟩ := firstIndex_eq_none hf
    rw [heq]
    exact ⟨fun h => ⟨h, fun k hk hkj => hnot k hk (by omega)⟩, And.left⟩
  | some i =>
    obtain ⟨heq, hsi, hlt, hp, hnot⟩ := firstIndex_eq_some hf
    rw [heq]
    refine ⟨fun h => ⟨by omega, fun k hk hkj => hnot k hk (by omega)⟩, fun ⟨_, h⟩ => ?_⟩
    by_contra hle
    have : p i = false := h i hsi (by omega)
    rw [hp] at this
    cases this

/-- The scan stops before the end only where something is found. -/
theorem firstIndex_holds (h : firstIndex p start stop < stop) : p (firstIndex p start stop) = true := by
  cases hf : (List.range' start (stop - start)).find? p with
  | none =>
    have heq := (firstIndex_eq_none hf).1
    omega
  | some i =>
    obtain ⟨heq, -, -, hp, -⟩ := firstIndex_eq_some hf
    rw [heq]
    exact hp

/-- A scan that begins inside of another one and is stopped by what stops the other ends inside of it. -/
theorem firstIndex_le {q : ℕ → Bool} {start' : ℕ} (himp : ∀ k, p k = true → q k = true)
    (hstart : start' ≤ firstIndex p start stop) :
    firstIndex q start' stop ≤ firstIndex p start stop := by
  by_contra hlt
  obtain ⟨hstop, hnot⟩ := lt_firstIndex_iff.mp (not_le.mp hlt)
  have hq := hnot _ hstart le_rfl
  rw [himp _ (firstIndex_holds hstop)] at hq
  cases hq

/-- `j` lies in the block that `line` opens at `column`: every line from there to `j` is deeper. -/
def Under (depth : ℕ → Option ℕ) (line column j : ℕ) : Prop :=
  line < j ∧ ∀ k d, line < k → k ≤ j → depth k = some d → column < d

theorem under_iff {depth : ℕ → Option ℕ} {line column : ℕ} : Under depth line column j ↔
    line < j ∧ ∀ k < j + 1, line < k → (depth k).all fun d => column < d := by
  refine and_congr_right fun _ => ⟨fun h k hkj hk => ?_, fun h k d hk hkj hd => ?_⟩
  · cases hd : depth k with
    | none => rfl
    | some d => exact decide_eq_true (h k d hk (by omega) hd)
  · have := h k (by omega) hk
    rw [hd] at this
    exact of_decide_eq_true this

instance {depth : ℕ → Option ℕ} {line column : ℕ} : Decidable (Under depth line column j) :=
  decidable_of_iff' _ under_iff

namespace Under

variable {depth : ℕ → Option ℕ} {line line' column column' k : ℕ}

theorem weaken (h : Under depth line column j) (hc : column' ≤ column) :
    Under depth line column' j :=
  ⟨h.1, fun k d hk hkj hd => hc.trans_lt (h.2 k d hk hkj hd)⟩

/-- Blocks nest: what lies in a block that opens inside an outer one lies in the outer one. -/
theorem trans (h : Under depth line column j) (h' : Under depth j column' k) (hc : column ≤ column') :
    Under depth line column k := by
  refine ⟨h.1.trans h'.1, fun i d hi hik hd => ?_⟩
  by_cases hij : i ≤ j
  · exact h.2 i d hi hij hd
  · exact hc.trans_lt (h'.2 i d (by omega) hik hd)

/-- Two lines at most as deep as the column of their blocks cannot both own a line unless they are one
line. -/
theorem unique {d d' : ℕ} (h : Under depth line column j) (h' : Under depth line' column j)
    (hd : depth line = some d) (hle : d ≤ column) (hd' : depth line' = some d') (hle' : d' ≤ column) :
    line = line' := by
  rcases Nat.lt_trichotomy line line' with hlt | heq | hgt
  · have := h.2 line' d' hlt h'.1.le hd'
    omega
  · exact heq
  · have := h'.2 line d hgt h.1.le hd
    omega

end Under

end Lib
