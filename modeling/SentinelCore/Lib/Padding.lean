import SentinelCore.Lib.Layout
import Mathlib.Order.Monotone.Basic
import Mathlib.Data.Set.Operations

/-!
# Scans over padded sequences

A sequence is padded by entries that a scan passes over. `σ` says where its entry `k` has gone; it is
strictly monotone, and what is not in its range is padding. A scan of the padded sequence that ignores
the padding finds what the same scan finds in the sequence itself (`filterMap_padded`,
`firstIndex_padded`).
-/

namespace Lib

/-- In the padded sequence, the entries from `k` on are those from index `i` on. -/
def StartsAt (σ : ℕ → ℕ) (i k : ℕ) : Prop := ∀ m, i ≤ σ m ↔ k ≤ m

variable {σ : ℕ → ℕ} {i k l : ℕ}

theorem startsAt_zero : StartsAt σ 0 0 := fun m => iff_of_true (Nat.zero_le _) (Nat.zero_le m)

theorem startsAt_self (hσ : StrictMono σ) (k : ℕ) : StartsAt σ (σ k) k := fun _ => hσ.le_iff_le

theorem startsAt_succ (hσ : StrictMono σ) (k : ℕ) : StartsAt σ (σ k + 1) (k + 1) := fun m => by
  rw [Nat.succ_le_iff, Nat.succ_le_iff]
  exact hσ.lt_iff_lt

/-- An entry at the index is the entry the rest starts with. -/
theorem StartsAt.eq (h : StartsAt σ i k) (hσ : StrictMono σ) {m : ℕ} (hm : σ m = i) : m = k := by
  apply Nat.le_antisymm
  · exact hσ.le_iff_le.mp (hm.le.trans ((h k).mpr le_rfl))
  · exact (h m).mp hm.ge

/-- Behind padding the rest is the same. -/
theorem StartsAt.next (h : StartsAt σ i k) (hgap : i ∉ Set.range σ) : StartsAt σ (i + 1) k := fun m => by
  rw [← h m, Nat.succ_le_iff]
  exact ⟨Nat.le_of_lt, fun hle => lt_of_le_of_ne hle fun heq => hgap ⟨m, heq.symm⟩⟩

open Classical in
/-- Without the padding a range of indices is a range of entries. -/
theorem filter_range' (hσ : StrictMono σ) (h : StartsAt σ i k) :
    (List.range' i (σ l - i)).filter (· ∈ Set.range σ) = (List.range' k (l - k)).map σ := by
  generalize hn : σ l - i = n
  induction n generalizing i k with
  | zero =>
    have hle : ¬k < l := fun hlt => by
      have h1 := (h k).mpr le_rfl
      have h2 := hσ hlt
      omega
    rw [show l - k = 0 by omega]
    rfl
  | succ n ih =>
    rw [List.range'_succ]
    by_cases hmem : i ∈ Set.range σ
    · obtain ⟨m, hm⟩ := hmem
      obtain rfl := h.eq hσ hm
      have hlt : m < l := hσ.lt_iff_lt.mp (by omega)
      rw [List.filter_cons_of_pos (by simp [← hm]), show l - m = l - (m + 1) + 1 by omega,
        List.range'_succ, List.map_cons, hm]
      congr 1
      exact ih (hm ▸ startsAt_succ hσ m) (by omega)
    · rw [List.filter_cons_of_neg (by simpa using hmem)]
      exact ih (h.next hmem) (by omega)

theorem filterMap_padded {β : Type} {f : ℕ → Option β} (hσ : StrictMono σ)
    (hgap : ∀ i, i ∉ Set.range σ → f i = none) (h : StartsAt σ i k) :
    (List.range' i (σ l - i)).filterMap f =
      (List.range' k (l - k)).filterMap fun m => f (σ m) := by
  classical
  have hf : f = fun i => if decide (i ∈ Set.range σ) = true then f i else none := by
    funext i
    by_cases hi : i ∈ Set.range σ
    · simp [hi]
    · simp [hi, hgap i hi]
  calc (List.range' i (σ l - i)).filterMap f
      = ((List.range' i (σ l - i)).filter (· ∈ Set.range σ)).filterMap f := by
        rw [List.filterMap_filter, ← hf]
    _ = ((List.range' k (l - k)).map σ).filterMap f := by rw [filter_range' hσ h]
    _ = (List.range' k (l - k)).filterMap fun m => f (σ m) := List.filterMap_map ..

theorem filter_padded {p : ℕ → Bool} (hσ : StrictMono σ) (hgap : ∀ i, i ∉ Set.range σ → p i = false)
    (h : StartsAt σ i k) :
    (List.range' i (σ l - i)).filter p = ((List.range' k (l - k)).filter fun m => p (σ m)).map σ := by
  classical
  have hp : p = fun i => p i && decide (i ∈ Set.range σ) := by
    funext i
    by_cases hi : i ∈ Set.range σ
    · simp [hi]
    · simp [hi, hgap i hi]
  calc (List.range' i (σ l - i)).filter p
      = ((List.range' i (σ l - i)).filter (· ∈ Set.range σ)).filter p := by
        rw [List.filter_filter, ← hp]
    _ = ((List.range' k (l - k)).map σ).filter p := by rw [filter_range' hσ h]
    _ = ((List.range' k (l - k)).filter fun m => p (σ m)).map σ := List.filter_map

theorem flatMap_padded {β : Type} {f : ℕ → List β} (hσ : StrictMono σ)
    (hgap : ∀ i, i ∉ Set.range σ → f i = []) (h : StartsAt σ i k) :
    (List.range' i (σ l - i)).flatMap f = (List.range' k (l - k)).flatMap fun m => f (σ m) := by
  classical
  have hskip : ∀ is : List ℕ, is.flatMap f = (is.filter (· ∈ Set.range σ)).flatMap f := by
    intro is
    induction is with
    | nil => rfl
    | cons j is ih =>
      by_cases hj : j ∈ Set.range σ
      · rw [List.filter_cons_of_pos (by simpa using hj), List.flatMap_cons, List.flatMap_cons, ih]
      · rw [List.filter_cons_of_neg (by simpa using hj), List.flatMap_cons, hgap j hj,
          List.nil_append, ih]
  rw [hskip, filter_range' hσ h, List.flatMap_map]

theorem firstIndex_padded {p : ℕ → Bool} (hσ : StrictMono σ)
    (hgap : ∀ i, i ∉ Set.range σ → p i = false) (h : StartsAt σ i k) :
    firstIndex p i (σ l) = σ (firstIndex (fun m => p (σ m)) k l) := by
  unfold firstIndex
  have hfind : (List.range' i (σ l - i)).find? p =
      ((List.range' k (l - k)).find? fun m => p (σ m)).map σ := by
    rw [← List.head?_filter, filter_padded hσ hgap h, List.head?_map, List.head?_filter]
  rw [hfind]
  cases (List.range' k (l - k)).find? fun m => p (σ m) with
  | none => rfl
  | some m => rfl

end Lib
