import SentinelCore.Lib.Process
import Mathlib.Data.Set.Finite.Basic
import Mathlib.Logic.Relation

/-!
# Programs that run side by side

The processes of a `Pool` share a state, and in each step one of them makes its next call. Each
process has a note of how far it is, and an invariant ties the notes of all processes to the state.
`acting` is the step rule of one process among the others: in any state that fits the notes its call
does only what the guarantee allows, and the process can take a note with which the invariant holds
again. Programs that meet their specifications under this rule keep the invariant in every
interleaving (`kept_reaches`), and every step of it has the guarantee (`guarantee_of_kept`). Finitely
many processes can always come to an end (`exists_ended`).
-/

namespace Lib

/-- Processes with a state that they share. -/
structure Pool (ι C R α σ : Type) where
  procs : ι → Process C R α
  state : σ

namespace Pool

variable {ι C R α γ σ : Type} [DecidableEq ι]

/-- The process `i` makes its next call. -/
inductive Step (answer : ι → C → σ → R × σ) (i : ι) : Pool ι C R α σ → Pool ι C R α σ → Prop
  | call {pool : Pool ι C R α σ} {c : C} {next : R → Process C R α}
      (h : pool.procs i = .call c next) :
      Step answer i pool ⟨Function.update pool.procs i (next (answer i c pool.state).1),
        (answer i c pool.state).2⟩

/-- Some order of steps leads from a pool to a pool. -/
def Reaches (answer : ι → C → σ → R × σ) : Pool ι C R α σ → Pool ι C R α σ → Prop :=
  Relation.ReflTransGen fun pool pool' => ∃ i, Step answer i pool pool'

/-- The step rule of the process `i`. -/
def acting (answer : ι → C → σ → R × σ) (I : (ι → γ) → σ → Prop) (G : ι → σ → σ → Prop) (i : ι)
    (c : C) (g : γ) (K : R → γ → Prop) : Prop :=
  ∀ notes s, I notes s → notes i = g → G i s (answer i c s).2 ∧
    ∃ g', I (Function.update notes i g') (answer i c s).2 ∧ K (answer i c s).1 g'

section Runs

variable (answer : ι → C → σ → R × σ)

/-- A process can go on alone until it ends, and the others wait. -/
theorem exists_done (pool : Pool ι C R α σ) (i : ι) : ∃ pool', Reaches answer pool pool' ∧
    (∃ a, pool'.procs i = .done a) ∧ ∀ j ≠ i, pool'.procs j = pool.procs j := by
  obtain ⟨procs, s⟩ := pool
  generalize hp : procs i = p
  induction p generalizing procs s with
  | done a => exact ⟨⟨procs, s⟩, .refl, ⟨a, hp⟩, fun _ _ => rfl⟩
  | call c next ih =>
    obtain ⟨pool', hreaches, hdone, hothers⟩ := ih (answer i c s).1
      (Function.update procs i (next (answer i c s).1)) (answer i c s).2 (Function.update_self ..)
    refine ⟨pool', .head ⟨i, .call hp⟩ hreaches, hdone, fun j hj => ?_⟩
    rw [hothers j hj]
    exact Function.update_of_ne hj ..

/-- **Every pool can come to an end.** -/
theorem exists_ended [Finite ι] (pool : Pool ι C R α σ) :
    ∃ pool', Reaches answer pool pool' ∧ ∀ i, ∃ a, pool'.procs i = .done a := by
  have hsome : ∀ s : Set ι, s.Finite →
      ∃ pool', Reaches answer pool pool' ∧ ∀ i ∈ s, ∃ a, pool'.procs i = .done a := by
    intro s hs
    induction s, hs using Set.Finite.induction_on with
    | empty => exact ⟨pool, .refl, nofun⟩
    | @insert i s _ _ ih =>
      obtain ⟨pool', hreaches, hdone⟩ := ih
      obtain ⟨pool'', hreaches', hi, hothers⟩ := exists_done answer pool' i
      refine ⟨pool'', hreaches.trans hreaches', fun j hj => ?_⟩
      by_cases hji : j = i
      · subst hji
        exact hi
      · rw [hothers j hji]
        exact hdone j (hj.resolve_left hji)
  obtain ⟨pool', hreaches, hdone⟩ := hsome Set.univ Set.finite_univ
  exact ⟨pool', hreaches, fun i => hdone i (Set.mem_univ i)⟩

end Runs

variable {answer : ι → C → σ → R × σ} {I : (ι → γ) → σ → Prop} {G : ι → σ → σ → Prop}

theorem acting_monotone (i : ι) : Process.Monotone (acting answer I G i) := by
  intro c g K L hkl h notes s hi hg
  obtain ⟨hguarantee, g', hi', hk⟩ := h notes s hi hg
  exact ⟨hguarantee, g', hi', hkl _ _ hk⟩

variable {Post : ι → α → γ → Prop} {pool pool' : Pool ι C R α σ} {notes : ι → γ}

/-- The notes fit the state, and every process goes on as its note says. -/
structure Kept (answer : ι → C → σ → R × σ) (I : (ι → γ) → σ → Prop) (G : ι → σ → σ → Prop)
    (Post : ι → α → γ → Prop) (pool : Pool ι C R α σ) (notes : ι → γ) : Prop where
  inv : I notes pool.state
  procs : ∀ i, (pool.procs i).wp (acting answer I G i) (Post i) (notes i)

theorem kept_step {i : ι} (h : Kept answer I G Post pool notes) (hs : Step answer i pool pool') :
    G i pool.state pool'.state ∧ ∃ notes', Kept answer I G Post pool' notes' := by
  cases hs with
  | @call c next hc =>
    have hi := h.procs i
    rw [hc] at hi
    obtain ⟨hguarantee, g', hi', hk⟩ := hi notes pool.state h.inv rfl
    refine ⟨hguarantee, Function.update notes i g', hi', fun j => ?_⟩
    by_cases hj : j = i
    · subst hj
      simp only [Function.update_self]
      exact hk
    · simp only [Function.update_of_ne hj]
      exact h.procs j

/-- **Every interleaving keeps the invariant.** -/
theorem kept_reaches (h : ∃ notes, Kept answer I G Post pool notes)
    (hr : Reaches answer pool pool') : ∃ notes, Kept answer I G Post pool' notes := by
  induction hr with
  | refl => exact h
  | tail _ hs ih =>
    obtain ⟨notes, hkept⟩ := ih
    obtain ⟨i, hi⟩ := hs
    exact (kept_step hkept hi).2

/-- **Every step of an interleaving has the guarantee.** -/
theorem guarantee_of_kept {pool'' : Pool ι C R α σ} {i : ι}
    (h : ∃ notes, Kept answer I G Post pool notes) (hr : Reaches answer pool pool')
    (hs : Step answer i pool' pool'') : G i pool'.state pool''.state := by
  obtain ⟨notes, hkept⟩ := kept_reaches h hr
  exact (kept_step hkept hs).1

end Pool

end Lib
