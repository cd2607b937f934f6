import SentinelCore.Lib.Check
import Mathlib.Data.Finset.Card
import Mathlib.Data.Finset.Dedup

/-!
# Tallies

A tally goes through a list of entries. An entry is refused with an issue, or accepted for a key in
a role; a key counts once, and a second entry for it only leaves a note. `foldlM_step` splits the
run into the verdicts on the entries, which do not depend on the tally, and a fold over these
verdicts. The results about the fold say what the tally holds in the end, in terms of the set of
accepted pairs alone.
-/

namespace Lib

structure Tally (ι κ ρ : Type) where
  issues : List ι
  /-- The keys counted so far, in order. -/
  seen : List κ
  count : ℕ
  /-- The roles of the counted keys, each once. -/
  roles : List ρ

namespace Tally

variable {α ε ι κ ρ : Type}

/-- The tally before the first entry. -/
def start (issues : List ι) : Tally ι κ ρ := ⟨issues, [], 0, []⟩

/-- The pairs of key and role that some verdicts accept. -/
def accepted (vs : List (Except ι (κ × ρ))) : List (κ × ρ) := vs.filterMap Except.toOption

theorem mem_accepted {vs : List (Except ι (κ × ρ))} {p : κ × ρ} :
    p ∈ accepted vs ↔ .ok p ∈ vs := by
  unfold accepted
  rw [List.mem_filterMap]
  constructor
  · rintro ⟨v, hv, hp⟩
    cases v with
    | error i => cases hp
    | ok q =>
      obtain rfl := Option.some.inj hp
      exact hv
  · intro h
    exact ⟨_, h, rfl⟩

theorem accepted_map_ok (ps : List (κ × ρ)) :
    accepted (ps.map (.ok : _ → Except ι (κ × ρ))) = ps := by
  unfold accepted
  rw [List.filterMap_map]
  exact List.filterMap_some

/-- No key is counted twice, and the count is right. -/
structure Counted (t : Tally ι κ ρ) : Prop where
  nodup : t.seen.Nodup
  count_eq : t.count = t.seen.length

theorem counted_start (issues : List ι) : (start issues : Tally ι κ ρ).Counted :=
  ⟨List.nodup_nil, rfl⟩

/-- Two pairs with the same key have the same role. -/
def Consistent (ps : List (κ × ρ)) : Prop := ∀ p ∈ ps, ∀ q ∈ ps, p.1 = q.1 → p.2 = q.2

/-- The roles are those of the pairs, and every key of a pair is counted. -/
structure Covers (t : Tally ι κ ρ) (ps : List (κ × ρ)) : Prop where
  roles_nodup : t.roles.Nodup
  mem_seen : ∀ k, k ∈ t.seen ↔ ∃ r, (k, r) ∈ ps
  mem_roles : ∀ r, r ∈ t.roles ↔ ∃ k, (k, r) ∈ ps

theorem covers_start (issues : List ι) : (start issues : Tally ι κ ρ).Covers [] :=
  ⟨List.nodup_nil, by simp [start], by simp [start]⟩

variable [DecidableEq κ] [DecidableEq ρ] {duplicate : κ → ι}

/-- One verdict. -/
def absorb (duplicate : κ → ι) (t : Tally ι κ ρ) : Except ι (κ × ρ) → Tally ι κ ρ
  | .error i => { t with issues := t.issues ++ [i] }
  | .ok (k, r) =>
    if k ∈ t.seen then { t with issues := t.issues ++ [duplicate k] }
    else
      { t with
        seen := t.seen ++ [k]
        count := t.count + 1
        roles := if r ∈ t.roles then t.roles else t.roles ++ [r] }

theorem absorb_of_mem {t : Tally ι κ ρ} {k : κ} (hk : k ∈ t.seen) (r : ρ) :
    t.absorb duplicate (.ok (k, r)) = { t with issues := t.issues ++ [duplicate k] } :=
  if_pos hk

theorem absorb_of_not_mem {t : Tally ι κ ρ} {k : κ} (hk : k ∉ t.seen) (r : ρ) :
    t.absorb duplicate (.ok (k, r)) =
      { t with
        seen := t.seen ++ [k]
        count := t.count + 1
        roles := if r ∈ t.roles then t.roles else t.roles ++ [r] } :=
  if_neg hk

/-- One entry. -/
def step (duplicate : κ → ι) (check : α → Check ε ι (κ × ρ)) (t : Tally ι κ ρ) (x : α) :
    Except ε (Tally ι κ ρ) := do
  return t.absorb duplicate (← (check x).run)

theorem foldlM_step (check : α → Check ε ι (κ × ρ)) (t : Tally ι κ ρ) (xs : List α) :
    xs.foldlM (step duplicate check) t =
      (xs.mapM fun x => (check x).run) >>= fun vs => .ok (vs.foldl (absorb duplicate) t) := by
  induction xs generalizing t with
  | nil => rfl
  | cons x xs ih =>
    rw [List.foldlM_cons, List.mapM_cons]
    unfold step
    rcases (check x).run with e | v
    · rfl
    · change xs.foldlM (step duplicate check) (t.absorb duplicate v) = _
      rw [ih]
      rcases xs.mapM fun x => (check x).run with e | vs
      · rfl
      · rfl

/-! ## The counted keys -/

theorem Counted.absorb {t : Tally ι κ ρ} (h : t.Counted) (duplicate : κ → ι)
    (v : Except ι (κ × ρ)) :
    (t.absorb duplicate v).Counted := by
  cases v with
  | error i => exact ⟨h.nodup, h.count_eq⟩
  | ok p =>
    by_cases hk : p.1 ∈ t.seen
    · rw [absorb_of_mem hk]
      exact ⟨h.nodup, h.count_eq⟩
    · rw [absorb_of_not_mem hk]
      refine ⟨?_, ?_⟩
      · rw [List.nodup_append]
        refine ⟨h.nodup, List.nodup_singleton _, ?_⟩
        rintro a ha b hb rfl
        exact hk ((List.mem_singleton.mp hb) ▸ ha)
      · rw [List.length_append, List.length_singleton, h.count_eq]

theorem Counted.foldl {t : Tally ι κ ρ} (h : t.Counted) (duplicate : κ → ι)
    (vs : List (Except ι (κ × ρ))) :
    (vs.foldl (Tally.absorb duplicate) t).Counted := by
  induction vs generalizing t with
  | nil => exact h
  | cons v vs ih => exact ih (h.absorb duplicate v)

theorem mem_seen_absorb {t : Tally ι κ ρ} {v : Except ι (κ × ρ)} {k : κ} :
    k ∈ (t.absorb duplicate v).seen ↔ k ∈ t.seen ∨ ∃ r, v = .ok (k, r) := by
  cases v with
  | error i => simp [absorb]
  | ok p =>
    obtain ⟨k', r⟩ := p
    by_cases hk : k' ∈ t.seen
    · rw [absorb_of_mem hk]
      refine ⟨.inl, ?_⟩
      rintro (h | ⟨r', h⟩)
      · exact h
      · cases h
        exact hk
    · rw [absorb_of_not_mem hk, List.mem_append, List.mem_singleton]
      refine or_congr_right ⟨?_, ?_⟩
      · rintro rfl
        exact ⟨r, rfl⟩
      · rintro ⟨r', h⟩
        cases h
        rfl

theorem mem_seen_foldl {t : Tally ι κ ρ} {vs : List (Except ι (κ × ρ))} {k : κ} :
    k ∈ (vs.foldl (absorb duplicate) t).seen ↔ k ∈ t.seen ∨ ∃ r, (k, r) ∈ accepted vs := by
  simp only [mem_accepted]
  induction vs generalizing t with
  | nil => simp
  | cons v vs ih =>
    rw [List.foldl_cons, ih, mem_seen_absorb, or_assoc, ← exists_or]
    simp only [List.mem_cons, eq_comm]

/-- **The count is the number of different accepted keys.** -/
theorem count_eq_card (issues : List ι) (vs : List (Except ι (κ × ρ))) :
    (vs.foldl (absorb duplicate) (start issues)).count =
      ((accepted vs).map Prod.fst).toFinset.card := by
  have h := (counted_start issues : (start issues : Tally ι κ ρ).Counted).foldl duplicate vs
  rw [h.count_eq, ← List.toFinset_card_of_nodup h.nodup]
  congr 1
  ext k
  rw [List.mem_toFinset, List.mem_toFinset, mem_seen_foldl, List.mem_map]
  simp [start]

/-! ## The roles -/

theorem Covers.absorb_ok {t : Tally ι κ ρ} {ps : List (κ × ρ)} {k : κ} {r : ρ} (h : t.Covers ps)
    (hc : Consistent (ps ++ [(k, r)])) :
    (t.absorb duplicate (.ok (k, r))).Covers (ps ++ [(k, r)]) := by
  by_cases hk : k ∈ t.seen
  · -- a pair with this key was there before, with the same role
    rw [absorb_of_mem hk]
    obtain ⟨r', hr'⟩ := (h.mem_seen k).mp hk
    obtain rfl : r' = r :=
      hc (k, r') (List.mem_append_left _ hr') (k, r) (by simp) rfl
    have hiff : ∀ p, p ∈ ps ++ [(k, r')] ↔ p ∈ ps := fun p => by
      rw [List.mem_append, List.mem_singleton, or_iff_left_iff_imp]
      rintro rfl
      exact hr'
    exact ⟨h.roles_nodup, by simpa only [hiff] using h.mem_seen,
      by simpa only [hiff] using h.mem_roles⟩
  · rw [absorb_of_not_mem hk]
    refine ⟨?_, fun k' => ?_, fun r' => ?_⟩
    · dsimp only
      by_cases hr : r ∈ t.roles
      · rw [if_pos hr]
        exact h.roles_nodup
      · rw [if_neg hr, List.nodup_append]
        refine ⟨h.roles_nodup, List.nodup_singleton _, ?_⟩
        rintro a ha b hb rfl
        exact hr ((List.mem_singleton.mp hb) ▸ ha)
    · simp only [List.mem_append, List.mem_singleton, Prod.mk.injEq, h.mem_seen]
      constructor
      · rintro (⟨r', hr'⟩ | rfl)
        · exact ⟨r', .inl hr'⟩
        · exact ⟨r, .inr ⟨rfl, rfl⟩⟩
      · rintro ⟨r', hr' | ⟨rfl, rfl⟩⟩
        · exact .inl ⟨r', hr'⟩
        · exact .inr rfl
    · have hsplit : r' ∈ (if r ∈ t.roles then t.roles else t.roles ++ [r]) ↔
          r' ∈ t.roles ∨ r' = r := by
        by_cases hr : r ∈ t.roles
        · rw [if_pos hr]
          refine ⟨.inl, ?_⟩
          rintro (h' | rfl)
          · exact h'
          · exact hr
        · rw [if_neg hr, List.mem_append, List.mem_singleton]
      simp only [hsplit, List.mem_append, List.mem_singleton, Prod.mk.injEq, h.mem_roles]
      constructor
      · rintro (⟨k', hk'⟩ | rfl)
        · exact ⟨k', .inl hk'⟩
        · exact ⟨k, .inr ⟨rfl, rfl⟩⟩
      · rintro ⟨k', hk' | ⟨rfl, rfl⟩⟩
        · exact .inl ⟨k', hk'⟩
        · exact .inr rfl

theorem Covers.foldl {t : Tally ι κ ρ} {ps : List (κ × ρ)} {vs : List (Except ι (κ × ρ))}
    (h : t.Covers ps) (duplicate : κ → ι) (hc : Consistent (ps ++ accepted vs)) :
    (vs.foldl (Tally.absorb duplicate) t).Covers (ps ++ accepted vs) := by
  induction vs generalizing t ps with
  | nil => simpa [accepted] using h
  | cons v vs ih =>
    cases v with
    | error i => exact ih ⟨h.roles_nodup, h.mem_seen, h.mem_roles⟩ hc
    | ok p =>
      have hsplit : ps ++ accepted (.ok p :: vs) = (ps ++ [p]) ++ accepted vs := by
        rw [List.append_assoc]
        rfl
      rw [hsplit] at hc ⊢
      refine ih (h.absorb_ok fun p' hp' q hq => ?_) hc
      exact hc p' (List.mem_append_left _ hp') q (List.mem_append_left _ hq)

/-- **The roles are those of the accepted pairs.** -/
theorem mem_roles_foldl {issues : List ι} {vs : List (Except ι (κ × ρ))}
    (hc : Consistent (accepted vs)) {r : ρ} :
    r ∈ (vs.foldl (absorb duplicate) (start issues)).roles ↔ ∃ k, (k, r) ∈ accepted vs := by
  have h := (covers_start issues : (start issues : Tally ι κ ρ).Covers []).foldl duplicate
    (show Consistent ([] ++ accepted vs) from hc)
  exact h.mem_roles r

/-! ## The issues -/

/-- A tally adds no issue of a kind but those of the verdicts. -/
theorem forall_issues_foldl {P : ι → Prop} (hdup : ∀ k, P (duplicate k)) (t : Tally ι κ ρ)
    (vs : List (Except ι (κ × ρ))) :
    (∀ i ∈ (vs.foldl (absorb duplicate) t).issues, P i) ↔
      (∀ i ∈ t.issues, P i) ∧ ∀ i, .error i ∈ vs → P i := by
  induction vs generalizing t with
  | nil => simp
  | cons v vs ih =>
    rw [List.foldl_cons, ih]
    cases v with
    | error i => simp [absorb, or_imp, forall_and, and_assoc]
    | ok p =>
      obtain ⟨k, r⟩ := p
      by_cases hk : k ∈ t.seen
      · rw [absorb_of_mem hk]
        simp [hdup, or_imp, forall_and]
      · rw [absorb_of_not_mem hk]
        simp

/-- Accepting different keys, none counted before, leaves no issue. -/
theorem issues_foldl_ok {t : Tally ι κ ρ} {ps : List (κ × ρ)}
    (h : (t.seen ++ ps.map Prod.fst).Nodup) :
    ((ps.map .ok).foldl (absorb duplicate) t).issues = t.issues := by
  induction ps generalizing t with
  | nil => rfl
  | cons p ps ih =>
    obtain ⟨k, r⟩ := p
    have hk : k ∉ t.seen := fun hk =>
      (List.nodup_append.mp h).2.2 k hk k List.mem_cons_self rfl
    rw [List.map_cons, List.foldl_cons, absorb_of_not_mem hk, ih]
    rw [List.append_assoc]
    exact h

end Tally

end Lib
