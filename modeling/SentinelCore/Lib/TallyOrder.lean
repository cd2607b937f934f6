import SentinelCore.Lib.Tally
import Mathlib.Data.Finset.Insert
import Mathlib.Data.Multiset.AddSub

/-!
# Tallies and the order of the entries

What a tally holds apart from orders: a multiset of issues, a set of keys and a set of roles
(`Contents`). Two verdicts that agree on the role of a key change it alike in either order
(`Contents.absorb_comm`), so a permutation of the verdicts leads to the same contents
(`contents_foldl_perm`).
-/

namespace Lib.Tally

variable {ι κ ρ : Type} [DecidableEq κ] [DecidableEq ρ]

structure Contents (ι κ ρ : Type) where
  issues : Multiset ι
  seen : Finset κ
  roles : Finset ρ

def contents (t : Tally ι κ ρ) : Contents ι κ ρ := ⟨t.issues, t.seen.toFinset, t.roles.toFinset⟩

variable {duplicate : κ → ι}

/-- One verdict. -/
def Contents.absorb (duplicate : κ → ι) (c : Contents ι κ ρ) :
    Except ι (κ × ρ) → Contents ι κ ρ
  | .error i => { c with issues := i ::ₘ c.issues }
  | .ok (k, r) =>
    if k ∈ c.seen then { c with issues := duplicate k ::ₘ c.issues }
    else { c with seen := insert k c.seen, roles := insert r c.roles }

section

variable {is : Multiset ι} {ks : Finset κ} {rs : Finset ρ} {p : κ × ρ}

theorem Contents.absorb_of_mem (h : p.1 ∈ ks) :
    absorb duplicate ⟨is, ks, rs⟩ (.ok p) = ⟨duplicate p.1 ::ₘ is, ks, rs⟩ :=
  if_pos h

theorem Contents.absorb_of_notMem (h : p.1 ∉ ks) :
    absorb duplicate ⟨is, ks, rs⟩ (.ok p) = ⟨is, insert p.1 ks, insert p.2 rs⟩ :=
  if_neg h

end

theorem coe_concat (issues : List ι) (i : ι) :
    ((issues ++ [i] : List ι) : Multiset ι) = i ::ₘ (issues : Multiset ι) :=
  Multiset.coe_eq_coe.mpr (List.perm_append_singleton i issues)

/-- The contents follow the tally. -/
theorem contents_absorb (t : Tally ι κ ρ) (v : Except ι (κ × ρ)) :
    (t.absorb duplicate v).contents = t.contents.absorb duplicate v := by
  cases v with
  | error i =>
    show (⟨(t.issues ++ [i] : List ι), _, _⟩ : Contents ι κ ρ) = _
    rw [coe_concat]
    rfl
  | ok p =>
    obtain ⟨k, r⟩ := p
    by_cases hk : k ∈ t.seen
    · have hk' : (k, r).1 ∈ t.seen.toFinset := List.mem_toFinset.mpr hk
      rw [absorb_of_mem hk, contents, contents, Contents.absorb_of_mem hk', coe_concat]
    · have hseen : (t.seen ++ [k]).toFinset = insert k t.seen.toFinset := by
        ext k'
        simp
      have hroles : (if r ∈ t.roles then t.roles else t.roles ++ [r]).toFinset =
          insert r t.roles.toFinset := by
        ext r'
        by_cases hr : r ∈ t.roles
        · rw [if_pos hr, List.mem_toFinset, Finset.mem_insert, List.mem_toFinset]
          exact ⟨.inr, fun h => h.elim (fun h => h ▸ hr) id⟩
        · simp [if_neg hr]
      have hk' : (k, r).1 ∉ t.seen.toFinset := fun h => hk (List.mem_toFinset.mp h)
      rw [absorb_of_not_mem hk, contents, contents, Contents.absorb_of_notMem hk', hseen, hroles]

theorem contents_foldl (t : Tally ι κ ρ) (vs : List (Except ι (κ × ρ))) :
    (vs.foldl (absorb duplicate) t).contents =
      vs.foldl (Contents.absorb duplicate) t.contents := by
  induction vs generalizing t with
  | nil => rfl
  | cons v vs ih => rw [List.foldl_cons, ih, contents_absorb, List.foldl_cons]

/-- A refusal can be exchanged with anything. -/
theorem Contents.absorb_error_comm (i : ι) (w : Except ι (κ × ρ)) (c : Contents ι κ ρ) :
    (c.absorb duplicate (.error i)).absorb duplicate w =
      (c.absorb duplicate w).absorb duplicate (.error i) := by
  obtain ⟨is, ks, rs⟩ := c
  cases w with
  | error j =>
    show (⟨j ::ₘ i ::ₘ is, ks, rs⟩ : Contents ι κ ρ) = ⟨i ::ₘ j ::ₘ is, ks, rs⟩
    rw [Multiset.cons_swap]
  | ok q =>
    show absorb duplicate ⟨i ::ₘ is, ks, rs⟩ (.ok q) = _
    by_cases hq : q.1 ∈ ks
    · rw [absorb_of_mem hq, absorb_of_mem hq, Multiset.cons_swap]
      rfl
    · rw [absorb_of_notMem hq, absorb_of_notMem hq]
      rfl

/-- Verdicts on different keys can be exchanged. -/
theorem Contents.absorb_ok_comm {p q : κ × ρ} (hpq : p.1 ≠ q.1) (c : Contents ι κ ρ) :
    (c.absorb duplicate (.ok p)).absorb duplicate (.ok q) =
      (c.absorb duplicate (.ok q)).absorb duplicate (.ok p) := by
  obtain ⟨is, ks, rs⟩ := c
  by_cases hp : p.1 ∈ ks
  · by_cases hq : q.1 ∈ ks
    · rw [absorb_of_mem hp, absorb_of_mem hq, absorb_of_mem hq, absorb_of_mem hp, Multiset.cons_swap]
    · rw [absorb_of_mem hp, absorb_of_notMem hq, absorb_of_notMem hq,
        absorb_of_mem (Finset.mem_insert_of_mem hp)]
  · have hp' : p.1 ∉ insert q.1 ks := by simp [hp, hpq]
    by_cases hq : q.1 ∈ ks
    · rw [absorb_of_notMem hp, absorb_of_mem hq, absorb_of_notMem hp,
        absorb_of_mem (Finset.mem_insert_of_mem hq)]
    · have hq' : q.1 ∉ insert p.1 ks := by simp [hq, hpq.symm]
      rw [absorb_of_notMem hp, absorb_of_notMem hq, absorb_of_notMem hq', absorb_of_notMem hp',
        Finset.insert_comm p.1 q.1, Finset.insert_comm p.2 q.2]

/-- Verdicts that do not give one key two roles can be exchanged. -/
theorem Contents.absorb_comm {v w : Except ι (κ × ρ)}
    (h : ∀ p q, v = .ok p → w = .ok q → p.1 = q.1 → p.2 = q.2) (c : Contents ι κ ρ) :
    (c.absorb duplicate v).absorb duplicate w = (c.absorb duplicate w).absorb duplicate v := by
  cases v with
  | error i => exact absorb_error_comm i w c
  | ok p =>
    cases w with
    | error j => exact (absorb_error_comm j (.ok p) c).symm
    | ok q =>
      by_cases hpq : p.1 = q.1
      · obtain rfl : p = q := Prod.ext hpq (h p q rfl rfl hpq)
        rfl
      · exact absorb_ok_comm hpq c

theorem contents_foldl_perm {vs vs' : List (Except ι (κ × ρ))} (hperm : vs.Perm vs')
    (hc : Consistent (accepted vs)) (t : Tally ι κ ρ) :
    (vs.foldl (absorb duplicate) t).contents = (vs'.foldl (absorb duplicate) t).contents := by
  rw [contents_foldl, contents_foldl]
  apply hperm.foldl_eq'
  intro v hv w hw c
  apply Contents.absorb_comm
  rintro p q rfl rfl
  exact hc p (mem_accepted.mpr hv) q (mem_accepted.mpr hw)

/-- **The order of the entries does not matter.** The counts are the same, the roles and the issues
come in another order. -/
theorem foldl_perm {vs vs' : List (Except ι (κ × ρ))} (hperm : vs.Perm vs')
    (hc : Consistent (accepted vs)) (issues : List ι) {t t' : Tally ι κ ρ}
    (ht : vs.foldl (absorb duplicate) (start issues) = t)
    (ht' : vs'.foldl (absorb duplicate) (start issues) = t') :
    t.count = t'.count ∧ t.roles.Perm t'.roles ∧ t.issues.Perm t'.issues := by
  have hc' : Consistent (accepted vs') := by
    intro p hp q hq
    rw [mem_accepted, ← hperm.mem_iff, ← mem_accepted] at hp hq
    exact hc p hp q hq
  have hcontents : t.contents = t'.contents := by
    rw [← ht, ← ht']
    exact contents_foldl_perm hperm hc (start issues)
  obtain ⟨hissues, hseen, hroles⟩ := Contents.mk.inj hcontents
  refine ⟨?_, ?_, Multiset.coe_eq_coe.mp hissues⟩
  · have hcounted : t.Counted := ht ▸ (counted_start issues).foldl duplicate vs
    have hcounted' : t'.Counted := ht' ▸ (counted_start issues).foldl duplicate vs'
    rw [hcounted.count_eq, hcounted'.count_eq, ← List.toFinset_card_of_nodup hcounted.nodup, hseen,
      List.toFinset_card_of_nodup hcounted'.nodup]
  · have hcovers := (covers_start issues).foldl duplicate (show Consistent ([] ++ accepted vs) from hc)
    have hcovers' :=
      (covers_start issues).foldl duplicate (show Consistent ([] ++ accepted vs') from hc')
    rw [ht] at hcovers
    rw [ht'] at hcovers'
    exact List.perm_of_nodup_nodup_toFinset_eq hcovers.roles_nodup hcovers'.roles_nodup hroles

end Lib.Tally
