import Mathlib.Data.List.Basic
import Mathlib.Data.List.Infix

/-!
# Linked records

Records that carry a position and the hash of the record before them. `Linked n h l` says that the
records of `l` stand at the positions `n`, `n + 1`, … and that each is linked to the one before it,
the first to the hash `h`.

1. The recursive definition says the same as conditions on neighbours (`linked_iff`).
2. A rearrangement of linked records is linked again exactly if it is a prefix
   (`Linked.iff_isPrefix`): a record's position tells where it stands.
3. The last hash pins the records, as far as a hash pins a record (`forall₂_of_lastHash`).
-/

namespace Lib

/-- How records are read: their position, the hash they link to, and their own hash. -/
structure Chain (α η : Type) where
  position : α → ℕ
  previous : α → η
  hash : α → Option η

namespace Chain

variable {α η : Type} (c : Chain α η)

def Linked : ℕ → η → List α → Prop
  | _, _, [] => True
  | n, h, a :: l => c.position a = n ∧ c.previous a = h ∧ ∃ h', c.hash a = some h' ∧ Linked (n + 1) h' l

/-- The hash of the last record. -/
def lastHash (l : List α) : Option η := l.getLast?.bind c.hash

variable {c} {n : ℕ} {h : η} {l : List α}

theorem linked_cons {a : α} :
    c.Linked n h (a :: l) ↔
      c.position a = n ∧ c.previous a = h ∧ ∃ h', c.hash a = some h' ∧ c.Linked (n + 1) h' l :=
  Iff.rfl

/-! ## Neighbours -/

theorem linked_iff : c.Linked n h l ↔
    (∀ a ∈ l, ∃ h', c.hash a = some h') ∧ (∀ i a, l[i]? = some a → c.position a = n + i) ∧
      (∀ a, l[0]? = some a → c.previous a = h) ∧
      ∀ i a b, l[i]? = some a → l[i + 1]? = some b → c.hash a = some (c.previous b) := by
  induction l generalizing n h with
  | nil => simp [Linked]
  | cons a l ih =>
    rw [linked_cons]
    constructor
    · rintro ⟨hpos, hprev, h', hhash, hl⟩
      obtain ⟨hsome, hposs, hfirst, hnext⟩ := ih.mp hl
      refine ⟨List.forall_mem_cons.mpr ⟨⟨h', hhash⟩, hsome⟩, fun i b hb => ?_, fun b hb => ?_,
        fun i b d hb hd => ?_⟩
      · cases i with
        | zero => cases hb; exact hpos
        | succ i => rw [hposs i b hb]; omega
      · cases hb
        exact hprev
      · cases i with
        | zero => cases hb; rw [hhash, hfirst d hd]
        | succ i => exact hnext i b d hb hd
    · rintro ⟨hsome, hposs, hfirst, hnext⟩
      obtain ⟨h', hhash⟩ := hsome a List.mem_cons_self
      refine ⟨hposs 0 a rfl, hfirst a rfl, h', hhash, ih.mpr ⟨fun b hb => ?_, fun i b hb => ?_,
        fun b hb => ?_, fun i b d hb hd => hnext (i + 1) b d hb hd⟩⟩
      · exact hsome b (List.mem_cons_of_mem _ hb)
      · rw [hposs (i + 1) b hb]; omega
      · have := hnext 0 a b rfl hb
        rw [hhash] at this
        exact (Option.some.inj this).symm

/-! ## Rearrangements -/

theorem Linked.le_position (hl : c.Linked n h l) {a : α} (ha : a ∈ l) : n ≤ c.position a := by
  obtain ⟨-, hpos, -, -⟩ := linked_iff.mp hl
  obtain ⟨i, hi⟩ := List.mem_iff_getElem?.mp ha
  rw [hpos i a hi]
  omega

/-- The part of a chain before any point is a chain. -/
theorem Linked.of_isPrefix {l' : List α} (hl : c.Linked n h l) (hp : l' <+: l) : c.Linked n h l' := by
  induction l' generalizing n h l with
  | nil => trivial
  | cons a l' ih =>
    obtain ⟨t, rfl⟩ := hp
    obtain ⟨hpos, hprev, h', hhash, hrest⟩ := hl
    exact ⟨hpos, hprev, h', hhash, ih hrest (List.prefix_append _ _)⟩

theorem Linked.isPrefix_of_subset {l' : List α} (hl : c.Linked n h l) (hl' : c.Linked n h l')
    (hmem : ∀ a ∈ l', a ∈ l) : l' <+: l := by
  induction l' generalizing n h l with
  | nil => exact List.nil_prefix
  | cons a l' ih =>
    obtain ⟨hpos', hprev', h', hhash', hrest'⟩ := hl'
    cases l with
    | nil => cases hmem a List.mem_cons_self
    | cons b l =>
      obtain ⟨hpos, hprev, h'', hhash, hrest⟩ := hl
      -- only the head of the chain stands at position `n`
      have hab : a = b := by
        rcases List.mem_cons.mp (hmem a List.mem_cons_self) with hab | ha
        · exact hab
        · have := hrest.le_position ha
          omega
      subst hab
      obtain rfl : h' = h'' := Option.some.inj (hhash'.symm.trans hhash)
      refine List.cons_prefix_cons.mpr ⟨rfl, ih hrest hrest' fun x hx => ?_⟩
      rcases List.mem_cons.mp (hmem x (List.mem_cons_of_mem _ hx)) with rfl | hxl
      · have := hrest'.le_position hx
        omega
      · exact hxl

/-- A rearrangement of linked records is linked exactly if it is a prefix. -/
theorem Linked.iff_isPrefix {l' : List α} (hl : c.Linked n h l) (hmem : ∀ a ∈ l', a ∈ l) :
    c.Linked n h l' ↔ l' <+: l :=
  ⟨fun hl' => hl.isPrefix_of_subset hl' hmem, hl.of_isPrefix⟩

/-! ## The last hash -/

/-- Going back from the last hash, each hash pins its record and the record the hash before it. -/
theorem forall₂_of_lastHash {Same : α → α → Prop} {n' : ℕ} {g : η} {l' : List α}
    (hl : c.Linked n h l) (hl' : c.Linked n' g l') (hlen : l.length = l'.length)
    (hhash : ∀ a ∈ l, ∀ b ∈ l', c.hash a = c.hash b → Same a b)
    (hprev : ∀ a ∈ l, ∀ b ∈ l', Same a b → c.previous a = c.previous b)
    (hlast : c.lastHash l = c.lastHash l') : List.Forall₂ Same l l' := by
  induction l generalizing n h n' g l' with
  | nil =>
    cases l' with
    | nil => exact .nil
    | cons b l' => cases hlen
  | cons a l ih =>
    cases l' with
    | nil => cases hlen
    | cons b l' =>
      obtain ⟨-, -, ha, hha, hrest⟩ := hl
      obtain ⟨-, -, hb, hhb, hrest'⟩ := hl'
      have hsame := hhash a List.mem_cons_self b List.mem_cons_self
      cases l with
      | nil =>
        cases l' with
        | nil => exact .cons (hsame hlast) .nil
        | cons b' l' => cases hlen
      | cons a' l =>
        cases l' with
        | nil => cases hlen
        | cons b' l' =>
          have htail := ih hrest hrest' (Nat.succ.inj hlen)
            (fun x hx y hy => hhash x (List.mem_cons_of_mem _ hx) y (List.mem_cons_of_mem _ hy))
            (fun x hx y hy => hprev x (List.mem_cons_of_mem _ hx) y (List.mem_cons_of_mem _ hy))
            (by simpa [lastHash] using hlast)
          cases htail with
          | cons hab' hrest₂ =>
            have heq : c.previous a' = c.previous b' := hprev a' (by simp) b' (by simp) hab'
            have hlink : ha = hb := hrest.2.1.symm.trans (heq.trans hrest'.2.1)
            exact .cons (hsame (by rw [hha, hhb, hlink])) (.cons hab' hrest₂)

end Chain

end Lib
