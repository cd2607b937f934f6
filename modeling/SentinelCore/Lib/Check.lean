import Mathlib.Data.List.Forall2

/-!
# Checks

A check looks at a value and does one of three things: it accepts it and passes something on, it
refuses it with an issue, or it crashes with an exception nobody catches. A program that looks at
many values records the issues and goes on; only a crash stops it.

`Accepts`, `Refuses` and `Crashes` have one rule for each way a check is put together, so what a
check does is read off its text.
-/

namespace Lib

variable {ε ι α β : Type}

theorem bind_eq_ok {x : Except ε α} {f : α → Except ε β} {b : β} :
    x >>= f = .ok b ↔ ∃ a, x = .ok a ∧ f a = .ok b := by
  cases x with
  | error e => exact ⟨fun h => (by cases h), fun ⟨a, h, _⟩ => (by cases h)⟩
  | ok a => exact ⟨fun h => ⟨a, rfl, h⟩, fun ⟨a', ha, h⟩ => (Except.ok.inj ha) ▸ h⟩

theorem bind_eq_error {x : Except ε α} {f : α → Except ε β} {e : ε} :
    x >>= f = .error e ↔ x = .error e ∨ ∃ a, x = .ok a ∧ f a = .error e := by
  cases x with
  | error e' =>
    refine ⟨fun h => .inl (congrArg Except.error (Except.error.inj h)), ?_⟩
    rintro (h | ⟨a, h, _⟩)
    · exact congrArg Except.error (Except.error.inj h)
    · cases h
  | ok a =>
    refine ⟨fun h => .inr ⟨a, rfl, h⟩, ?_⟩
    rintro (h | ⟨a', ha, h⟩)
    · cases h
    · exact (Except.ok.inj ha) ▸ h

theorem bind_of_ok {x : Except ε α} {f : α → Except ε β} {a : α} (h : x = .ok a) :
    x >>= f = f a := by
  rw [h]
  rfl

theorem exists_bind {x : Except ε α} {f : α → Except ε β} (hx : ∃ a, x = .ok a)
    (hf : ∀ a, x = .ok a → ∃ b, f a = .ok b) : ∃ b, x >>= f = .ok b := by
  obtain ⟨a, ha⟩ := hx
  obtain ⟨b, hb⟩ := hf a ha
  exact ⟨b, bind_eq_ok.mpr ⟨a, ha, hb⟩⟩

theorem pure_eq_ok {a b : α} : (pure a : Except ε α) = .ok b ↔ a = b :=
  ⟨Except.ok.inj, congrArg Except.ok⟩

theorem mapError_eq_ok {ε' : Type} {x : Except ε α} {f : ε → ε'} {a : α} :
    x.mapError f = .ok a ↔ x = .ok a := by
  cases x with
  | error e => exact iff_of_false (fun h => by cases h) fun h => by cases h
  | ok b => exact ⟨fun h => congrArg Except.ok (Except.ok.inj h), congrArg (Except.mapError f)⟩

theorem exists_of_map {x : Except ε α} {f : α → β} {b : β} (h : x.toOption.map f = some b) :
    ∃ a, x = .ok a ∧ f a = b := by
  cases x with
  | error e => cases h
  | ok a => exact ⟨a, rfl, Option.some.inj h⟩

theorem eq_ok_getD {x : Except ε α} {d : α} (h : x.toOption.isSome = true) :
    x = .ok (x.toOption.getD d) := by
  cases x with
  | error e => cases h
  | ok a => rfl

theorem exists_ok_of_isSome {x : Except ε α} (h : x.toOption.isSome = true) : ∃ a, x = .ok a := by
  cases x with
  | error e => cases h
  | ok a => exact ⟨a, rfl⟩

theorem ne_ok_of_isNone {x : Except ε α} (h : x.toOption.isNone = true) (a : α) : x ≠ .ok a := by
  rintro rfl
  cases h

/-- Whatever the computation raises has a property. -/
def Raises (x : Except ε α) (P : ε → Prop) : Prop := ∀ e, x = .error e → P e

theorem Raises.mono {x : Except ε α} {P Q : ε → Prop} (h : Raises x P) (hpq : ∀ e, P e → Q e) :
    Raises x Q :=
  fun e he => hpq e (h e he)

theorem raises_ok {a : α} {P : ε → Prop} : Raises (.ok a : Except ε α) P := fun _ h => by cases h

theorem raises_bind {x : Except ε α} {f : α → Except ε β} {P : ε → Prop} (hx : Raises x P)
    (hf : ∀ a, x = .ok a → Raises (f a) P) : Raises (x >>= f) P := by
  intro e h
  rcases bind_eq_error.mp h with h | ⟨a, ha, h⟩
  · exact hx e h
  · exact hf a ha e h

/-- A list maps to a list of results exactly when each of its values does. -/
theorem mapM_eq_ok {f : α → Except ε β} {xs : List α} {ys : List β} :
    xs.mapM f = .ok ys ↔ List.Forall₂ (fun x y => f x = .ok y) xs ys := by
  induction xs generalizing ys with
  | nil =>
    rw [List.mapM_nil, pure_eq_ok, List.forall₂_nil_left_iff, eq_comm]
  | cons x xs ih =>
    rw [List.mapM_cons, bind_eq_ok, List.forall₂_cons_left_iff]
    constructor
    · rintro ⟨y, hy, h⟩
      obtain ⟨ys', hys, h⟩ := bind_eq_ok.mp h
      exact ⟨y, ys', hy, ih.mp hys, (pure_eq_ok.mp h).symm⟩
    · rintro ⟨y, ys', hy, hys, rfl⟩
      exact ⟨y, hy, bind_eq_ok.mpr ⟨ys', ih.mpr hys, rfl⟩⟩

theorem mem_of_mapM {f : α → Except ε β} {xs : List α} {ys : List β} (h : xs.mapM f = .ok ys)
    {y : β} : y ∈ ys ↔ ∃ x ∈ xs, f x = .ok y := by
  induction xs generalizing ys with
  | nil =>
    obtain rfl := Except.ok.inj h
    simp
  | cons x xs ih =>
    rw [List.mapM_cons] at h
    obtain ⟨y', hy', h⟩ := bind_eq_ok.mp h
    obtain ⟨ys', hys', h⟩ := bind_eq_ok.mp h
    obtain rfl := pure_eq_ok.mp h
    rw [List.mem_cons, List.exists_mem_cons_iff, ih hys', hy', Except.ok.injEq, @eq_comm _ y y']

/-- Every value on the left of related lists has a partner. -/
theorem exists_of_forall₂ {R : α → β → Prop} {xs : List α} {ys : List β}
    (h : List.Forall₂ R xs ys) {x : α} (hx : x ∈ xs) : ∃ y ∈ ys, R x y := by
  induction h with
  | nil => cases hx
  | @cons x' y xs ys hxy hrest ih =>
    rcases List.mem_cons.mp hx with rfl | hx
    · exact ⟨y, List.mem_cons_self, hxy⟩
    · obtain ⟨y', hy', hr⟩ := ih hx
      exact ⟨y', List.mem_cons_of_mem _ hy', hr⟩

theorem exists_of_mapM {f : α → Except ε β} {xs : List α} {ys : List β}
    (h : xs.mapM f = .ok ys) {x : α} (hx : x ∈ xs) : ∃ y ∈ ys, f x = .ok y :=
  exists_of_forall₂ (mapM_eq_ok.mp h) hx

theorem exists_mapM {f : α → Except ε β} {xs : List α} (h : ∀ x ∈ xs, ∃ y, f x = .ok y) :
    ∃ ys, xs.mapM f = .ok ys := by
  induction xs with
  | nil => exact ⟨[], rfl⟩
  | cons x xs ih =>
    obtain ⟨y, hy⟩ := h x List.mem_cons_self
    obtain ⟨ys, hys⟩ := ih fun x hx => h x (List.mem_cons_of_mem _ hx)
    exact ⟨y :: ys, mapM_eq_ok.mpr (.cons hy (mapM_eq_ok.mp hys))⟩

/-- A check with exceptions `ε` and issues `ι`. -/
abbrev Check (ε ι : Type) := ExceptT ι (Except ε)

namespace Check

def Accepts (c : Check ε ι α) (a : α) : Prop := c.run = .ok (.ok a)

def Refuses (c : Check ε ι α) (i : ι) : Prop := c.run = .ok (.error i)

def Crashes (c : Check ε ι α) (e : ε) : Prop := c.run = .error e

/-- Goes on if the condition holds. -/
def require (p : Prop) [Decidable p] (i : ι) : Check ε ι Unit := if p then pure () else throw i

/-- Goes on with the value, if there is one. -/
def ofOption (o : Option α) (i : ι) : Check ε ι α :=
  match o with
  | some a => pure a
  | none => throw i

/-- A computation whose exceptions are not caught. -/
def ofExcept (m : Except ε α) : Check ε ι α := ExceptT.lift m

/-- A computation whose exceptions of some classes become issues. -/
def attempt (m : Except ε α) (catches : ε → Bool) (onError : ε → ι) : Check ε ι α :=
  match m with
  | .ok a => pure a
  | .error e => if catches e then throw (onError e) else ofExcept (.error e)

/-- The issues of a check that passes nothing on: none or one. -/
def issues (c : Check ε ι Unit) : Except ε (List ι) := do
  match ← c.run with
  | .ok () => return []
  | .error i => return [i]

section Rules

variable {c : Check ε ι α} {f : α → Check ε ι β} {a : α} {b : β} {i j : ι} {e : ε}

theorem trichotomy (c : Check ε ι α) :
    (∃ a, c.Accepts a) ∨ (∃ i, c.Refuses i) ∨ ∃ e, c.Crashes e := by
  rcases h : c.run with e | i | a
  · exact .inr (.inr ⟨e, h⟩)
  · exact .inr (.inl ⟨i, h⟩)
  · exact .inl ⟨a, h⟩

theorem Accepts.unique {a' : α} (h : c.Accepts a) (h' : c.Accepts a') : a = a' :=
  Except.ok.inj (Except.ok.inj (h.symm.trans h'))

@[simp] theorem accepts_pure {a' : α} : (pure a : Check ε ι α).Accepts a' ↔ a = a' :=
  ⟨fun h => Except.ok.inj (Except.ok.inj h), fun h => congrArg (Except.ok ∘ Except.ok) h⟩

@[simp] theorem not_refuses_pure : ¬(pure a : Check ε ι α).Refuses i := fun h => by cases h

@[simp] theorem not_crashes_pure : ¬(pure a : Check ε ι α).Crashes e := fun h => by cases h

@[simp] theorem not_accepts_throw : ¬(throw i : Check ε ι α).Accepts a := fun h => by cases h

@[simp] theorem not_crashes_throw : ¬(throw i : Check ε ι α).Crashes e := fun h => by cases h

theorem run_bind_error (h : c.run = .error e) : (c >>= f).run = .error e := by
  change (c.run >>= ExceptT.bindCont f) = _
  rw [h]
  rfl

theorem run_bind_refused (h : c.run = .ok (.error i)) : (c >>= f).run = .ok (.error i) := by
  change (c.run >>= ExceptT.bindCont f) = _
  rw [h]
  rfl

theorem run_bind_accepted (h : c.run = .ok (.ok a)) : (c >>= f).run = (f a).run := by
  change (c.run >>= ExceptT.bindCont f) = _
  rw [h]
  rfl

theorem accepts_bind : (c >>= f).Accepts b ↔ ∃ a, c.Accepts a ∧ (f a).Accepts b := by
  unfold Accepts
  rcases h : c.run with e | i | a
  · rw [run_bind_error h]
    simp
  · rw [run_bind_refused h]
    simp
  · rw [run_bind_accepted h]
    simp

theorem crashes_bind :
    (c >>= f).Crashes e ↔ c.Crashes e ∨ ∃ a, c.Accepts a ∧ (f a).Crashes e := by
  unfold Crashes Accepts
  rcases h : c.run with e' | i | a
  · rw [run_bind_error h]
    simp
  · rw [run_bind_refused h]
    simp
  · rw [run_bind_accepted h]
    simp

@[simp] theorem accepts_require {p : Prop} [Decidable p] {u : Unit} :
    (require p i : Check ε ι Unit).Accepts u ↔ p := by
  unfold require
  split_ifs with h <;> simp [h]

@[simp] theorem accepts_ofOption {o : Option α} :
    (ofOption o i : Check ε ι α).Accepts a ↔ o = some a := by
  cases o <;> simp [ofOption]

@[simp] theorem not_crashes_ofOption {o : Option α} : ¬(ofOption o i : Check ε ι α).Crashes e := by
  cases o <;> simp [ofOption]

@[simp] theorem accepts_ofExcept {m : Except ε α} :
    (ofExcept m : Check ε ι α).Accepts a ↔ m = .ok a := by
  cases m with
  | error e => exact ⟨fun h => (by cases h), fun h => (by cases h)⟩
  | ok a' => exact accepts_pure.trans (Except.ok.injEq ..).to_iff.symm

@[simp] theorem crashes_ofExcept {m : Except ε α} :
    (ofExcept m : Check ε ι α).Crashes e ↔ m = .error e := by
  cases m with
  | error e' => exact ⟨fun h => Except.error.inj h ▸ rfl, fun h => Except.error.inj h ▸ rfl⟩
  | ok a => exact ⟨fun h => (by cases h), fun h => (by cases h)⟩

@[simp] theorem accepts_attempt {m : Except ε α} {catches : ε → Bool} {onError : ε → ι} :
    (attempt m catches onError).Accepts a ↔ m = .ok a := by
  unfold attempt
  split
  · simp
  · split_ifs <;> simp

@[simp] theorem crashes_attempt {m : Except ε α} {catches : ε → Bool} {onError : ε → ι} :
    (attempt m catches onError).Crashes e ↔ m = .error e ∧ catches e = false := by
  unfold attempt
  split
  · simp
  · next e' =>
    split_ifs with h
    · refine ⟨fun h' => absurd h' not_crashes_throw, fun ⟨h1, h2⟩ => ?_⟩
      rw [← Except.error.inj h1, h] at h2
      cases h2
    · rw [crashes_ofExcept]
      refine ⟨fun h' => ⟨h', ?_⟩, fun h' => h'.1⟩
      rw [← Except.error.inj h']
      exact eq_false_of_ne_true h

theorem run_attempt_ok {m : Except ε α} {catches : ε → Bool} {onError : ε → ι} (h : m = .ok a) :
    (attempt m catches onError).run = .ok (.ok a) :=
  accepts_attempt.mpr h

theorem run_attempt_error {m : Except ε α} {catches : ε → Bool} {onError : ε → ι}
    (h : m = .error e) (hcatches : catches e = true) :
    (attempt m catches onError).run = .ok (.error (onError e)) := by
  unfold attempt
  rw [h]
  dsimp only
  rw [if_pos hcatches]
  rfl

/-- A check that returns has no issues exactly when it accepts. -/
theorem issues_eq_ok {c : Check ε ι Unit} {l : List ι} (h : c.issues = .ok l) :
    l = [] ↔ c.Accepts () := by
  unfold issues at h
  unfold Accepts
  rcases hrun : c.run with e | i | u
  · rw [hrun] at h
    cases h
  · rw [hrun] at h
    obtain rfl := Except.ok.inj h
    simp
  · rw [hrun] at h
    obtain rfl := Except.ok.inj h
    simp

theorem issues_eq_error {c : Check ε ι Unit} {e : ε} : c.issues = .error e ↔ c.Crashes e := by
  unfold issues Crashes
  rcases c.run with e' | i | u
  · exact ⟨fun h => congrArg Except.error (Except.error.inj h),
      fun h => congrArg Except.error (Except.error.inj h)⟩
  · exact iff_of_false (fun h => by cases h) fun h => by cases h
  · exact iff_of_false (fun h => by cases h) fun h => by cases h

theorem exists_issues {c : Check ε ι Unit} (h : ∀ e, ¬c.Crashes e) : ∃ l, c.issues = .ok l := by
  rcases hc : c.issues with e | l
  · exact absurd (issues_eq_error.mp hc) (h e)
  · exact ⟨l, rfl⟩

/-- Every issue the check can refuse with has a property. -/
def RefusesWith (c : Check ε ι α) (P : ι → Prop) : Prop := ∀ i, c.Refuses i → P i

variable {P : ι → Prop}

theorem refusesWith_pure : (pure a : Check ε ι α).RefusesWith P :=
  fun _ h => absurd h not_refuses_pure

theorem refusesWith_throw (h : P i) : (throw i : Check ε ι α).RefusesWith P :=
  fun _ h' => Except.error.inj (Except.ok.inj h') ▸ h

theorem refusesWith_bind (hc : c.RefusesWith P) (hf : ∀ a, (f a).RefusesWith P) :
    (c >>= f).RefusesWith P := by
  intro i h
  unfold Refuses at h
  rcases hrun : c.run with e | j | a
  · rw [run_bind_error hrun] at h
    cases h
  · rw [run_bind_refused hrun] at h
    exact Except.error.inj (Except.ok.inj h) ▸ hc j hrun
  · rw [run_bind_accepted hrun] at h
    exact hf a i h

theorem refusesWith_require {p : Prop} [Decidable p] (h : P i) :
    (require p i : Check ε ι Unit).RefusesWith P := by
  unfold require
  split_ifs
  · exact refusesWith_pure
  · exact refusesWith_throw h

theorem refusesWith_ofOption {o : Option α} (h : P i) :
    (ofOption o i : Check ε ι α).RefusesWith P := by
  cases o with
  | none => exact refusesWith_throw h
  | some a => exact refusesWith_pure

theorem refusesWith_ofExcept {m : Except ε α} : (ofExcept m : Check ε ι α).RefusesWith P := by
  intro i h
  cases m <;> cases h

theorem refusesWith_attempt {m : Except ε α} {catches : ε → Bool} {onError : ε → ι}
    (h : ∀ e, P (onError e)) : (attempt m catches onError).RefusesWith P := by
  unfold attempt
  split
  · exact refusesWith_pure
  · split_ifs
    · exact refusesWith_throw (h _)
    · exact refusesWith_ofExcept

end Rules

end Check

end Lib
