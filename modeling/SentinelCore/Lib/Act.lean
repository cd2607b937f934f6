import Mathlib.Tactic.SplitIfs

/-!
# Computations that change a state and may raise

`Act σ ε` is a program with attributes of type `σ` that raises exceptions of type `ε`. What was changed
before an exception stays changed.

`run_bind` and its companions say what a program does from a given state. `Ensures x s Q E` says of
the program `x` started in `s` that it returns only with `Q` and raises only with `E`; it has one
rule for each way a program is put together.
-/

namespace Lib

variable {σ ε α β : Type}

abbrev Act (σ ε : Type) := ExceptT ε (StateM σ)

namespace Act

/-- A computation that uses no state. -/
def ofExcept (x : Except ε α) : Act σ ε α := ExceptT.mk (pure x)

/-- `try: body except …: handler`, for the exceptions that are caught. -/
def handle (body : Act σ ε α) (catches : ε → Bool) (handler : ε → Act σ ε α) : Act σ ε α :=
  ExceptT.mk fun s =>
    match body.run s with
    | (.ok a, s') => (.ok a, s')
    | (.error e, s') => if catches e then (handler e).run s' else (.error e, s')

/-! ## Runs -/

theorem run_bind (x : Act σ ε α) (f : α → Act σ ε β) (s : σ) :
    (x >>= f).run s = match x.run s with
      | (.ok a, s') => (f a).run s'
      | (.error e, s') => (.error e, s') := by
  have hb : (x >>= f).run s = ExceptT.bindCont f (x.run s).1 (x.run s).2 := rfl
  rw [hb]
  cases x.run s with
  | mk r s' =>
    cases r with
    | ok a => rfl
    | error e => rfl

theorem run_pure (a : α) (s : σ) : (pure a : Act σ ε α).run s = (.ok a, s) := rfl

theorem run_throw (e : ε) (s : σ) : (throw e : Act σ ε α).run s = (.error e, s) := rfl

theorem run_get (s : σ) : (get : Act σ ε σ).run s = (.ok s, s) := rfl

theorem run_set (s s' : σ) : (set s' : Act σ ε PUnit).run s = (.ok ⟨⟩, s') := rfl

theorem run_modify (f : σ → σ) (s : σ) : (modify f : Act σ ε PUnit).run s = (.ok ⟨⟩, f s) := rfl

theorem run_ofExcept (x : Except ε α) (s : σ) : (ofExcept x : Act σ ε α).run s = (x, s) := rfl

theorem run_ite (p : Prop) [Decidable p] (x y : Act σ ε α) (s : σ) :
    (if p then x else y).run s = if p then x.run s else y.run s := by
  split_ifs <;> rfl

theorem run_handle (body : Act σ ε α) (catches : ε → Bool) (handler : ε → Act σ ε α) (s : σ) :
    (handle body catches handler).run s = match body.run s with
      | (.ok a, s') => (.ok a, s')
      | (.error e, s') => if catches e then (handler e).run s' else (.error e, s') := rfl

theorem exists_run {x : Act σ ε α} {s : σ} {r : Except ε α} (h : (x.run s).1 = r) :
    ∃ s', x.run s = (r, s') :=
  ⟨(x.run s).2, Prod.ext h rfl⟩

/-! ## Postconditions -/

/-- Started in `s`, the program returns only with `Q` and raises only with `E`. -/
def Ensures (x : Act σ ε α) (s : σ) (Q : α → σ → Prop) (E : ε → σ → Prop) : Prop :=
  match x.run s with
  | (.ok a, s') => Q a s'
  | (.error e, s') => E e s'

variable {s : σ} {Q : α → σ → Prop} {E : ε → σ → Prop}

theorem Ensures.mono {x : Act σ ε α} {Q' : α → σ → Prop} {E' : ε → σ → Prop} (h : Ensures x s Q E)
    (hq : ∀ a s', Q a s' → Q' a s') (he : ∀ e s', E e s' → E' e s') : Ensures x s Q' E' := by
  unfold Ensures at *
  split at h
  · exact hq _ _ h
  · exact he _ _ h

/-- Either the program returns with `Q`, or it raises with `E`. -/
theorem Ensures.exists {x : Act σ ε α} (h : Ensures x s Q E) :
    (∃ a s', x.run s = (.ok a, s') ∧ Q a s') ∨ ∃ e s', x.run s = (.error e, s') ∧ E e s' := by
  unfold Ensures at h
  cases hx : x.run s with
  | mk r s' =>
    rw [hx] at h
    cases r with
    | ok a => exact .inl ⟨a, s', rfl, h⟩
    | error e => exact .inr ⟨e, s', rfl, h⟩

theorem ensures_pure {a : α} (h : Q a s) : Ensures (pure a) s Q E := h

theorem ensures_throw {e : ε} (h : E e s) : Ensures (throw e : Act σ ε α) s Q E := h

theorem ensures_ofExcept {x : Except ε α} (hok : ∀ a, x = .ok a → Q a s)
    (herror : ∀ e, x = .error e → E e s) : Ensures (ofExcept x) s Q E := by
  cases x with
  | ok a => exact hok a rfl
  | error e => exact herror e rfl

theorem ensures_ite {p : Prop} [Decidable p] {x y : Act σ ε α} (hx : p → Ensures x s Q E)
    (hy : ¬p → Ensures y s Q E) : Ensures (if p then x else y) s Q E := by
  split_ifs with h
  · exact hx h
  · exact hy h

theorem ensures_modify {f : σ → σ} {Q : PUnit → σ → Prop} (h : Q ⟨⟩ (f s)) :
    Ensures (modify f) s Q E := h

theorem ensures_bind {x : Act σ ε α} {f : α → Act σ ε β} {R : β → σ → Prop}
    (h : Ensures x s (fun a s' => Ensures (f a) s' R E) E) : Ensures (x >>= f) s R E := by
  unfold Ensures at h ⊢
  rw [run_bind]
  cases hx : x.run s with
  | mk r s' =>
    rw [hx] at h
    cases r with
    | ok a => exact h
    | error e => exact h

theorem ensures_get_bind {f : σ → Act σ ε β} {R : β → σ → Prop} (h : Ensures (f s) s R E) :
    Ensures (get >>= f) s R E :=
  ensures_bind h

theorem ensures_handle {body : Act σ ε α} {catches : ε → Bool} {handler : ε → Act σ ε α}
    (h : Ensures body s Q fun e s' =>
      if catches e = true then Ensures (handler e) s' Q E else E e s') :
    Ensures (handle body catches handler) s Q E := by
  unfold Ensures at h ⊢
  rw [run_handle]
  cases hx : body.run s with
  | mk r s' =>
    rw [hx] at h
    cases r with
    | ok a => exact h
    | error e =>
      change if catches e = true then _ else _ at h
      by_cases hc : catches e = true
      · rw [if_pos hc] at h
        simp only [if_pos hc]
        exact h
      · rw [if_neg hc] at h
        simp only [if_neg hc]
        exact h

end Act

end Lib
