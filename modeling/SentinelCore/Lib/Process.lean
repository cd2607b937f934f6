import Mathlib.Logic.Function.Basic

/-!
# Programs that make calls

A `Process` sees the world through calls only: it makes one, gets the answer and goes on. What the
world is and who else uses it is said outside of the program.

`wp step p Q g` is the weakest precondition of the program `p` for `Q`, where `step c g K` says what a
call `c` made in the situation `g` has to do for `K` to hold of its answer and of the situation after
it. A `Prog` may raise, and `Meets step p Q E g` says that it returns with `Q` and raises with `E`; it
has one rule for each way a program is put together, whatever `step` is.
-/

namespace Lib

/-- A program that ends with a value, or makes a call and goes on with the answer. -/
inductive Process (C R α : Type) where
  | done (a : α)
  | call (c : C) (next : R → Process C R α)

variable {C R ε α β γ σ : Type}

namespace Process

protected def bind : Process C R α → (α → Process C R β) → Process C R β
  | done a, f => f a
  | call c next, f => call c fun r => (next r).bind f

instance : Monad (Process C R) where
  pure := done
  bind := Process.bind

/-- The run against a world that answers the calls. -/
def run (answer : C → σ → R × σ) : Process C R α → σ → α × σ
  | done a, s => (a, s)
  | call c next, s => run answer (next (answer c s).1) (answer c s).2

/-- What every call keeps of the world is kept by the run. -/
theorem run_preserves {answer : C → σ → R × σ} {P : σ → Prop} (hcall : ∀ c s, P s → P (answer c s).2)
    (p : Process C R α) {s : σ} (h : P s) : P (p.run answer s).2 := by
  induction p generalizing s with
  | done a => exact h
  | call c next ih => exact ih _ (hcall c s h)

/-- What has to hold of the situation for the program to end with `Q`. -/
def wp (step : C → γ → (R → γ → Prop) → Prop) : Process C R α → (α → γ → Prop) → γ → Prop
  | done a, Q, g => Q a g
  | call c next, Q, g => step c g fun r g' => (next r).wp step Q g'

theorem wp_bind (step : C → γ → (R → γ → Prop) → Prop) (p : Process C R α)
    (f : α → Process C R β) (Q : β → γ → Prop) (g : γ) :
    (p >>= f).wp step Q g ↔ p.wp step (fun a g' => (f a).wp step Q g') g := by
  induction p generalizing g with
  | done a => exact Iff.rfl
  | call c next ih =>
    have hnext : (fun r g' => ((next r).bind f).wp step Q g') =
        fun r g' => (next r).wp step (fun a g' => (f a).wp step Q g') g' := by
      funext r g'
      exact propext (ih r g')
    show step c g (fun r g' => ((next r).bind f).wp step Q g') ↔ _
    rw [hnext]
    exact Iff.rfl

/-- A step rule that keeps what follows from a condition. -/
def Monotone (step : C → γ → (R → γ → Prop) → Prop) : Prop :=
  ∀ c g (K L : R → γ → Prop), (∀ r g', K r g' → L r g') → step c g K → step c g L

theorem wp_mono {step : C → γ → (R → γ → Prop) → Prop} (hstep : Monotone step) {p : Process C R α}
    {Q Q' : α → γ → Prop} (hq : ∀ a g, Q a g → Q' a g) {g : γ} (h : p.wp step Q g) :
    p.wp step Q' g := by
  induction p generalizing g with
  | done a => exact hq a g h
  | call c next ih => exact hstep c g _ _ (fun r g' h' => ih r h') h

/-- The step rule of a world that answers the calls, with its state as the situation. -/
def answering (answer : C → σ → R × σ) (c : C) (s : σ) (K : R → σ → Prop) : Prop :=
  K (answer c s).1 (answer c s).2

theorem answering_monotone (answer : C → σ → R × σ) : Monotone (answering answer) :=
  fun _ _ _ _ h hk => h _ _ hk

theorem wp_answering {answer : C → σ → R × σ} {p : Process C R α} {Q : α → σ → Prop} {s : σ} :
    p.wp (answering answer) Q s ↔ Q (p.run answer s).1 (p.run answer s).2 := by
  induction p generalizing s with
  | done a => exact Iff.rfl
  | call c next ih => exact ih _

end Process

/-- A program that makes calls and may raise. -/
abbrev Prog (C R ε : Type) := ExceptT ε (Process C R)

namespace Prog

def ask (c : C) : Prog C R ε R := ExceptT.mk (.call c fun r => .done (.ok r))

/-- A computation that makes no calls. -/
def ofExcept (x : Except ε α) : Prog C R ε α := ExceptT.mk (.done x)

/-- `try: body except e: handler`. -/
def handle (body : Prog C R ε α) (handler : ε → Prog C R ε α) : Prog C R ε α :=
  ExceptT.mk (body.run >>= fun
    | .ok a => .done (.ok a)
    | .error e => (handler e).run)

/-- `try: body finally: cleanup`. What the cleanup raises takes the place of what the body did. -/
def tryFinally (body : Prog C R ε α) (cleanup : Prog C R ε Unit) : Prog C R ε α :=
  ExceptT.mk (body.run >>= fun r => cleanup.run >>= fun
    | .ok () => .done r
    | .error e => .done (.error e))

/-- The program returns with `Q` and raises with `E`. -/
def Meets (step : C → γ → (R → γ → Prop) → Prop) (p : Prog C R ε α) (Q : α → γ → Prop)
    (E : ε → γ → Prop) (g : γ) : Prop :=
  p.run.wp step (fun r g' => match r with | .ok a => Q a g' | .error e => E e g') g

section Rules

variable {step : C → γ → (R → γ → Prop) → Prop} {Q : α → γ → Prop} {E : ε → γ → Prop} {g : γ}

theorem meets_pure {a : α} : Meets step (pure a : Prog C R ε α) Q E g ↔ Q a g := Iff.rfl

theorem meets_throw {e : ε} : Meets step (throw e : Prog C R ε α) Q E g ↔ E e g := Iff.rfl

theorem meets_ofExcept {x : Except ε α} : Meets step (ofExcept x : Prog C R ε α) Q E g ↔
    match x with | .ok a => Q a g | .error e => E e g := Iff.rfl

theorem meets_ask {c : C} {Q : R → γ → Prop} :
    Meets step (ask c : Prog C R ε R) Q E g ↔ step c g Q := Iff.rfl

theorem meets_bind {p : Prog C R ε α} {f : α → Prog C R ε β} {Q : β → γ → Prop} :
    Meets step (p >>= f) Q E g ↔ Meets step p (fun a g' => Meets step (f a) Q E g') E g := by
  show Process.wp step (p.run >>= ExceptT.bindCont f) _ g ↔ _
  rw [Process.wp_bind]
  unfold Meets
  refine iff_of_eq (congrArg (fun K => p.run.wp step K g) ?_)
  funext r g'
  cases r with
  | ok a => rfl
  | error e => rfl

theorem meets_handle {body : Prog C R ε α} {handler : ε → Prog C R ε α} :
    Meets step (handle body handler) Q E g ↔
      Meets step body Q (fun e g' => Meets step (handler e) Q E g') g := by
  show Process.wp step (body.run >>= _) _ g ↔ _
  rw [Process.wp_bind]
  unfold Meets
  refine iff_of_eq (congrArg (fun K => body.run.wp step K g) ?_)
  funext r g'
  cases r with
  | ok a => rfl
  | error e => rfl

theorem meets_tryFinally {body : Prog C R ε α} {cleanup : Prog C R ε Unit} :
    Meets step (tryFinally body cleanup) Q E g ↔
      Meets step body (fun a g' => Meets step cleanup (fun _ g'' => Q a g'') E g')
        (fun e g' => Meets step cleanup (fun _ g'' => E e g'') E g') g := by
  show Process.wp step (body.run >>= _) _ g ↔ _
  rw [Process.wp_bind]
  unfold Meets
  refine iff_of_eq (congrArg (fun K => body.run.wp step K g) ?_)
  funext r g'
  refine (propext (Process.wp_bind step cleanup.run _ _ g')).trans ?_
  cases r with
  | ok a =>
    refine congrArg (fun K => cleanup.run.wp step K g') ?_
    funext r' g''
    cases r' with
    | ok u => rfl
    | error e => rfl
  | error e =>
    refine congrArg (fun K => cleanup.run.wp step K g') ?_
    funext r' g''
    cases r' with
    | ok u => rfl
    | error e => rfl

theorem Meets.mono (hstep : Process.Monotone step) {p : Prog C R ε α} {Q' : α → γ → Prop}
    {E' : ε → γ → Prop} (h : Meets step p Q E g) (hq : ∀ a g, Q a g → Q' a g)
    (he : ∀ e g, E e g → E' e g) : Meets step p Q' E' g := by
  refine Process.wp_mono hstep (fun r g' => ?_) h
  cases r with
  | ok a => exact hq a g'
  | error e => exact he e g'

/-- What holds against a world that answers the calls is a property of the run. -/
theorem meets_answering {answer : C → σ → R × σ} {p : Prog C R ε α} {Q : α → σ → Prop}
    {E : ε → σ → Prop} {s : σ} :
    Meets (Process.answering answer) p Q E s ↔
      match p.run.run answer s with
      | (.ok a, s') => Q a s'
      | (.error e, s') => E e s' := by
  unfold Meets
  rw [Process.wp_answering]
  cases p.run.run answer s with
  | mk r s' =>
    cases r with
    | ok a => exact Iff.rfl
    | error e => exact Iff.rfl

end Rules

end Prog

end Lib
