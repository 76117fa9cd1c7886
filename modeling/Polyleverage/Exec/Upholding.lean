import Polyleverage.Exec.Keeping

/-! # Invariants of a program, and what they say of its values

A program upholds an invariant when every state that it leaves behind is in it, and then a value that it
returns may be known to have a property. Both are found along the program's text: what is known of an
earlier value is at hand for the rest.
-/

namespace Exec

variable {ε σ τ α β : Type} {I J : σ → Prop}

/-- The invariant is not lost. -/
def Stays (I : σ → Prop) (s t : σ) : Prop := I s → I t

instance : Std.Refl (Stays I) := ⟨fun _ => id⟩

instance : IsTrans σ (Stays I) := ⟨fun _ _ _ first next inside => next (first inside)⟩

/-- From a state of `I` a run leaves only states of `I`, and returns only values of `Q`. -/
structure Upholds (I : σ → Prop) (Q : α → Prop) (m : Exec ε σ α) : Prop where
  state : ∀ s, I s → ∀ t ∈ (m.run s).state?, I t
  value : ∀ s, I s → ∀ a t, m.run s = .ok a t → Q a

section Rules

variable {Q R : α → Prop} {P : β → Prop}

theorem Upholds.keeping {m : Exec ε σ α} (upholds : Upholds I Q m) : Keeping (Stays I) m :=
  ⟨fun s t left inside => upholds.state s inside t left⟩

/-- A program that keeps the invariant, whatever it returns. -/
theorem upholds_of_keeping (m : Exec ε σ α) [Keeping (Stays I) m] : Upholds I (fun _ => True) m :=
  ⟨fun s inside t left => (Keeping.keeps s t left : Stays I s t) inside, fun _ _ _ _ _ => trivial⟩

theorem Upholds.ok {m : Exec ε σ α} (upholds : Upholds I Q m) {s t : σ} {a : α} (inside : I s)
    (ran : m.run s = .ok a t) :
    I t ∧ Q a :=
  ⟨upholds.state s inside t (by rw [ran]; rfl), upholds.value s inside a t ran⟩

theorem Upholds.mono {m : Exec ε σ α} (upholds : Upholds I Q m) (weaker : ∀ a, Q a → R a) : Upholds I R m :=
  ⟨upholds.state, fun s inside a t ran => weaker a (upholds.value s inside a t ran)⟩

theorem Upholds.forget {m : Exec ε σ α} (upholds : Upholds I Q m) : Upholds I (fun _ => True) m :=
  upholds.mono fun _ _ => trivial

theorem upholds_bind {m : Exec ε σ β} {f : β → Exec ε σ α} (first : Upholds I P m)
    (next : ∀ b, P b → Upholds I Q (f b)) :
    Upholds I Q (m >>= f) := by
  constructor
  · intro s inside t left
    rcases left_bind left with ⟨e, failed⟩ | ⟨b, u, ran, left⟩
    · exact first.state s inside t (by rw [failed]; rfl)
    · obtain ⟨inside', known⟩ := first.ok inside ran
      exact (next b known).state u inside' t left
  · intro s inside a t ran
    obtain ⟨b, u, ran, ran'⟩ := bind_ok.mp ran
    obtain ⟨inside', known⟩ := first.ok inside ran
    exact (next b known).value u inside' a t ran'

/-- A check tells its value and what it has checked. -/
theorem upholds_check {m : Exec ε σ α} {C : σ → α → Prop} [Checks m C] [Keeping Eq m]
    (known : ∀ s a, I s → C s a → Q a) :
    Upholds I Q m := by
  constructor
  · intro s inside t left
    obtain rfl : s = t := (Keeping.keeps s t left : s = t)
    exact inside
  · intro s inside a t ran
    exact known s a inside (Checks.run_eq_ok.mp ran).1

/-- A check in front of a program, for what it says without the state. -/
theorem upholds_bind_check {m : Exec ε σ β} {C : σ → β → Prop} [Checks m C] [Keeping Eq m] {f : β → Exec ε σ α}
    (next : ∀ s b, I s → C s b → Upholds I Q (f b)) : Upholds I Q (m >>= f) := by
  have first : Upholds I (fun b => ∃ s, I s ∧ C s b) m := upholds_check fun s b inside checked => ⟨s, inside, checked⟩
  refine upholds_bind first fun b known => ?_
  obtain ⟨s, inside, checked⟩ := known
  exact next s b inside checked

/-- What is known of an earlier value may be needed to keep the invariant. -/
theorem keeping_after {m : Exec ε σ β} {f : β → Exec ε σ α} (first : Upholds I P m)
    (next : ∀ b, P b → Keeping (Stays I) (f b)) :
    Keeping (Stays I) (m >>= f) := by
  have upholds : Upholds I (fun _ => True) (m >>= f) := upholds_bind first fun b known =>
    have := next b known
    upholds_of_keeping (f b)
  exact upholds.keeping

theorem keeping_after_check {m : Exec ε σ β} {C : σ → β → Prop} [Checks m C] [Keeping Eq m] {f : β → Exec ε σ α}
    (next : ∀ s b, I s → C s b → Keeping (Stays I) (f b)) : Keeping (Stays I) (m >>= f) := by
  have first : Upholds I (fun b => ∃ s, I s ∧ C s b) m := upholds_check fun s b inside checked => ⟨s, inside, checked⟩
  refine keeping_after first fun b known => ?_
  obtain ⟨s, inside, checked⟩ := known
  exact next s b inside checked

theorem upholds_pure {a : α} (known : Q a) : Upholds I Q (pure a : Exec ε σ α) := by
  refine upholds_check fun _ b _ same => ?_
  subst same
  exact known

theorem upholds_throw (e : ε) : Upholds I Q (throw e : Exec ε σ α) := by
  constructor
  · intro s inside t left
    cases left
    exact inside
  · intro s _ a t ran
    cases ran

theorem upholds_abort : Upholds I Q (abort : Exec ε σ α) := by
  constructor
  · intro s _ t left
    simp at left
  · intro s _ a t ran
    cases ran

theorem upholds_get : Upholds I I (get : Exec ε σ σ) := by
  refine upholds_check fun s t inside same => ?_
  subst same
  exact inside

theorem upholds_gets {view : σ → Except ε α} (known : ∀ s a, I s → view s = .ok a → Q a) : Upholds I Q (gets view) :=
  upholds_check known

theorem upholds_modify {f : σ → σ} (step : ∀ s, I s → I (f s)) :
    Upholds I (fun _ => True) (modify f : Exec ε σ Unit) := by
  constructor
  · intro s inside t left
    cases left
    exact step s inside
  · exact fun _ _ _ _ _ => trivial

theorem upholds_put {t : σ} (inside : I t) : Upholds I (fun _ => True) (put t : Exec ε σ Unit) := by
  constructor
  · intro s _ u left
    cases left
    exact inside
  · exact fun _ _ _ _ _ => trivial

theorem upholds_ite {condition : Prop} [Decidable condition] {m n : Exec ε σ α} (holds : condition → Upholds I Q m)
    (fails : ¬ condition → Upholds I Q n) : Upholds I Q (if condition then m else n) := by
  split
  next yes => exact holds yes
  next no => exact fails no

theorem upholds_when {condition : Prop} [Decidable condition] {m : Exec ε σ Unit}
    (holds : condition → Upholds I (fun _ => True) m) : Upholds I (fun _ => True) (when condition m) :=
  upholds_ite holds fun _ => upholds_pure trivial

end Rules

end Exec
