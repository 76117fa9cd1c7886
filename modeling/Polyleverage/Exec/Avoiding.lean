import Polyleverage.Exec.Basic

/-! # Errors that a program cannot end with, by instance search

A program avoids some errors when it cannot end with one of them, in whatever state it starts. A bad
error of a composed program comes from a part that does not avoid it.
-/

namespace Exec

/-- A test of a constant that fails, found by computing it. -/
class IsFalse (b : Bool) : Prop where
  eq_false : b = false

instance : IsFalse false := ⟨rfl⟩

variable {ε σ τ α β : Type} {bad : ε → Bool}

/-- A result that is not a bad error. -/
class Sparing (bad : ε → Bool) (value : Except ε α) : Prop where
  spares : ∀ e, value = .error e → bad e = false

class Avoiding (bad : ε → Bool) (m : Exec ε σ α) : Prop where
  avoids : ∀ s e t, m.run s = .err e t → bad e = false

section Sparing

instance (a : α) : Sparing bad (.ok a : Except ε α) := ⟨fun _ impossible => by cases impossible⟩

instance (a : α) : Sparing bad (pure a : Except ε α) := ⟨fun _ impossible => by cases impossible⟩

instance (e : ε) [IsFalse (bad e)] : Sparing bad (.error e : Except ε α) where
  spares := by
    rintro _ ⟨⟩
    exact IsFalse.eq_false

instance (condition : Prop) [Decidable condition] (v w : Except ε α) [Sparing bad v] [Sparing bad w] :
    Sparing bad (if condition then v else w) := by
  split <;> infer_instance

instance (v : Except ε α) (f : α → Except ε β) [Sparing bad v] [∀ a, Sparing bad (f a)] : Sparing bad (v >>= f) where
  spares e failed := by
    cases found : v with
    | error e' =>
      rw [found] at failed
      cases failed
      exact Sparing.spares _ found
    | ok a =>
      rw [found] at failed
      exact (inferInstance : Sparing bad (f a)).spares e failed

instance (v : Except ε α) (f : α → β) [Sparing bad v] : Sparing bad (v.map f) where
  spares e failed := by
    cases found : v with
    | error e' =>
      rw [found] at failed
      cases failed
      exact Sparing.spares _ found
    | ok a =>
      rw [found] at failed
      cases failed

end Sparing

section Avoiding

instance (a : α) : Avoiding bad (pure a : Exec ε σ α) := ⟨fun _ _ _ impossible => by cases impossible⟩

instance : Avoiding bad (get : Exec ε σ σ) := ⟨fun _ _ _ impossible => by cases impossible⟩

instance (t : σ) : Avoiding bad (put t : Exec ε σ Unit) := ⟨fun _ _ _ impossible => by cases impossible⟩

instance (f : σ → σ) : Avoiding bad (modify f : Exec ε σ Unit) := ⟨fun _ _ _ impossible => by cases impossible⟩

instance : Avoiding bad (abort : Exec ε σ α) := ⟨fun _ _ _ impossible => by cases impossible⟩

instance (e : ε) [IsFalse (bad e)] : Avoiding bad (throw e : Exec ε σ α) where
  avoids := by
    rintro s _ _ ⟨⟩
    exact IsFalse.eq_false

instance (condition : Prop) [Decidable condition] (m n : Exec ε σ α) [Avoiding bad m] [Avoiding bad n] :
    Avoiding bad (if condition then m else n) := by
  split <;> infer_instance

instance (condition : Prop) [Decidable condition] (e : ε) [IsFalse (bad e)] :
    Avoiding bad (rejectIf condition e : Exec ε σ Unit) := by
  unfold rejectIf
  infer_instance

instance (condition : Prop) [Decidable condition] : Avoiding bad (abortIf condition : Exec ε σ Unit) := by
  unfold abortIf
  infer_instance

instance (condition : Prop) [Decidable condition] (m : Exec ε σ Unit) [Avoiding bad m] :
    Avoiding bad (when condition m) := by
  unfold when
  infer_instance

instance (value : Option α) (e : ε) [IsFalse (bad e)] : Avoiding bad (orErr value e : Exec ε σ α) := by
  unfold orErr
  split <;> infer_instance

instance (value : Except ε α) [spares : Sparing bad value] : Avoiding bad (ofExcept value : Exec ε σ α) where
  avoids s e t failed := by
    cases value with
    | ok a => cases failed
    | error e' =>
      cases failed
      exact spares.spares _ rfl

instance (view : σ → Except ε α) [spares : ∀ s, Sparing bad (view s)] : Avoiding bad (gets view) where
  avoids s e t failed := by
    rw [run_gets] at failed
    cases found : view s with
    | ok a =>
      rw [found] at failed
      cases failed
    | error e' =>
      rw [found] at failed
      cases failed
      exact (spares s).spares _ found

/-- A composed program fails in its first part or in its second. -/
theorem err_bind {m : Exec ε σ α} {f : α → Exec ε σ β} {s t : σ} {e : ε} (failed : (m >>= f).run s = .err e t) :
    m.run s = .err e t ∨ ∃ a u, m.run s = .ok a u ∧ (f a).run u = .err e t := by
  rw [run_bind] at failed
  cases ran : m.run s with
  | ok a u =>
    rw [ran] at failed
    exact .inr ⟨a, u, rfl, failed⟩
  | err e' u =>
    rw [ran] at failed
    cases failed
    exact .inl rfl
  | abort =>
    rw [ran] at failed
    cases failed

instance (m : Exec ε σ α) (f : α → Exec ε σ β) [Avoiding bad m] [∀ a, Avoiding bad (f a)] : Avoiding bad (m >>= f) where
  avoids s e t failed := by
    rcases err_bind failed with first | ⟨a, u, -, next⟩
    · exact Avoiding.avoids _ _ _ first
    · exact Avoiding.avoids _ _ _ next

/-- The part that avoids a bad error has returned. -/
theorem err_bind_avoiding {m : Exec ε σ α} {f : α → Exec ε σ β} {s t : σ} {e : ε}
    (bad : ε → Bool) [avoids : Avoiding bad m] (isBad : bad e = true) (failed : (m >>= f).run s = .err e t) :
    ∃ a u, m.run s = .ok a u ∧ (f a).run u = .err e t := by
  rcases err_bind failed with first | later
  · rw [avoids.avoids _ _ _ first] at isBad
    cases isBad
  · exact later

/-- A check that avoids a bad error has passed. -/
theorem err_bind_check {m : Exec ε σ α} {P : σ → α → Prop} [Checks m P] {f : α → Exec ε σ β} {s t : σ} {e : ε}
    (bad : ε → Bool) [Avoiding bad m] (isBad : bad e = true) :
    (m >>= f).run s = .err e t ↔ ∃ a, P s a ∧ (f a).run s = .err e t := by
  constructor
  · intro failed
    obtain ⟨a, u, ran, next⟩ := err_bind_avoiding bad isBad failed
    obtain ⟨holds, rfl⟩ := Checks.run_eq_ok.mp ran
    exact ⟨a, holds, next⟩
  · rintro ⟨a, holds, next⟩
    rw [run_bind_of_ok (Checks.run_eq_ok.mpr ⟨holds, rfl⟩), next]

end Avoiding

end Exec
