import Polyleverage.Exec.Basic

/-! # Programs that respect a relation, by instance search

A program respects a relation when every state that it leaves behind is related to its start. For a
preorder this is found by instance search along the program's text.
-/

namespace Exec

variable {ε σ α β : Type} {R : σ → σ → Prop}

class Keeping (R : σ → σ → Prop) (m : Exec ε σ α) : Prop where
  keeps : Keeps R m

section Preorder

variable [IsTrans σ R]

theorem keeping_bind {m : Exec ε σ α} {f : α → Exec ε σ β} (first : Keeping R m) (next : ∀ a, Keeping R (f a)) :
    Keeping R (m >>= f) :=
  ⟨keeps_bind first.keeps fun a => (next a).keeps⟩

instance (m : Exec ε σ α) (f : α → Exec ε σ β) [Keeping R m] [∀ a, Keeping R (f a)] : Keeping R (m >>= f) :=
  keeping_bind inferInstance inferInstance

variable [Std.Refl R]

instance (a : α) : Keeping R (pure a : Exec ε σ α) := ⟨keeps_pure a⟩

instance (condition : Prop) [Decidable condition] (m n : Exec ε σ α) [Keeping R m] [Keeping R n] :
    Keeping R (if condition then m else n) := by
  split <;> infer_instance

instance (e : ε) : Keeping R (throw e : Exec ε σ α) := ⟨keeps_throw e⟩

instance : Keeping R (abort : Exec ε σ α) := ⟨keeps_abort⟩

instance : Keeping R (get : Exec ε σ σ) := ⟨keeps_get⟩

instance (view : σ → Except ε α) : Keeping R (gets view) := ⟨keeps_gets view⟩

instance (condition : Prop) [Decidable condition] (e : ε) : Keeping R (rejectIf condition e : Exec ε σ Unit) :=
  ⟨keeps_rejectIf condition e⟩

instance (condition : Prop) [Decidable condition] : Keeping R (abortIf condition : Exec ε σ Unit) :=
  ⟨keeps_abortIf condition⟩

instance (condition : Prop) [Decidable condition] (m : Exec ε σ Unit) [Keeping R m] : Keeping R (when condition m) :=
  ⟨keeps_when fun _ => Keeping.keeps⟩

instance (value : Option α) (e : ε) : Keeping R (orErr value e : Exec ε σ α) := ⟨keeps_orErr value e⟩

instance (value : Except ε α) : Keeping R (ofExcept value : Exec ε σ α) := ⟨keeps_ofExcept value⟩

instance (m : Exec ε σ Unit) [Keeping R m] : Keeping R (swallow m) := ⟨keeps_swallow Keeping.keeps⟩

end Preorder

/-- A program that starts by reading the state keeps what it keeps from the state that was read. -/
theorem keeps_bind_get {f : σ → Exec ε σ α} (keeps : ∀ s, ∀ t ∈ ((f s).run s).state?, R s t) : Keeps R (get >>= f) :=
  fun s t left => keeps s t left

/-- A check in front of a program decides whether the program runs. -/
theorem left_bind_decided {m : Exec ε σ α} {P : σ → α → Prop} [Checks m P] [Keeping Eq m] {f : α → Exec ε σ β} {s t : σ}
    (left : t ∈ ((m >>= f).run s).state?) : (t = s ∧ ∀ a, ¬ P s a) ∨ ∃ a, P s a ∧ t ∈ ((f a).run s).state? := by
  rcases left_bind left with ⟨e, failed⟩ | ⟨a, u, ran, left⟩
  · refine .inl ⟨(Keeping.keeps.err failed : s = t).symm, fun a holds => ?_⟩
    rw [Checks.run_eq_ok.mpr ⟨holds, rfl⟩] at failed
    cases failed
  · obtain ⟨holds, rfl⟩ := Checks.run_eq_ok.mp ran
    exact .inr ⟨a, holds, left⟩

/-- A check in front of a program leaves the state to it. -/
theorem left_bind_check {m : Exec ε σ α} {P : σ → α → Prop} [Checks m P] [Keeping Eq m] {f : α → Exec ε σ β} {s t : σ}
    (left : t ∈ ((m >>= f).run s).state?) : t = s ∨ ∃ a, P s a ∧ t ∈ ((f a).run s).state? :=
  (left_bind_decided left).imp And.left id

/-- Seen through `view`, the program computes `f`: it returns with the new value or fails with the same error,
and then it has written nothing. -/
def Refines {τ : Type} (view : σ → τ) (f : τ → Except ε τ) (m : Exec ε σ Unit) (s : σ) : Prop :=
  (∃ t, m.run s = .ok () t ∧ f (view s) = .ok (view t)) ∨ ∃ e, m.run s = .err e s ∧ f (view s) = .error e

section Refines

variable {τ : Type} {view : σ → τ} {f : τ → Except ε τ} {m : Exec ε σ Unit} {s t : σ} {e : ε} {u : Unit}

theorem Refines.ok (refines : Refines view f m s) (ran : m.run s = .ok u t) : f (view s) = .ok (view t) := by
  obtain ⟨t', ran', same⟩ | ⟨e, failed, -⟩ := refines
  · rw [ran] at ran'
    cases ran'
    exact same
  · rw [ran] at failed
    cases failed

/-- It returns, or it leaves the state as it was. -/
theorem Refines.ok_or_unchanged (refines : Refines view f m s) : (∃ t, m.run s = .ok () t) ∨ ∃ e, m.run s = .err e s := by
  obtain ⟨t, ran, -⟩ | ⟨e, failed, -⟩ := refines
  · exact .inl ⟨t, ran⟩
  · exact .inr ⟨e, failed⟩

end Refines

end Exec
