import Polyleverage.Exec.Basic

/-! # Programs that give up earlier

A program that lacks something may abort where another one goes on, and does the same everywhere else. A
program composed of parts that give up earlier gives up earlier, and a run that does not abort is a run of
the other program.
-/

namespace Exec

variable {ε σ α β : Type}

/-- Where `m` does not abort it does what `n` does. -/
class GivesUp (m n : Exec ε σ α) : Prop where
  abort_or_eq : ∀ s, m.run s = .abort ∨ m.run s = n.run s

section Runs

variable {m n : Exec ε σ α} {s t : σ}

theorem GivesUp.run_eq (gives : GivesUp m n) (goes_on : m.run s ≠ .abort) : m.run s = n.run s :=
  (gives.abort_or_eq s).resolve_left goes_on

theorem GivesUp.refl (m : Exec ε σ α) : GivesUp m m := ⟨fun _ => .inr rfl⟩

theorem GivesUp.bind {f g : α → Exec ε σ β} (first : GivesUp m n) (next : ∀ a, GivesUp (f a) (g a)) :
    GivesUp (m >>= f) (n >>= g) where
  abort_or_eq s := by
    rw [run_bind, run_bind]
    rcases first.abort_or_eq s with aborts | same
    · rw [aborts]
      exact .inl rfl
    · rw [same]
      cases n.run s with
      | ok a t => exact (next a).abort_or_eq t
      | err e t => exact .inr rfl
      | abort => exact .inl rfl

/-- The same start, and then what may give up. -/
theorem GivesUp.after (m : Exec ε σ α) {f g : α → Exec ε σ β} (next : ∀ a, GivesUp (f a) (g a)) :
    GivesUp (m >>= f) (m >>= g) :=
  (GivesUp.refl m).bind next

theorem GivesUp.ite (condition : Prop) [Decidable condition] {m' n' : Exec ε σ α} (first : GivesUp m n)
    (second : GivesUp m' n') : GivesUp (if condition then m else m') (if condition then n else n') := by
  split
  · exact first
  · exact second

/-- A stronger reason to abort. -/
theorem GivesUp.abortIf {stronger weaker : Prop} [Decidable stronger] [Decidable weaker] (implied : weaker → stronger) :
    GivesUp (Exec.abortIf stronger : Exec ε σ Unit) (Exec.abortIf weaker) where
  abort_or_eq s := by
    rw [run_abortIf, run_abortIf]
    by_cases holds : stronger
    · exact .inl (if_pos holds)
    · rw [if_neg holds, if_neg (mt implied holds)]
      exact .inr rfl

end Runs

end Exec
