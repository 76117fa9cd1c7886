import Polyleverage.Exec.Basic

/-! # Programs that do not see a change

A program commutes with a change of the state when it makes no difference whether the change comes before
the program or after it. That holds for a composed program when it holds for its parts.
-/

namespace Outcome

variable {ε σ α β : Type}

def mapState (f : σ → σ) : Outcome ε σ α → Outcome ε σ α
  | ok a s => ok a (f s)
  | err e s => err e (f s)
  | abort => abort

@[simp] theorem mapState_ok (f : σ → σ) (a : α) (s : σ) : (ok a s : Outcome ε σ α).mapState f = ok a (f s) := rfl

@[simp] theorem mapState_err (f : σ → σ) (e : ε) (s : σ) : (err e s : Outcome ε σ α).mapState f = err e (f s) := rfl

@[simp] theorem mapState_abort (f : σ → σ) : (abort : Outcome ε σ α).mapState f = abort := rfl

end Outcome

namespace Exec

variable {ε σ α β : Type} {f : σ → σ}

/-- Changing the state by `f` before the program is changing it after. -/
class Commutes (f : σ → σ) (m : Exec ε σ α) : Prop where
  run_map : ∀ s, m.run (f s) = (m.run s).mapState f

theorem Commutes.ok {m : Exec ε σ α} [commutes : Commutes f m] {s t : σ} {a : α} (ran : m.run s = .ok a t) :
    m.run (f s) = .ok a (f t) := by
  rw [commutes.run_map, ran, Outcome.mapState_ok]

theorem commutes_bind {m : Exec ε σ α} {g : α → Exec ε σ β} (first : Commutes f m) (next : ∀ a, Commutes f (g a)) :
    Commutes f (m >>= g) where
  run_map s := by
    rw [run_bind, run_bind, first.run_map]
    cases m.run s with
    | ok a t => exact (next a).run_map t
    | err e t => rfl
    | abort => rfl

instance (m : Exec ε σ α) (g : α → Exec ε σ β) [Commutes f m] [∀ a, Commutes f (g a)] : Commutes f (m >>= g) :=
  commutes_bind inferInstance inferInstance

/-- A program that reads the state first, but makes no difference of the change. -/
theorem commutes_bind_get {g : σ → Exec ε σ β} (same : ∀ s, g (f s) = g s) (next : ∀ s, Commutes f (g s)) :
    Commutes f (get >>= g) where
  run_map s := by rw [run_bind_get, run_bind_get, same, (next s).run_map]

instance (a : α) : Commutes f (pure a : Exec ε σ α) := ⟨fun _ => rfl⟩

instance (e : ε) : Commutes f (throw e : Exec ε σ α) := ⟨fun _ => rfl⟩

instance : Commutes f (abort : Exec ε σ α) := ⟨fun _ => rfl⟩

instance (condition : Prop) [Decidable condition] (m n : Exec ε σ α) [Commutes f m] [Commutes f n] :
    Commutes f (if condition then m else n) := by
  split <;> infer_instance

instance (condition : Prop) [Decidable condition] (e : ε) : Commutes f (rejectIf condition e : Exec ε σ Unit) := by
  unfold rejectIf
  infer_instance

instance (condition : Prop) [Decidable condition] (m : Exec ε σ Unit) [Commutes f m] : Commutes f (when condition m) := by
  unfold when
  infer_instance

/-- Reading what the change leaves alone. -/
theorem commutes_gets {view : σ → Except ε α} (same : ∀ s, view (f s) = view s) : Commutes f (gets view) where
  run_map s := by
    rw [run_gets, run_gets, same]
    cases view s <;> rfl

theorem commutes_modify {g : σ → σ} (same : ∀ s, g (f s) = f (g s)) : Commutes f (modify g : Exec ε σ Unit) where
  run_map s := by rw [run_modify, run_modify, same, Outcome.mapState_ok]

end Exec
