import Mathlib.Order.RelClasses

/-! # Programs whose errors keep their writes

A program reads and writes one state and ends in one of three ways. It returns a value, it returns
an error, or it aborts. An error does not undo the writes made before it: a caller that inspects the
error and goes on sees them, and only the outermost caller decides whether they are dropped. An
abort carries no state, because nothing can run after it.

The rules invert a successful run into its successful parts, compute the run of a composed program,
and bound what any program, however it ends, may do to the state.
-/

/-- How a run ends. -/
inductive Outcome (ε σ α : Type) where
  | ok (value : α) (state : σ)
  | err (error : ε) (state : σ)
  | abort
  deriving DecidableEq, Repr

namespace Outcome

variable {ε σ α β : Type}

/-- Continue after a value; an error or an abort ends the run. -/
def bind (outcome : Outcome ε σ α) (next : α → σ → Outcome ε σ β) : Outcome ε σ β :=
  match outcome with
  | ok a s => next a s
  | err e s => err e s
  | abort => abort

/-- The state left behind, unless the run aborted. -/
def state? : Outcome ε σ α → Option σ
  | ok _ s => some s
  | err _ s => some s
  | abort => none

/-- The value, if there is one. -/
def value? : Outcome ε σ α → Option α
  | ok a _ => some a
  | _ => none

/-- The error, if there is one. -/
def error? : Outcome ε σ α → Option ε
  | err e _ => some e
  | _ => none

theorem value?_eq_some {outcome : Outcome ε σ α} {a : α} : outcome.value? = some a ↔ ∃ s, outcome = ok a s := by
  cases outcome <;> simp [value?]

theorem error?_eq_some {outcome : Outcome ε σ α} {e : ε} : outcome.error? = some e ↔ ∃ s, outcome = err e s := by
  cases outcome <;> simp [error?]

@[simp] theorem bind_ok (a : α) (s : σ) (next : α → σ → Outcome ε σ β) :
    (ok a s).bind next = next a s := rfl

@[simp] theorem bind_err (e : ε) (s : σ) (next : α → σ → Outcome ε σ β) :
    (err e s).bind next = err e s := rfl

@[simp] theorem bind_abort (next : α → σ → Outcome ε σ β) :
    (abort : Outcome ε σ α).bind next = abort := rfl

@[simp] theorem state?_ok (a : α) (s : σ) : (ok a s : Outcome ε σ α).state? = some s := rfl

@[simp] theorem state?_err (e : ε) (s : σ) : (err e s : Outcome ε σ α).state? = some s := rfl

@[simp] theorem state?_abort : (abort : Outcome ε σ α).state? = none := rfl

theorem bind_eq_ok {outcome : Outcome ε σ α} {next : α → σ → Outcome ε σ β} {b : β} {t : σ} :
    outcome.bind next = ok b t ↔ ∃ a s, outcome = ok a s ∧ next a s = ok b t := by
  cases outcome <;> simp [and_assoc]

end Outcome

/-- A program over the state `σ`, with errors in `ε`. -/
def Exec (ε σ α : Type) : Type := σ → Outcome ε σ α

namespace Exec

variable {ε σ τ α β : Type}

def run (program : Exec ε σ α) (s : σ) : Outcome ε σ α := program s

instance : Monad (Exec ε σ) where
  pure a := fun s => .ok a s
  bind m f := fun s => (m.run s).bind fun a t => (f a).run t

/-- Two programs with the same runs are the same program. -/
theorem ext {m n : Exec ε σ α} (same : ∀ s, m.run s = n.run s) : m = n := funext same

def get : Exec ε σ σ := fun s => .ok s s

def put (t : σ) : Exec ε σ Unit := fun _ => .ok () t

def modify (f : σ → σ) : Exec ε σ Unit := fun s => .ok () (f s)

def throw (e : ε) : Exec ε σ α := fun s => .err e s

/-- A panic, or an inner call that takes the whole transaction down with it. -/
def abort : Exec ε σ α := fun _ => .abort

/-- Fail with `e` when the condition holds. -/
def rejectIf (condition : Prop) [Decidable condition] (e : ε) : Exec ε σ Unit :=
  if condition then throw e else pure ()

/-- Abort when the condition holds. -/
def abortIf (condition : Prop) [Decidable condition] : Exec ε σ Unit :=
  if condition then abort else pure ()

/-- Run the program only when the condition holds. -/
def when (condition : Prop) [Decidable condition] (m : Exec ε σ Unit) : Exec ε σ Unit :=
  if condition then m else pure ()

/-- The value, or the error when there is none. -/
def orErr (value : Option α) (e : ε) : Exec ε σ α :=
  match value with
  | some a => pure a
  | none => throw e

def ofExcept (value : Except ε α) : Exec ε σ α :=
  match value with
  | .ok a => pure a
  | .error e => throw e

/-- Read through a partial view of the state. -/
def gets (view : σ → Except ε α) : Exec ε σ α := fun s =>
  match view s with
  | .ok a => .ok a s
  | .error e => .err e s

/-- Inspect an error and go on: the writes of the failed program stay. -/
def swallow (m : Exec ε σ Unit) : Exec ε σ (Option ε) := fun s =>
  match m.run s with
  | .ok _ t => .ok none t
  | .err e t => .ok (some e) t
  | .abort => .abort

section Runs

@[simp] theorem run_pure (a : α) (s : σ) : (pure a : Exec ε σ α).run s = .ok a s := rfl

theorem run_bind (m : Exec ε σ α) (f : α → Exec ε σ β) (s : σ) :
    (m >>= f).run s = (m.run s).bind fun a t => (f a).run t := rfl

@[simp] theorem run_get (s : σ) : (get : Exec ε σ σ).run s = .ok s s := rfl

@[simp] theorem run_put (t s : σ) : (put t : Exec ε σ Unit).run s = .ok () t := rfl

@[simp] theorem run_modify (f : σ → σ) (s : σ) : (modify f : Exec ε σ Unit).run s = .ok () (f s) := rfl

theorem run_swallow (m : Exec ε σ Unit) (s : σ) :
    (swallow m).run s = match m.run s with
      | .ok _ t => .ok none t
      | .err e t => .ok (some e) t
      | .abort => .abort := rfl

@[simp] theorem run_throw (e : ε) (s : σ) : (throw e : Exec ε σ α).run s = .err e s := rfl

@[simp] theorem run_abort (s : σ) : (abort : Exec ε σ α).run s = .abort := rfl

theorem run_rejectIf (condition : Prop) [Decidable condition] (e : ε) (s : σ) :
    (rejectIf condition e : Exec ε σ Unit).run s = if condition then .err e s else .ok () s := by
  unfold rejectIf
  split <;> rfl

theorem run_abortIf (condition : Prop) [Decidable condition] (s : σ) :
    (abortIf condition : Exec ε σ Unit).run s = if condition then .abort else .ok () s := by
  unfold abortIf
  split <;> rfl

theorem run_when (condition : Prop) [Decidable condition] (m : Exec ε σ Unit) (s : σ) :
    (when condition m).run s = if condition then m.run s else .ok () s := by
  unfold when
  split <;> rfl

theorem run_gets (view : σ → Except ε α) (s : σ) :
    (gets view).run s = match view s with | .ok a => .ok a s | .error e => .err e s := rfl

/-- The run of a bind whose first part returns. -/
theorem run_bind_of_ok {m : Exec ε σ α} {f : α → Exec ε σ β} {s t : σ} {a : α}
    (first : m.run s = .ok a t) : (m >>= f).run s = (f a).run t := by
  rw [run_bind, first, Outcome.bind_ok]

end Runs

theorem run_bind_get {f : σ → Exec ε σ β} (s : σ) : (get >>= f).run s = (f s).run s := rfl

section Success

variable {s t : σ}

theorem pure_ok {a b : α} : (pure a : Exec ε σ α).run s = .ok b t ↔ a = b ∧ s = t := by simp

theorem bind_ok {m : Exec ε σ α} {f : α → Exec ε σ β} {b : β} :
    (m >>= f).run s = .ok b t ↔ ∃ a u, m.run s = .ok a u ∧ (f a).run u = .ok b t :=
  Outcome.bind_eq_ok

theorem get_ok {u : σ} : (get : Exec ε σ σ).run s = .ok u t ↔ s = u ∧ s = t := by simp

theorem put_ok {u : σ} {b : Unit} : (put u : Exec ε σ Unit).run s = .ok b t ↔ u = t := by simp

theorem modify_ok {f : σ → σ} {b : Unit} : (modify f : Exec ε σ Unit).run s = .ok b t ↔ f s = t := by
  simp

theorem rejectIf_ok {condition : Prop} [Decidable condition] {e : ε} {b : Unit} :
    (rejectIf condition e : Exec ε σ Unit).run s = .ok b t ↔ ¬ condition ∧ s = t := by
  rw [run_rejectIf]
  split <;> simp_all

theorem abortIf_ok {condition : Prop} [Decidable condition] {b : Unit} :
    (abortIf condition : Exec ε σ Unit).run s = .ok b t ↔ ¬ condition ∧ s = t := by
  rw [run_abortIf]
  split <;> simp_all

theorem when_ok {condition : Prop} [Decidable condition] {m : Exec ε σ Unit} {b : Unit} :
    (when condition m).run s = .ok b t ↔
      (condition ∧ m.run s = .ok () t) ∨ (¬ condition ∧ s = t) := by
  rw [run_when]
  split <;> simp_all

theorem orErr_ok {value : Option α} {e : ε} {a : α} :
    (orErr value e : Exec ε σ α).run s = .ok a t ↔ value = some a ∧ s = t := by
  cases value <;> simp [orErr]

theorem ofExcept_ok {value : Except ε α} {a : α} :
    (ofExcept value : Exec ε σ α).run s = .ok a t ↔ value = .ok a ∧ s = t := by
  cases value <;> simp [ofExcept]

theorem gets_ok {view : σ → Except ε α} {a : α} :
    (gets view).run s = .ok a t ↔ view s = .ok a ∧ s = t := by
  rw [run_gets]
  split <;> simp_all

/-- A swallowed program ends in the state its run left, with or without an error. -/
theorem swallow_ok {m : Exec ε σ Unit} {caught : Option ε} :
    (swallow m).run s = .ok caught t ↔
      (caught = none ∧ m.run s = .ok () t) ∨ ∃ e, caught = some e ∧ m.run s = .err e t := by
  rw [run_swallow]
  cases m.run s with
  | ok _ u => simp [eq_comm]
  | err e u =>
    constructor
    · intro same
      cases same
      exact .inr ⟨e, rfl, rfl⟩
    · rintro (⟨_, ⟨⟩⟩ | ⟨_, rfl, ⟨⟩⟩)
      rfl
  | abort => simp

end Success

/-! ### Programs that only check -/

/-- A program that leaves the state alone. It returns `a` exactly when `P` holds of the state and `a`. -/
class Checks (m : Exec ε σ α) (P : outParam (σ → α → Prop)) : Prop where
  run_eq_ok : ∀ {s t : σ} {a : α}, m.run s = .ok a t ↔ P s a ∧ s = t

section Checks

variable {s t : σ}

/-- A check in front of a program. -/
theorem bind_check {m : Exec ε σ α} {P : σ → α → Prop} [Checks m P] {f : α → Exec ε σ β} {b : β} :
    (m >>= f).run s = .ok b t ↔ ∃ a, P s a ∧ (f a).run s = .ok b t := by
  simp only [bind_ok, Checks.run_eq_ok]
  constructor
  · rintro ⟨a, _, ⟨holds, rfl⟩, ran⟩
    exact ⟨a, holds, ran⟩
  · rintro ⟨a, holds, ran⟩
    exact ⟨a, s, ⟨holds, rfl⟩, ran⟩

instance (a : α) : Checks (pure a : Exec ε σ α) fun _ b => a = b := ⟨pure_ok⟩

instance : Checks (get : Exec ε σ σ) fun s u => s = u := ⟨get_ok⟩

instance (condition : Prop) [Decidable condition] (e : ε) :
    Checks (rejectIf condition e : Exec ε σ Unit) fun _ _ => ¬ condition := ⟨rejectIf_ok⟩

instance (condition : Prop) [Decidable condition] :
    Checks (abortIf condition : Exec ε σ Unit) fun _ _ => ¬ condition := ⟨abortIf_ok⟩

instance (value : Option α) (e : ε) : Checks (orErr value e : Exec ε σ α) fun _ a => value = some a := ⟨orErr_ok⟩

instance (value : Except ε α) : Checks (ofExcept value : Exec ε σ α) fun _ a => value = .ok a := ⟨ofExcept_ok⟩

instance (value : Except ε Unit) : Checks (ofExcept value : Exec ε σ Unit) fun _ _ => value = .ok () := ⟨ofExcept_ok⟩

instance (view : σ → Except ε α) : Checks (gets view : Exec ε σ α) fun s a => view s = .ok a := ⟨gets_ok⟩

end Checks

/-! ### What a program may do to the state, however it ends -/

/-- Every state the program leaves behind, by returning or by failing, is related to its start. -/
def Keeps (R : σ → σ → Prop) (m : Exec ε σ α) : Prop :=
  ∀ s, ∀ t ∈ (m.run s).state?, R s t

section Keeps

variable {R : σ → σ → Prop}

theorem Keeps.ok {m : Exec ε σ α} (keeps : Keeps R m) {s t : σ} {a : α} (ran : m.run s = .ok a t) : R s t :=
  keeps s t (by simp [ran])

theorem Keeps.err {m : Exec ε σ α} (keeps : Keeps R m) {s t : σ} {e : ε} (ran : m.run s = .err e t) : R s t :=
  keeps s t (by simp [ran])

/-- What a composed program leaves behind is what its first part failed with, or what its second part
leaves behind. -/
theorem left_bind {m : Exec ε σ α} {f : α → Exec ε σ β} {s t : σ} (left : t ∈ ((m >>= f).run s).state?) :
    (∃ e, m.run s = .err e t) ∨ ∃ a u, m.run s = .ok a u ∧ t ∈ ((f a).run u).state? := by
  rw [run_bind] at left
  cases ran : m.run s with
  | ok a u => exact .inr ⟨a, u, rfl, by simpa [ran] using left⟩
  | err e u =>
    rw [ran, Outcome.bind_err] at left
    cases left
    exact .inl ⟨e, rfl⟩
  | abort => simp [ran] at left

theorem Keeps.mono {Q : σ → σ → Prop} {m : Exec ε σ α} (keeps : Keeps R m) (weaker : ∀ s t, R s t → Q s t) :
    Keeps Q m :=
  fun s t left => weaker s t (keeps s t left)

theorem keeps_modify {f : σ → σ} (step : ∀ s, R s (f s)) : Keeps R (modify f : Exec ε σ Unit) := by
  intro s t left
  cases left
  exact step s

theorem keeps_abort : Keeps R (abort : Exec ε σ α) := by
  intro s t left
  simp at left

theorem keeps_swallow {m : Exec ε σ Unit} (keeps : Keeps R m) : Keeps R (swallow m) := by
  intro s t left
  cases ran : m.run s with
  | ok a u =>
    have : (swallow m).run s = .ok none u := swallow_ok.mpr (.inl ⟨rfl, ran⟩)
    simp only [this, Outcome.state?_ok, Option.mem_def, Option.some.injEq] at left
    exact left ▸ keeps.ok ran
  | err e u =>
    have : (swallow m).run s = .ok (some e) u := swallow_ok.mpr (.inr ⟨e, rfl, ran⟩)
    simp only [this, Outcome.state?_ok, Option.mem_def, Option.some.injEq] at left
    exact left ▸ keeps.err ran
  | abort =>
    simp [run_swallow, ran] at left

theorem keeps_bind [IsTrans σ R] {m : Exec ε σ α} {f : α → Exec ε σ β} (first : Keeps R m)
    (next : ∀ a, Keeps R (f a)) : Keeps R (m >>= f) := by
  intro s t left
  rw [run_bind] at left
  cases ran : m.run s with
  | ok a u =>
    rw [ran, Outcome.bind_ok] at left
    exact Trans.trans (first.ok ran) (next a u t left)
  | err e u =>
    rw [ran, Outcome.bind_err] at left
    cases left
    exact first.err ran
  | abort => simp [ran] at left

variable [Std.Refl R]

theorem keeps_pure (a : α) : Keeps R (pure a : Exec ε σ α) := by
  intro s t left
  cases left
  exact Std.Refl.refl s

theorem keeps_throw (e : ε) : Keeps R (throw e : Exec ε σ α) := by
  intro s t left
  cases left
  exact Std.Refl.refl s

theorem keeps_get : Keeps R (get : Exec ε σ σ) := by
  intro s t left
  cases left
  exact Std.Refl.refl s

theorem keeps_gets (view : σ → Except ε α) : Keeps R (gets view) := by
  intro s t left
  rw [run_gets] at left
  split at left <;> cases left <;> exact Std.Refl.refl s

theorem keeps_rejectIf (condition : Prop) [Decidable condition] (e : ε) :
    Keeps R (rejectIf condition e : Exec ε σ Unit) := by
  unfold rejectIf
  split
  · exact keeps_throw e
  · exact keeps_pure ()

theorem keeps_abortIf (condition : Prop) [Decidable condition] :
    Keeps R (abortIf condition : Exec ε σ Unit) := by
  unfold abortIf
  split
  · exact keeps_abort
  · exact keeps_pure ()

theorem keeps_when {condition : Prop} [Decidable condition] {m : Exec ε σ Unit}
    (keeps : condition → Keeps R m) : Keeps R (when condition m) := by
  unfold when
  split
  next holds => exact keeps holds
  next => exact keeps_pure ()

theorem keeps_orErr (value : Option α) (e : ε) : Keeps R (orErr value e : Exec ε σ α) := by
  cases value with
  | some a => exact keeps_pure a
  | none => exact keeps_throw e

theorem keeps_ofExcept (value : Except ε α) : Keeps R (ofExcept value : Exec ε σ α) := by
  cases value with
  | ok a => exact keeps_pure a
  | error e => exact keeps_throw e

end Keeps

end Exec
