import Polyleverage.Program

/-! # The history of a run

The calls of a run that return. What is said of a run's past is said of this list.
-/

namespace Polyleverage

variable {rt : Runtime} {start : Ledger} {calls : List (Call rt)} {c : Call rt}

/-- The calls that return, in their order. -/
def accepted : List (Call rt) → Ledger → List (Call rt)
  | [], _ => []
  | c :: rest, s => if c.returns s then c :: accepted rest (execute rt c s) else accepted rest (execute rt c s)

theorem runCalls_append (calls later : List (Call rt)) (start : Ledger) :
    runCalls rt (calls ++ later) start = runCalls rt later (runCalls rt calls start) := List.foldl_append

theorem runCalls_concat : runCalls rt (calls ++ [c]) start = execute rt c (runCalls rt calls start) := runCalls_append calls [c] start

theorem accepted_append (later : List (Call rt)) :
    accepted (calls ++ later) start = accepted calls start ++ accepted later (runCalls rt calls start) := by
  induction calls generalizing start with
  | nil => rfl
  | cons c rest ih =>
    simp only [List.cons_append, accepted, runCalls_cons, ih]
    split
    · rfl
    · rfl

theorem accepted_concat_of_returns (returns : c.returns (runCalls rt calls start) = true) :
    accepted (calls ++ [c]) start = accepted calls start ++ [c] := by
  rw [accepted_append, accepted, if_pos returns, accepted]

theorem accepted_concat_of_not_returns (failed : c.returns (runCalls rt calls start) = false) :
    accepted (calls ++ [c]) start = accepted calls start := by
  rw [accepted_append, accepted, if_neg (by simp [failed]), accepted, List.append_nil]

/-- What holds at the start, and is kept by every call that returns, holds of the history and the end of
every run. -/
theorem history_induct {P : List (Call rt) → Ledger → Prop} (nil : P [] start)
    (step : ∀ past s c, P past s → c.returns s = true → P (past ++ [c]) (execute rt c s)) (calls : List (Call rt)) :
    P (accepted calls start) (runCalls rt calls start) := by
  induction calls using List.reverseRecOn with
  | nil => exact nil
  | append_singleton calls c ih =>
    rw [runCalls_concat]
    cases returns : c.returns (runCalls rt calls start) with
    | true =>
      rw [accepted_concat_of_returns returns]
      exact step _ _ c ih returns
    | false =>
      rw [accepted_concat_of_not_returns returns, execute_of_not_returns returns]
      exact ih

end Polyleverage
