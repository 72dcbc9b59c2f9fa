/-!
# Runs

A list in which the same value often stands several times in a row is told by its runs, each
a value and how often it stands there. Joining adjacent runs of one value does not change
the list (`expandRuns_joinRuns`).
-/

namespace LabelPress

/-- Adjacent runs of equal value joined into one. -/
def joinRuns {α : Type} [DecidableEq α] : List (Nat × α) → List (Nat × α)
  | [] => []
  | (n, a) :: runs =>
    match joinRuns runs with
    | (m, b) :: rest => if a = b then (n + m, a) :: rest else (n, a) :: (m, b) :: rest
    | [] => [(n, a)]

/-- The values that runs stand for. -/
def expandRuns {α : Type} (runs : List (Nat × α)) : List α :=
  runs.flatMap fun run => List.replicate run.1 run.2

/-- Joining runs does not change what they stand for. -/
theorem expandRuns_joinRuns {α : Type} [DecidableEq α] (runs : List (Nat × α)) :
    expandRuns (joinRuns runs) = expandRuns runs := by
  induction runs with
  | nil => rfl
  | cons run runs ih =>
    obtain ⟨n, a⟩ := run
    have cons : ∀ (r : Nat × α) rest,
        expandRuns (r :: rest) = List.replicate r.1 r.2 ++ expandRuns rest :=
      fun _ _ => rfl
    rw [joinRuns, cons, ← ih]
    cases joinRuns runs with
    | nil => simp [expandRuns]
    | cons r rest =>
      simp only
      split
      · rename_i h
        rw [cons, cons, h, ← List.append_assoc, List.replicate_append_replicate]
      · simp only [cons]

end LabelPress
