import Foreman.Rehearsal.Builds
import Foreman.Rehearsal.Calls

/-!
Running a rehearsal until nothing can go on.
-/

namespace Foreman.Rehearsal.Stage

/-- One step of anything that can go on. -/
def step (s : Stage) : Option Stage := s.stepCalls <|> s.stepBuilds

/-- Runs until nothing can go on, or until `budget` steps are done. -/
def run : (budget : Nat) → Stage → Stage
  | 0, s => s
  | budget + 1, s =>
    match s.step with
    | some s => run budget s
    | none => s

end Foreman.Rehearsal.Stage
