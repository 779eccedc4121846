import Foreman.RunningSet

/-!
Waiting until none of some builds is in the running set. Each pass looks the builds up one after
the other; if one is found, the next pass comes after a signal that was not seen yet.
-/

namespace Foreman

structure DependencyWait where
  dependencies : List BuildIdentity
  /-- The signals seen. -/
  seen : Nat
  /-- What the pass has still to look up; none while waiting for a signal. -/
  ahead : Option (List BuildIdentity)
  /-- How many the pass has found. -/
  found : Nat
deriving DecidableEq

namespace DependencyWait

/-- The signals given from now on are noticed. -/
def start (dependencies : List BuildIdentity) (s : RunningSet) : DependencyWait :=
  ⟨dependencies, s.signals, some dependencies, 0⟩

def isWaiting (w : DependencyWait) : Bool := w.ahead.isNone

/-- Whether a pass has found no build. -/
def isOver (w : DependencyWait) : Bool := w.ahead = some [] ∧ w.found = 0

/-- The next step of a pass: one lookup, or the end of a pass that has found something. -/
def look (w : DependencyWait) (s : RunningSet) : DependencyWait :=
  match w.ahead with
  | some (id :: rest) =>
    { w with ahead := some rest, found := if s.contains id then w.found + 1 else w.found }
  | some [] => if w.found = 0 then w else { w with ahead := none }
  | none => w

/-- Goes on with another pass if a signal was given meanwhile. -/
def wake (w : DependencyWait) (s : RunningSet) : DependencyWait :=
  if w.isWaiting ∧ w.seen ≠ s.signals then
    { w with seen := s.signals, ahead := some w.dependencies, found := 0 }
  else w

/-- A whole pass during which the set does not change. -/
def pass (w : DependencyWait) (s : RunningSet) : DependencyWait :=
  Nat.repeat (look · s) (w.dependencies.length + 1) w

end DependencyWait

end Foreman
