import Foreman.Fault

/-!
The builds in flight, at most one of each identity. Every change of the set is followed by a
signal, for which those wait who depend on builds in it.
-/

namespace Foreman

structure RunningSet where
  /-- The number of the task that carries out each build. -/
  members : Table BuildIdentity Nat
  /-- How many signals were given. -/
  signals : Nat
deriving DecidableEq

namespace RunningSet

def empty : RunningSet := ⟨.empty, 0⟩

/-- The counter that observers see. -/
def generation (s : RunningSet) : UInt64 := UInt64.ofNat s.signals

def contains (s : RunningSet) (id : BuildIdentity) : Bool := s.members.contains id

def get? (s : RunningSet) (id : BuildIdentity) : Option Nat := s.members.get? id

def size (s : RunningSet) : Nat := s.members.size

def isEmpty (s : RunningSet) : Bool := s.members.isEmpty

/-- Puts a task in without a signal. -/
def enter (s : RunningSet) (id : BuildIdentity) (task : Nat) : RunningSet :=
  { s with members := s.members.insert id task }

/-- Takes a build out without a signal. -/
def leave (s : RunningSet) (id : BuildIdentity) : RunningSet :=
  { s with members := s.members.erase id }

def signal (s : RunningSet) : RunningSet := { s with signals := s.signals + 1 }

def submit (s : RunningSet) (id : BuildIdentity) (task : Nat) : Except Fault RunningSet :=
  if s.contains id then .error (.duplicateTask id) else .ok (s.enter id task).signal

/-- Whether it is this task that carries out the build. -/
def holds (s : RunningSet) (id : BuildIdentity) (task : Nat) : Bool := s.get? id = some task

/-- Takes out this very task; another one of the same identity is left alone. -/
def remove (s : RunningSet) (id : BuildIdentity) (task : Nat) : RunningSet :=
  if s.holds id task then (s.leave id).signal else s

end RunningSet

end Foreman
