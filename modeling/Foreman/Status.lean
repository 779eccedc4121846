/-!
The status of a build task: what is being done with it and how far its life has come. States only
move forward, and nothing leaves a terminal state.
-/

namespace Foreman

inductive Operation where
  | new
  | createRepository
  | build
  | collectResults
  | update
deriving DecidableEq

inductive State where
  | new
  | waitingForDependencies
  | running
  | completed
  | failed
  | systemError
deriving DecidableEq

namespace Operation

def all : List Operation := [new, createRepository, build, collectResults, update]

def text : Operation → String
  | new => "NEW"
  | createRepository => "CREATE_REPOSITORY"
  | build => "BUILD"
  | collectResults => "COLLECT_RESULTS"
  | update => "UPDATE"

def ofText? (s : String) : Option Operation := all.find? (·.text = s)

end Operation

namespace State

def all : List State := [new, waitingForDependencies, running, completed, failed, systemError]

def text : State → String
  | new => "NEW"
  | waitingForDependencies => "WAITING_FOR_DEPENDENCIES"
  | running => "RUNNING"
  | completed => "COMPLETED"
  | failed => "FAILED"
  | systemError => "SYSTEM_ERROR"

def ofText? (s : String) : Option State := all.find? (·.text = s)

def isTerminal : State → Bool
  | completed | failed | systemError => true
  | _ => false

/-- How far along the life of a task a state is. -/
def rank : State → Nat
  | new => 0
  | waitingForDependencies => 1
  | running => 2
  | completed | failed | systemError => 3

/-- A task may stay in a state that is not terminal, so that its operation can change. -/
def canBecome (s next : State) : Bool := !s.isTerminal && s.rank ≤ next.rank

end State

structure TaskStatus where
  operation : Operation
  state : State
deriving DecidableEq

namespace TaskStatus

/-- The status every task starts with. -/
def initial : TaskStatus := ⟨.new, .new⟩

def isTerminal (s : TaskStatus) : Bool := s.state.isTerminal

def isSuccess (s : TaskStatus) : Bool := s.state = .completed

def text (s : TaskStatus) : String := s.operation.text ++ "/" ++ s.state.text

end TaskStatus

theorem State.isTerminal_iff_rank (s : State) : s.isTerminal = true ↔ s.rank = 3 := by
  cases s <;> decide

theorem State.ofText?_text (s : State) : State.ofText? s.text = some s := by
  cases s <;> decide

theorem Operation.ofText?_text (o : Operation) : Operation.ofText? o.text = some o := by
  cases o <;> decide

end Foreman
