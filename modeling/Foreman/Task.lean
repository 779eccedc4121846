import Foreman.Fault

/-!
One build on its way: its status, what was published of it, and its result. A task is queued for
post-processing once, when it enters a terminal state or when the driver fails, whichever comes
first, and it is completed once.
-/

namespace Foreman

/-- Why a task was queued. -/
inductive Outcome where
  | finished (status : TaskStatus)
  | errored (error : DriverError)
deriving DecidableEq

structure Task where
  job : BuildJob
  status : TaskStatus
  updatedAt : Instant
  /-- The status that observers see, and how often it was replaced. -/
  shown : TaskStatus
  revision : Nat
  /-- Every status that was published, in order. -/
  published : List TaskStatus
  repository : Option RepositoryConfiguration
  details : Option BuildDetails
  lastError : Option DriverError
  enqueued : Bool
  /-- The result that was handed out when the task was completed. -/
  completion : Option BuildResult
deriving DecidableEq

namespace Task

def new (job : BuildJob) (now : Instant) : Task :=
  ⟨job, .initial, now, .initial, 0, [], none, none, none, false, none⟩

def identity (t : Task) : BuildIdentity := t.job.identity

def isCompleted (t : Task) : Bool := t.completion.isSome

def publish (t : Task) (now : Instant) (s : TaskStatus) : Task :=
  { t with
    status := s
    updatedAt := now
    shown := s
    revision := t.revision + 1
    published := t.published ++ [s] }

/-- Takes a new status unless that would go backwards or out of a terminal state. Entering a
terminal state is the outcome of a task that has none yet. -/
def update (t : Task) (now : Instant) (s : TaskStatus) : Except Fault (Task × Option Outcome) :=
  if t.status.state.canBecome s.state then
    let t' := t.publish now s
    if s.isTerminal && !t.enqueued then .ok ({ t' with enqueued := true }, some (.finished s))
    else .ok (t', none)
  else .error (.invalidTransition t.identity t.status.state s.state)

/-- Notes a failure of the driver and leaves the status alone. -/
def fail (t : Task) (e : DriverError) : Task × Option Outcome :=
  ({ t with lastError := some e, enqueued := true },
    if t.enqueued then none else some (.errored e))

/-- The status in which a failure of the driver leaves the task. -/
def errorStatus (t : Task) : TaskStatus := ⟨t.status.operation, .systemError⟩

/-- Takes the error status unless the task is terminal already; the task is not queued again. -/
def settle (t : Task) (now : Instant) : Task :=
  if t.status.isTerminal then t else t.publish now t.errorStatus

def result (t : Task) : BuildResult :=
  ⟨t.identity, t.job.configuration.name, t.status, t.details, t.lastError⟩

/-- The log of the details, else the message of the error. -/
def log (t : Task) : String :=
  match t.details, t.lastError with
  | some d, _ => d.log
  | none, some e => e.message
  | none, none => ""

def record (t : Task) (id : ResourceId) : BuildRecord where
  id
  configurationId := t.job.configuration.id
  configurationName := t.job.configuration.name
  scmRepoUrl := t.job.configuration.scmRepoUrl
  scmRevision := t.job.configuration.scmRevision
  status := t.status
  submittedAt := t.job.submittedAt
  endedAt := t.updatedAt
  log := t.log
  attributes := .empty

/-- The result as it is now, for the first one who completes the task. -/
def claim (t : Task) : Except Fault BuildResult :=
  if t.isCompleted then .error (.alreadyCompleted t.identity) else .ok t.result

end Task

end Foreman
