import Foreman.Rehearsal.Clock
import Foreman.Rehearsal.Player
import Foreman.Rehearsal.Script
import Foreman.Service

/-!
The stage of a rehearsal: the service, how the others behave, what is under way, and what was noted
of it.
-/

namespace Foreman.Rehearsal

/-- A place in the work that one call causes. -/
inductive Frame where
  /-- The start of a release, by its number at the desk. -/
  | release (k : Nat)
  /-- The start of a guest's process. -/
  | process (id : CorrelationId) (call : Nat)
  /-- The engine is asked to start a process; events are still to be delivered meanwhile. -/
  | engine (r : ProcessRequest) (ahead : List Interjection)
  /-- The engine waits for the end of an event that it delivered. -/
  | interjected
  /-- A report is recorded, by its number at the desk. -/
  | recording (k : Nat)
  /-- A guest is about to deliver an event. -/
  | follow (tag : String) (id : CorrelationId) (event : String)
  /-- A guest waits for the end of an event that it delivered. -/
  | followed (tag : String)

def Frame.isInterjected : Frame → Bool
  | .interjected => true
  | _ => false

inductive CallOutcome where
  | release (r : Except Fault ReleaseAttempt)
  | process (r : Except WorkflowFault Unit)
  | dispatch (delivered : Bool)

structure Call where
  /-- Innermost first. -/
  stack : List Frame
  outcome : Option CallOutcome

structure Stage where
  service : Service Player
  clock : Clock
  /-- What the repositories do other than work. -/
  storage : Table StorageCall (Conduct StorageFault)
  engine : EngineScript
  /-- What everyone who takes reports answers. -/
  reportFault : Option EngineFault
  /-- What the driver does other than start, by the name of the configuration. -/
  driver : Table String (Conduct DriverError)
  /-- How builds will have gone, by the name of the configuration, oldest first. -/
  endings : List (String × Except DriverError BuildDetails)
  /-- What was asked and is not answered, oldest first. -/
  errands : List Errand
  /-- Those who wait to take an entry of the queue for themselves, and what they took. -/
  collectors : Table Nat (Option QueuedTask)
  guests : List Guest
  calls : List Call
  /-- The builds that were started. -/
  started : List (String × Option RepositoryConfiguration)
  reports : List (String × BuildResult)
  requests : List ProcessRequest
  notes : List Note
  /-- Whether each event that the engine delivered meanwhile found a listener. -/
  interjections : List Bool

namespace Stage

def ofService (s : Service Player) : Stage where
  service := s
  clock := .start
  storage := .empty
  engine := {}
  reportFault := none
  driver := .empty
  endings := []
  errands := []
  collectors := .empty
  guests := []
  calls := []
  started := []
  reports := []
  requests := []
  notes := []
  interjections := []

def now (s : Stage) : Instant := (Clock.tick s.clock).1

def id (s : Stage) : ResourceId := (Clock.freshId s.clock).1

/-- The clock goes on and the id at hand is used up. -/
def tick (s : Stage) : Stage :=
  { s with clock := (Clock.freshId (Clock.tick s.clock).2).2 }

def withCoordinator (s : Stage) (c : Coordinator) : Stage :=
  { s with service := { s.service with coordinator := some c } }

def withDesk (s : Stage) (d : ReleaseDesk) : Stage :=
  { s with service := { s.service with desk := d } }

def withNotifier (s : Stage) (n : Notifier Player) : Stage :=
  { s with service := { s.service with notifier := n } }

/-- What a repository answers now: done or a fault; none while it keeps one waiting. -/
def answer (s : Stage) (c : StorageCall) : Option (Option StorageFault) :=
  match s.storage.get? c with
  | none | some .works => some none
  | some (.fails f) => some (some f)
  | some .hangs => none

end Stage

end Foreman.Rehearsal
