import Foreman.Identity
import Foreman.Build

/-!
What can go wrong, by cause, with the one wording of each cause.
-/

namespace Foreman

/-- Faults of builds and releases. -/
inductive Fault where
  | duplicateTask (build : BuildIdentity)
  | invalidTransition (build : BuildIdentity) (source target : State)
  | alreadyCompleted (build : BuildIdentity)
  | notFound (what : String)
  | invalidInput (what : String)
  | conflict (what : String)
  | storage (what : String)
  | internal (what : String)
deriving DecidableEq

def Fault.message : Fault → String
  | duplicateTask id => "build " ++ id.text ++ " is already running"
  | invalidTransition id a b =>
    "invalid status transition for build " ++ id.text ++ ": " ++ a.text ++ " -> " ++ b.text
  | alreadyCompleted id => "build " ++ id.text ++ " was already completed"
  | notFound s => "not found: " ++ s
  | invalidInput s => "invalid input: " ++ s
  | conflict s => "conflict: " ++ s
  | storage s => "storage error: " ++ s
  | internal s => "internal error: " ++ s

inductive StorageFault where
  | notFound (what : String)
  | duplicate (what : String)
  | backend (what : String)
deriving DecidableEq

namespace StorageFault

def message : StorageFault → String
  | notFound s => "not found: " ++ s
  | duplicate s => "duplicate: " ++ s
  | backend s => "storage backend error: " ++ s

def toFault : StorageFault → Fault
  | notFound s => .notFound s
  | duplicate s => .conflict s
  | backend s => .storage s

end StorageFault

/-- Faults of the remote engine. -/
inductive EngineFault where
  | request (reason : String)
  | rejected (status : Nat) (body : String)
  | notConfigured
  | unknownEventType (name : String)
deriving DecidableEq

def EngineFault.message : EngineFault → String
  | request s => "request failed: " ++ s
  | rejected n body => "engine rejected request with status " ++ toString n ++ ": " ++ body
  | notConfigured => "workflow engine is not configured"
  | unknownEventType s => "unknown event type: " ++ s

inductive WorkflowFault where
  | start (id : CorrelationId) (cause : EngineFault)
  | config (reason : String)
deriving DecidableEq

def WorkflowFault.message : WorkflowFault → String
  | start id e => "failed to start workflow process " ++ id.text ++ ": " ++ e.message
  | config s => "invalid workflow engine configuration: " ++ s

/-- Why a client did not get a message. -/
inductive DeliveryFault where
  | closed (session : String)
  | transport (reason : String)
deriving DecidableEq

def DeliveryFault.message : DeliveryFault → String
  | closed s => "client " ++ s ++ " is closed"
  | transport s => "send failed: " ++ s

inductive ConfigFault where
  | unreadable (reason : String)
  | parse
  | missingField (field : String)
  | invalidValue (field reason : String)
deriving DecidableEq

def ConfigFault.message : ConfigFault → String
  | unreadable s => "IO error: " ++ s
  | parse => "KDL parse error: Failed to parse KDL document"
  | missingField s => "missing required field: " ++ s
  | invalidValue f s => "invalid value for " ++ f ++ ": " ++ s

end Foreman
