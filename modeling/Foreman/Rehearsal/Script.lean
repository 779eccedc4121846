import Foreman.Fault
import Foreman.Wire.Build
import Foreman.Wire.Release
import Foreman.Workflow

/-!
How the others behave in a rehearsal: repositories, the driver and the engine may work, fail or
keep one waiting, and listeners of guests note what they get and may deliver further events.
-/

namespace Foreman.Rehearsal

inductive Conduct (ε : Type) where
  | works
  | fails (e : ε)
  | hangs

/-- What is asked of the repositories. -/
inductive StorageCall where
  | saveVersion
  | findVersion
  | saveMilestone
  | findMilestone
  | saveRecord
  | findRecord
  | listRecords
  | saveAttempt
  | findAttempt
  | latestAttempt
  | saveArtifact
  | findArtifact
deriving DecidableEq

/-- An event that the engine delivers while it is asked to start a process. -/
structure Interjection where
  /-- The process of the request, if there is none. -/
  id : Option CorrelationId
  event : String
  payload : Json

structure EngineScript where
  conduct : Conduct EngineFault := .works
  during : List Interjection := []

/-- What a guest's listener does after it has noted its payload. -/
inductive FollowUp where
  | nothing
  | crash
  /-- Gives up its own process. -/
  | abandon
  /-- Delivers an event to its own process. -/
  | dispatch (event : String)

structure Guest where
  tag : String
  /-- What a payload is taken for; none if it is not of the right form. -/
  read : Json → Option Json
  followUp : FollowUp

/-- What the guests' listeners note. -/
inductive Note where
  | called (tag : String) (payload : Json)
  | abandoned (tag : String) (wasPending : Bool)
  | dispatched (tag : String) (delivered : Bool)

/-- A payload taken for a value and written again. -/
def readAs (α : Type) [Wire α] (v : Json) : Option Json :=
  ((Wire.decode v : Except Json.Fault α).toOption).map Wire.encode

/-- A payload taken for a whole number of 32 bits. -/
def readWord (v : Json) : Option Json :=
  (Json.Decoder.natBelow UInt32.size v).toOption.map Json.ofNat

end Foreman.Rehearsal
