import Foreman.Identity
import Foreman.Instant

/-!
Products and their releases: versions with milestones, attempts to release a milestone, the
artifacts of builds, and the result that a release process reports.
-/

namespace Foreman

structure ProductVersion where
  id : ResourceId
  version : String
  /-- The milestone that is being worked on. -/
  currentMilestone : Option ResourceId
deriving DecidableEq

structure Milestone where
  id : ResourceId
  version : String
  productVersion : ResourceId
  startingDate : Option Instant
  endDate : Option Instant
deriving DecidableEq

structure Artifact where
  id : ResourceId
  identifier : String
deriving DecidableEq

/-- The status of an attempt to release a milestone. -/
inductive AttemptStatus where
  | inProgress
  | succeeded
  | failed
  | systemError
deriving DecidableEq

namespace AttemptStatus

def all : List AttemptStatus := [inProgress, succeeded, failed, systemError]

def text : AttemptStatus → String
  | inProgress => "IN_PROGRESS"
  | succeeded => "SUCCEEDED"
  | failed => "FAILED"
  | systemError => "SYSTEM_ERROR"

def ofText? (s : String) : Option AttemptStatus := all.find? (·.text = s)

end AttemptStatus

structure ReleaseAttempt where
  id : ResourceId
  milestone : ResourceId
  status : AttemptStatus
  log : String
  startingDate : Instant
  endDate : Option Instant
deriving DecidableEq

/-- A new attempt with an empty log. -/
def ReleaseAttempt.start (id milestone : ResourceId) (now : Instant) : ReleaseAttempt :=
  ⟨id, milestone, .inProgress, "", now, none⟩

/-- The outcome that a release process reports. -/
inductive ReleaseStatus where
  | success
  | failure
  | importError
  | setUpError
  | systemError
deriving DecidableEq

namespace ReleaseStatus

def all : List ReleaseStatus := [success, failure, importError, setUpError, systemError]

def text : ReleaseStatus → String
  | success => "SUCCESS"
  | failure => "FAILURE"
  | importError => "IMPORT_ERROR"
  | setUpError => "SET_UP_ERROR"
  | systemError => "SYSTEM_ERROR"

def ofText? (s : String) : Option ReleaseStatus := all.find? (·.text = s)

/-- The status in which the outcome leaves the attempt. -/
def attemptStatus : ReleaseStatus → AttemptStatus
  | success => .succeeded
  | failure | importError => .failed
  | setUpError | systemError => .systemError

end ReleaseStatus

inductive ImportStatus where
  | successful
  | failed
  | error
deriving DecidableEq

namespace ImportStatus

def all : List ImportStatus := [successful, failed, error]

def text : ImportStatus → String
  | successful => "SUCCESSFUL"
  | failed => "FAILED"
  | error => "ERROR"

def ofText? (s : String) : Option ImportStatus := all.find? (·.text = s)

end ImportStatus

structure ArtifactImportError where
  artifact : ResourceId
  message : String
deriving DecidableEq

/-- How the import of one build went. -/
structure BuildImport where
  record : ResourceId
  brewBuildId : Option Nat
  brewBuildUrl : Option String
  status : ImportStatus
  errorMessage : Option String
  errors : List ArtifactImportError
deriving DecidableEq

structure ReleaseResult where
  milestone : ResourceId
  status : ReleaseStatus
  errorMessage : Option String
  builds : List BuildImport
deriving DecidableEq

def ReleaseResult.isSuccessful (r : ReleaseResult) : Bool := r.status = .success

end Foreman
