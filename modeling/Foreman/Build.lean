import Foreman.Identity
import Foreman.Instant
import Foreman.Status
import Foreman.Table

/-!
What a build consumes and produces: configurations, the job frozen from one, the details a driver
reports, the result handed to whoever waits, and the record kept afterwards.
-/

namespace Foreman

abbrev Dictionary := Table String String

structure BuildConfiguration where
  id : ResourceId
  name : String
  scmRepoUrl : String
  /-- Branch, tag or commit. -/
  scmRevision : Option String
  buildScript : String
  environment : Dictionary
  /-- Configurations whose builds must be over before this one runs. -/
  dependencies : List ResourceId
deriving DecidableEq

def BuildConfiguration.identity (c : BuildConfiguration) : BuildIdentity := ⟨c.id⟩

structure BuildJob where
  configuration : BuildConfiguration
  submittedAt : Instant
  /-- Where the result is reported. -/
  callbackUrl : Option String
deriving DecidableEq

def BuildJob.identity (j : BuildJob) : BuildIdentity := j.configuration.identity

structure RepositoryConfiguration where
  repositoryId : String
  dependencyUrl : String
  deployUrl : String
deriving DecidableEq

structure DriverError where
  message : String
deriving DecidableEq

def DriverError.text (e : DriverError) : String := "build driver error: " ++ e.message

/-- What a driver reports of a build that ran to its end. -/
structure BuildDetails where
  jobName : String
  buildNumber : Option Nat
  success : Bool
  log : String
deriving DecidableEq

structure BuildResult where
  identity : BuildIdentity
  configurationName : String
  status : TaskStatus
  details : Option BuildDetails
  error : Option DriverError
deriving DecidableEq

def BuildResult.isSuccess (r : BuildResult) : Bool := r.status.isSuccess

structure BuildRecord where
  id : ResourceId
  configurationId : ResourceId
  configurationName : String
  scmRepoUrl : String
  scmRevision : Option String
  status : TaskStatus
  submittedAt : Instant
  endedAt : Instant
  log : String
  attributes : Dictionary
deriving DecidableEq

def BuildRecord.putAttribute (r : BuildRecord) (key value : String) : BuildRecord :=
  { r with attributes := r.attributes.insert key value }

end Foreman
