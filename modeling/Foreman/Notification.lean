import Foreman.Identity
import Foreman.Release
import Foreman.Status

/-!
The messages that are pushed to clients, and the topics under which they are sent.
-/

namespace Foreman

inductive Notification where
  | buildStatusChanged (configuration : ResourceId) (name : String) (status : TaskStatus)
  | releaseChanged (milestone : ResourceId) (status : AttemptStatus)
  | message (text : String)
deriving DecidableEq

namespace Notification

/-- Changes of builds; the qualifier is the id of the configuration. -/
def buildTopic : String := "build-status"

/-- Changes of releases; the qualifier is the id of the milestone. -/
def releaseTopic : String := "milestone-release"

/-- The qualifier that stands for every qualifier of a topic. -/
def anyQualifier : String := "*"

end Notification

end Foreman
