import Foreman.Build
import Foreman.Release

/-!
The rows that the service keeps: one table for each kind, each row under its own id.
-/

namespace Foreman

structure Store where
  versions : Table ResourceId ProductVersion
  milestones : Table ResourceId Milestone
  records : Table ResourceId BuildRecord
  artifacts : Table ResourceId Artifact
  attempts : Table ResourceId ReleaseAttempt

/-- Whether `a` ended no earlier than `b`. -/
def BuildRecord.endsAfter (a b : BuildRecord) : Bool := b.endedAt.le a.endedAt

/-- Attempts in the order of their start, those that started together in the order of their ids. -/
def ReleaseAttempt.le (a b : ReleaseAttempt) : Bool :=
  if a.startingDate = b.startingDate then a.id.le b.id else a.startingDate.le b.startingDate

namespace ReleaseAttempt

def later (a b : ReleaseAttempt) : ReleaseAttempt := if a.le b then b else a

/-- The last of some attempts, in whatever order they stand. -/
def latest? : List ReleaseAttempt → Option ReleaseAttempt
  | [] => none
  | a :: rest => some (rest.foldl later a)

end ReleaseAttempt

namespace Store

def empty : Store := ⟨.empty, .empty, .empty, .empty, .empty⟩

def saveVersion (s : Store) (v : ProductVersion) : Store :=
  { s with versions := s.versions.insert v.id v }

def saveMilestone (s : Store) (m : Milestone) : Store :=
  { s with milestones := s.milestones.insert m.id m }

def saveRecord (s : Store) (r : BuildRecord) : Store :=
  { s with records := s.records.insert r.id r }

def saveArtifact (s : Store) (a : Artifact) : Store :=
  { s with artifacts := s.artifacts.insert a.id a }

def saveAttempt (s : Store) (a : ReleaseAttempt) : Store :=
  { s with attempts := s.attempts.insert a.id a }

/-- The records of one configuration, those that ended last first. -/
def recordsOf (s : Store) (configuration : ResourceId) : List BuildRecord :=
  (s.records.values.filter (·.configurationId = configuration)).mergeSort BuildRecord.endsAfter

/-- The attempt to release the milestone that was started last. -/
def latestAttempt (s : Store) (milestone : ResourceId) : Option ReleaseAttempt :=
  ReleaseAttempt.latest? (s.attempts.values.filter (·.milestone = milestone))

end Store

end Foreman
