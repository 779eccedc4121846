import Foreman.Rehearsal.Crowd
import Foreman.Rehearsal.Run

/-!
A stage with names for its clients, calls and builds, and the cues that all rehearsals with a stage
have in common.
-/

namespace Foreman.Rehearsal

structure World where
  stage : Stage
  clients : Table String Nat
  /-- Calls, or the tasks of builds. -/
  labels : Table String Nat
  /-- Of each build that can be waited for, whether its submitter holds the task. -/
  handles : Table String Bool

inductive RowKind where
  | version
  | milestone
  | record
  | artifact
  | attempt
deriving DecidableEq

inductive Row where
  | version (v : ProductVersion)
  | milestone (m : Milestone)
  | record (r : BuildRecord)
  | artifact (a : Artifact)
  | attempt (a : ReleaseAttempt)
deriving DecidableEq

namespace Row

def encode : Row → Json
  | version v => Wire.encode v
  | milestone m => Wire.encode m
  | record r => Wire.encode r
  | artifact a => Wire.encode a
  | attempt a => Wire.encode a

def save : Row → Store → Store
  | version v, s => s.saveVersion v
  | milestone m, s => s.saveMilestone m
  | record r, s => s.saveRecord r
  | artifact a, s => s.saveArtifact a
  | attempt a, s => s.saveAttempt a

def call : Row → StorageCall
  | version _ => .saveVersion
  | milestone _ => .saveMilestone
  | record _ => .saveRecord
  | artifact _ => .saveArtifact
  | attempt _ => .saveAttempt

end Row

namespace RowKind

def call : RowKind → StorageCall
  | version => .findVersion
  | milestone => .findMilestone
  | record => .findRecord
  | artifact => .findArtifact
  | attempt => .findAttempt

def find? (k : RowKind) (s : Store) (id : ResourceId) : Option Row :=
  match k with
  | version => (s.versions.get? id).map .version
  | milestone => (s.milestones.get? id).map .milestone
  | record => (s.records.get? id).map .record
  | artifact => (s.artifacts.get? id).map .artifact
  | attempt => (s.attempts.get? id).map .attempt

end RowKind

namespace World

def ofService (s : Service Player) : World := ⟨.ofService s, .empty, .empty, .empty⟩

def desk (w : World) : ReleaseDesk := w.stage.service.desk

def store (w : World) : Store := w.stage.service.store

def notifier (w : World) : Notifier Player := w.stage.service.notifier

def coordinator (w : World) : Coordinator := w.stage.service.coordinator.getD (.empty false)

def withStore (w : World) (s : Store) : World :=
  { w with stage := { w.stage with service := w.stage.service.withStore s } }

def withDesk (w : World) (d : ReleaseDesk) : World := { w with stage := w.stage.withDesk d }

def withNotifier (w : World) (n : Notifier Player) : World :=
  { w with stage := w.stage.withNotifier n }

def withCoordinator (w : World) (c : Coordinator) : World :=
  { w with stage := (w.stage.withCoordinator c).tick }

def run (budget : Nat) (w : World) : World := { w with stage := w.stage.run budget }

/-- The answer of a repository, which may be a fault, or a word while it keeps one waiting. -/
def ask (w : World) (c : StorageCall) (v : Json) : Reply :=
  match w.stage.answer c with
  | some none => .ok v
  | some (some f) => .fault f.toFault
  | none => .word "pending"

/-- Saves a row if the repository works. -/
def put (w : World) (r : Row) : Reply × World :=
  (w.ask r.call r.encode, match w.stage.answer r.call with
    | some none => w.withStore (r.save w.store)
    | _ => w)

def find (w : World) (k : RowKind) (id : ResourceId) : Reply :=
  w.ask k.call (Wire.ofOption Row.encode (k.find? w.store id))

def addClient (w : World) (name : String) (p : Player) : World :=
  let c := Crowd.add ⟨w.notifier, w.clients⟩ name p true
  { w.withNotifier c.notifier with clients := c.names }

/-- What the clients got since the last look. -/
def takeReceived (order : List Notification → List Notification) (w : World) :
    List (String × Json) × World :=
  let (fields, c) := Crowd.takeReceived order ⟨w.notifier, w.clients⟩
  (fields, w.withNotifier c.notifier)

def setStorage (w : World) (c : StorageCall) (conduct : Conduct StorageFault) : World :=
  { w with stage := { w.stage with storage := w.stage.storage.insert c conduct } }

/-- How the driver starts the builds of a name from now on. -/
def setDriver (w : World) (name : String) (conduct : Conduct DriverError) : World :=
  { w with stage := { w.stage with driver := w.stage.driver.insert name conduct } }

/-- How one build of a name will have gone. -/
def addEnding (w : World) (name : String) (ending : Except DriverError BuildDetails) : World :=
  { w with stage := { w.stage with endings := w.stage.endings ++ [(name, ending)] } }

end World

end Foreman.Rehearsal
