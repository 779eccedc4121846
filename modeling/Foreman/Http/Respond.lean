import Foreman.Config.Settings
import Foreman.Http.Command
import Foreman.Service

/-!
How the service carries out what requests ask for. Most requests are answered at once; the start of
a release and the delivery of an event are answered when the desk is done with them.
-/

namespace Foreman

open Http

namespace Service

variable {C : Type} [Recipient C]

/-- What has become of a request. -/
inductive Progress where
  | done (r : Response)
  /-- The desk carries out the start with this number. -/
  | starting (k : Nat)
  /-- An event is dealt with by its listener. -/
  | delivering (d : ReleaseDesk.Dispatch)

def buildView (t : Task) (s : TaskStatus) : Json :=
  .object [
    ("configuration_id", Wire.encode t.identity),
    ("configuration_name", .string t.job.configuration.name),
    ("status", Wire.encode s)]

def noDriver : Response := .refuse (.unavailable "no build driver configured")

/-- The builds in flight. -/
def buildViews (c : Coordinator) : List Json :=
  c.running.members.values.filterMap fun i => (c.task? i).map fun t => buildView t t.status

def readiness (s : Service C) : Json :=
  .object [
    ("status", .string "ready"),
    ("attached_clients", .ofNat s.notifier.count),
    ("pending_workflows", .ofNat s.desk.correlator.pendingCount),
    ("running_builds", Wire.ofOption (fun c => .ofNat c.running.size) s.coordinator)]

def releaseState (s : Service C) (milestone : ResourceId) : Json :=
  .object [
    ("in_progress", .bool (s.desk.isInProgress milestone)),
    ("latest", Wire.ofOption Wire.encode (s.store.latestAttempt milestone))]

def submitBuild (s : Service C) (c : BuildConfiguration) (callbackUrl : Option String)
    (now : Instant) : Response × Service C :=
  match s.coordinator with
  | none => (noDriver, s)
  | some coordinator =>
    match coordinator.submit c callbackUrl now with
    | .error f => (.refuse (.ofFault f), s)
    | .ok coordinator' =>
      let t := Task.new ⟨c, now, callbackUrl⟩ now
      (.accepted (buildView t t.shown), { s with coordinator := some coordinator' })

/-- The response to a start of a release. -/
def releaseResponse : Except Fault ReleaseAttempt → Response
  | .ok a => .accepted (Wire.encode a)
  | .error f => .refuse (.ofFault f)

/-- The response to an event, also to one that nobody waits for: it need not be sent again. -/
def deliveryResponse (delivered : Bool) : Response :=
  .accepted (.object [("delivered", .bool delivered)])

def perform (s : Service C) (now : Instant) : Command → Progress × Service C
  | .health => (.done (.ok (.object [("status", .string "ok")])), s)
  | .readiness => (.done (.ok s.readiness), s)
  | .listBuilds =>
    (.done (match s.coordinator with
      | some c => .ok (.array (buildViews c))
      | none => noDriver), s)
  | .submitBuild c url =>
    let (r, s) := s.submitBuild c url now
    (.done r, s)
  | .listRecords c => (.done (.ok (Wire.ofList Wire.encode (s.store.recordsOf c))), s)
  | .releaseState m => (.done (.ok (s.releaseState m)), s)
  | .startRelease m token =>
    (.starting s.desk.starts.length, { s with desk := s.desk.beginStart m token })
  | .deliver id event payload =>
    let (d, desk) := s.desk.dispatchNamed id event payload
    (match d with
      | .unmatched => .done (deliveryResponse false)
      | .unreadable => .done (deliveryResponse true)
      | d => .delivering d, { s with desk })

/-- Carries out a request; one that is at fault changes nothing. -/
def receive (s : Service C) (now : Instant) (r : Request) : Progress × Service C :=
  match Command.ofRequest r with
  | .ok c => s.perform now c
  | .error response => (.done response, s)

/-- A response to a request for the head alone has no body. -/
def finish (r : Request) (response : Response) : Response :=
  if Method.ofText r.method = .head then response.withoutBody else response

/-- The service with empty tables, set up as configured. -/
def ofSettings (c : Config.Settings) (hasDriver : Bool) : Service C where
  desk := .empty
    ((c.engine.map (·.releaseProcess)).getD Config.defaultReleaseProcess)
    (c.server.publicUrl.map fun url => Text.trimSlashes url ++ Route.callbackPath)
  coordinator := if hasDriver then some (.empty c.engine.isSome) else none
  notifier := .empty

end Service

end Foreman
