import Foreman.Http.Engine
import Foreman.Http.Respond
import Foreman.Rehearsal.World

/-!
Rehearsals of the whole service as others see it: through requests and over sockets. The remote
engine is out of reach.
-/

namespace Foreman.Rehearsal

/-- The far end of a connection. -/
structure Line where
  session : Socket.Session
  /-- What has come and was not looked at, oldest first. -/
  arrived : List Json

structure Front where
  world : World
  lines : Table String Line

namespace Front

/-- What is sent over a line. -/
inductive Sent where
  | incoming (m : Socket.Incoming)
  /-- A check that the other end is there. -/
  | ping

inductive Cue where
  | request (r : Http.Request)
  | connect (line : String)
  | send (line : String) (m : Sent)
  /-- The connection is cut. -/
  | cut (line : String)
  | takeArrived (line : String)
  /-- Sends a message to all clients, or to those who subscribed to a topic. -/
  | notify (m : Notification) (topic : Option String) (qualifier : String)
  /-- Runs a processor as long as there is something to do. -/
  | process
  | put (r : Row)
  | find (k : RowKind) (id : ResourceId)
  | setDriver (name : String) (conduct : Conduct DriverError)
  | finish (name : String) (ending : Except DriverError BuildDetails)
  | addClient (name : String) (p : Player)
  /-- Changes what the remote engine would answer, which nobody can ask. -/
  | setRemote

def outOfReach : Http.Transport := fun _ => .error "connection refused"

/-- How starts of processes go with these settings. -/
def engineConduct (c : Config.Settings) : Except WorkflowFault (Conduct EngineFault) :=
  match c.engine with
  | none => .ok (.fails .notConfigured)
  | some e => do
    let e ← Http.Engine.ofSettings e
    return match e.start outOfReach ⟨⟨""⟩, "", .null⟩ with
      | .ok () => .works
      | .error f => .fails f

def start (c : Config.Settings) (hasDriver : Bool) : Except WorkflowFault Front := do
  let conduct ← engineConduct c
  let w := World.ofService (.ofSettings c hasDriver)
  return ⟨{ w with stage := { w.stage with engine := { conduct } } }, .empty⟩

def withNotifier (f : Front) (n : Notifier Player) : Front :=
  { f with world := f.world.withNotifier n }

def withLine (f : Front) (name : String) (l : Line) : Front :=
  { f with lines := f.lines.insert name l }

def run (budget : Nat) (f : Front) : Front := { f with world := f.world.run budget }

/-- Lists are written in the order of the names of their items. -/
def ofBody : Json → Json
  | .array items =>
    let name (v : Json) : String := match v.field? "configuration_name" with
      | some (.string s) => s
      | _ => ""
    .array (items.mergeSort fun a b => name a ≤ name b)
  | v => v

def ofResponse (r : Http.Response) : Reply :=
  .ok (.object [("status", .ofNat r.status), ("body", Wire.ofOption ofBody r.body)])

/-- The response to a request that the stage carries out as a call. -/
def responseOf : CallOutcome → Option Http.Response
  | .release r => some (Service.releaseResponse r)
  | .dispatch delivered => some (Service.deliveryResponse delivered)
  | .process _ => none

/-- Carries out what a request asks for; the response to a call is there when the call has ended. -/
def respond (budget : Nat) (w : World) (r : Http.Request) : Option Http.Response × World :=
  let (progress, service) := w.stage.service.receive w.stage.now r
  let s := Stage.tick { w.stage with service }
  let call (frame : Frame) : Option Http.Response × World :=
    let s' := { s with calls := s.calls ++ [⟨[frame], none⟩] }
    let w := World.run budget { w with stage := s' }
    ((w.stage.calls[s.calls.length]?.bind (·.outcome)).bind responseOf, w)
  match progress with
  | .done response => (some response, { w with stage := s })
  | .starting k => call (.release k)
  | .delivering (.recording k) => call (.recording k)
  | .delivering _ => (some (Service.deliveryResponse true), { w with stage := s })

def request (budget : Nat) (f : Front) (r : Http.Request) : Reply × Front :=
  let (response, world) := respond budget f.world r
  (match response with
    | some response => ofResponse (Service.finish r response)
    | none => .word "pending", { f with world })

def attached (f : Front) : String × Json := ("attached", .ofNat f.world.notifier.count)

/-- The session of a line gets something. -/
def deliver (f : Front) (name : String) (l : Line) (m : Socket.Incoming) : Front :=
  let (session, n) := l.session.receive m f.world.notifier
  (f.withNotifier n).withLine name { l with session }

def cut (f : Front) (name : String) : Front :=
  match f.lines.get? name with
  | some l =>
    let f := f.deliver name l .failure
    { f with lines := f.lines.erase name }
  | none => f

/-- A new connection takes the place of an older one of that name. -/
def connect (f : Front) (name : String) : Reply × Front :=
  let f := f.cut name
  let s := f.world.stage
  let (session, n) := Socket.Session.start s.id.text s.service.notifier
  let f := { f with
    world := { f.world with stage := (s.withNotifier n).tick }
    lines := f.lines.insert name ⟨session, []⟩ }
  (.ok (.object [("status", .ofNat 101), f.attached]), f)

def send (f : Front) (name : String) (m : Sent) (l : Line) : Reply × Front :=
  let sent := !l.session.isOver
  let f := if sent then match m with
      | .incoming m => f.deliver name l m
      | .ping => f.withLine name { l with arrived := l.arrived ++ [.string "pong"] }
    else f
  (.ok (.object [("sent", .bool sent), f.attached]), f)

/-- A frame; of a complaint only what stands before its reason. -/
def ofFrame : Socket.Frame → Json
  | .error message => Wire.ofFrame (.error ((message.splitOn ": ").headD ""))
  | frame => Wire.ofFrame frame

/-- Takes over the frames that were written to a line. -/
def collect (f : Front) (name : String) (l : Line) : Front :=
  match f.world.notifier.client? l.session.client with
  | some (.socket c) =>
    let (frames, c) := c.flush
    (f.withNotifier (f.world.notifier.change l.session.client fun _ => .socket c)).withLine name
      { l with arrived := l.arrived ++ frames.map ofFrame }
  | _ => f

def collectAll (f : Front) : Front :=
  f.lines.entries.foldl (fun f (name, l) => f.collect name l) f

/-- What has come over a line since the last look, and whether the line has ended. -/
def takeArrived (f : Front) (name : String) (l : Line) : Reply × Front :=
  (.ok (.array (l.arrived ++ if l.session.isOver then [.string "end"] else [])),
    f.withLine name { l with arrived := [] })

def notify (f : Front) (m : Notification) (topic : Option String) (qualifier : String) :
    Reply × Front :=
  let n := f.world.notifier
  let (d, n) := match topic with
    | none => n.broadcast (Player.send m)
    | some topic => n.publish (Player.send m) topic qualifier
  (.ok (Crowd.ofDelivery d), f.withNotifier n)

/-- The reply is how many builds are in flight then. -/
def process (budget : Nat) (f : Front) : Reply × Front :=
  match f.world.stage.service.coordinator with
  | none => (.nothing, f)
  | some c =>
    let w := (f.world.withCoordinator c.spawn).run budget
    (.ok (.ofNat w.coordinator.running.size),
      { f with world := w.withCoordinator (w.coordinator.stop c.processors.length) })

def play (budget : Nat) (f : Front) (cue : Cue) : Reply × Front :=
  let onLine (name : String) (act : Line → Reply × Front) : Reply × Front :=
    match f.lines.get? name with
    | some l => act l
    | none => (.nameless, f)
  let quietly (world : World) : Reply × Front := (.nothing, { f with world })
  match cue with
  | .request r => f.request budget r
  | .connect name => f.connect name
  | .send name m => onLine name (f.send name m)
  | .cut name =>
    let f := f.cut name
    (.ok (.object [f.attached]), f)
  | .takeArrived name => onLine name (f.takeArrived name)
  | .notify m topic qualifier => f.notify m topic qualifier
  | .process => f.process budget
  | .put r =>
    let (reply, world) := f.world.put r
    (reply, { f with world })
  | .find k id => (f.world.find k id, f)
  | .setDriver name conduct => quietly (f.world.setDriver name conduct)
  | .finish name ending => quietly (f.world.addEnding name ending)
  | .addClient name p => quietly (f.world.addClient name p)
  | .setRemote => (.nothing, f)

/-- What the clients got since the last look. -/
def view (f : Front) : List (String × Json) × Front :=
  let f := f.collectAll
  let (fields, world) := f.world.takeReceived fun l => l
  (fields, { f with world })

end Front

end Foreman.Rehearsal
