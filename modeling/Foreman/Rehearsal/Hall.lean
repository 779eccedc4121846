import Foreman.Rehearsal.Crowd
import Foreman.Sweeper

/-!
Rehearsals of the notifier and its sweepers.
-/

namespace Foreman.Rehearsal

structure Hall where
  patrol : Patrol Player
  names : Table String Nat
  /-- How many sweepers were started. -/
  started : Nat
  /-- The sweeper on duty. -/
  held : Option Nat

namespace Hall

inductive Cue where
  | create (name : String) (p : Player) (attach : Bool)
  | attach (client : String)
  | detach (session : String)
  | isAttached (session : String)
  | send (m : Notification)
  | sendTo (m : Notification) (topic qualifier : String)
  | cleanUp
  /-- The client's own send. -/
  | sendDirectly (client : String) (m : Notification)
  /-- Sets a scripted client; one on a socket is disabled. -/
  | set (client : String) (enabled : Option Bool) (failure : Option Failure)
  /-- Nobody writes the frames of the client any more. -/
  | hangUp (client : String)
  | isSubscribed (client topic qualifier : String)
  | command (client text : String)
  | takeReceived (client : String)
  | startSweeper (ms : Nat)
  | advance (ms : Nat)
  | stopSweeper
  | dropSweeper

def empty : Hall := ⟨⟨.empty, 0, .empty⟩, .empty, 0, none⟩

def notifier (h : Hall) : Notifier Player := h.patrol.notifier

def withNotifier (h : Hall) (n : Notifier Player) : Hall :=
  { h with patrol := { h.patrol with notifier := n } }

/-- Takes the sweeper off duty. -/
def release (h : Hall) : Hall :=
  match h.held with
  | some k => { h with patrol := h.patrol.dismiss k, held := none }
  | none => h

/-- A new sweeper goes on duty before the old one goes off. One without an interval makes no
rounds. -/
def startSweeper (h : Hall) (ms : Nat) : Hall :=
  let patrol := if hp : 0 < ms then h.patrol.start h.started ms hp else h.patrol
  let h' := { h with patrol, started := h.started + 1 }
  { h'.release with held := some h.started }

def setPlayer (enabled : Option Bool) (failure : Option Failure) : Player → Player
  | .scripted s => .scripted { s with isEnabled := enabled.getD s.isEnabled, failure }
  | .socket c => .socket c.disable

/-- What a client got since the last look; nothing if nobody writes its frames. -/
def takeFrom (h : Hall) (i : Nat) : Reply × Hall :=
  match h.notifier.client? i with
  | some (.scripted s) =>
    (.ok (Wire.ofList Wire.encode s.received),
      h.withNotifier (h.notifier.change i (Player.onScripted Crowd.forget)))
  | some (.socket c) =>
    (if c.outbound.isNone then .nothing else .ok (Wire.ofList Wire.ofFrame c.flush.1),
      h.withNotifier (h.notifier.change i (Player.onSocket fun c => c.flush.2)))
  | none => (.nameless, h)

def play (h : Hall) (cue : Cue) : Reply × Hall :=
  let n := h.notifier
  let done (n : Notifier Player) : Reply × Hall := (.nothing, h.withNotifier n)
  let named (name : String) (act : Nat → Reply × Hall) : Reply × Hall :=
    match h.names.get? name with
    | some i => act i
    | none => (.nameless, h)
  match cue with
  | .create name p attach =>
    let c := Crowd.add ⟨n, h.names⟩ name p attach
    (.nothing, { h.withNotifier c.notifier with names := c.names })
  | .attach client => named client fun i => done (n.attach i)
  | .detach session => (.flag (n.attached.contains session), h.withNotifier (n.detach session))
  | .isAttached session => (.flag (n.attached.contains session), h)
  | .send m =>
    let (d, n) := n.broadcast (Player.send m)
    (.ok (Crowd.ofDelivery d), h.withNotifier n)
  | .sendTo m topic qualifier =>
    let (d, n) := n.publish (Player.send m) topic qualifier
    (.ok (Crowd.ofDelivery d), h.withNotifier n)
  | .cleanUp => (.ok (.ofNat (n.count - n.cleanUp.count)), h.withNotifier n.cleanUp)
  | .sendDirectly client m => named client fun i =>
    let (r, n) := Player.send m i n
    (match r with
      | .ok () => .nothing
      | .error f => .error (.delivery f), h.withNotifier n)
  | .set client enabled failure => named client fun i =>
    done (n.change i (setPlayer enabled failure))
  | .hangUp client => named client fun i => done (n.change i (Player.onSocket .hangUp))
  | .isSubscribed client topic qualifier => named client fun i =>
    (.flag ((n.client? i).any fun p => p.isSubscribed topic qualifier), h)
  | .command client text => named client fun i =>
    match Socket.Command.ofText? text with
    | some cmd => done (n.change i (Player.onSocket (·.handle cmd)))
    | none => (.error .unreadable, h)
  | .takeReceived client => named client h.takeFrom
  | .startSweeper ms => (.nothing, h.startSweeper ms)
  | .advance ms => (.nothing, { h with patrol := h.patrol.advance ms })
  | .stopSweeper => (if h.held.isSome then .nothing else .word "none", h.release)
  | .dropSweeper => (.nothing, h.release)

/-- Who is attached under the sessions of the clients that have names. -/
def view (h : Hall) : List (String × Json) :=
  let n := h.notifier
  let sessions := (h.names.values.filterMap fun i => (n.client? i).map Player.session).eraseDups
  let attached := sessions.filterMap fun session =>
    (n.attached.get? session).map fun i =>
      let name := (h.names.entries.find? (·.2 = i)).map (·.1)
      (session, .object [
        ("client", Wire.ofOption .string name), ("enabled", .bool (n.isEnabled i))])
  [("count", .ofNat n.count), ("attached", .object attached)]

end Hall

end Foreman.Rehearsal
