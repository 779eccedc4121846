import Foreman.Rehearsal.Player
import Foreman.Rehearsal.Reply

/-!
The clients of a rehearsal, which cues call by names.
-/

namespace Foreman.Rehearsal

structure Crowd where
  notifier : Notifier Player
  names : Table String Nat

namespace Crowd

def empty : Crowd := ⟨.empty, .empty⟩

/-- Makes a client; its name goes over from an older one. -/
def add (c : Crowd) (name : String) (p : Player) (attach : Bool) : Crowd :=
  let i := c.notifier.clients.length
  let n := c.notifier.create p
  ⟨if attach then n.attach i else n, c.names.insert name i⟩

def forget (s : Scripted) : Scripted := { s with received := [] }

/-- What each scripted client got since the last look, in the given order; clients that got nothing
are left out. -/
def takeReceived (order : List Notification → List Notification) (c : Crowd) :
    List (String × Json) × Crowd :=
  let got := c.names.entries.filterMap fun (name, i) =>
    match c.notifier.client? i with
    | some (.scripted s) =>
      if s.received.isEmpty then none
      else some (name, Wire.ofList Wire.encode (order s.received))
    | _ => none
  (if got.isEmpty then [] else [("received", .object got)],
    { c with notifier :=
      c.names.values.foldl (fun n i => n.change i (Player.onScripted forget)) c.notifier })

def ofDelivery (d : Delivery) : Json :=
  .object [("delivered", .ofNat d.delivered), ("failed", .ofNat d.failed)]

end Crowd

end Foreman.Rehearsal
