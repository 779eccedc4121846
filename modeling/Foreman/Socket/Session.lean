import Foreman.Json.Reader
import Foreman.Socket.Client
import Foreman.Wire.Socket

/-!
One connection: its client is attached from the start until the connection ends, and each text
that comes in is answered by one frame. At the end the client is disabled and detached, and what
was not yet written is dropped.
-/

namespace Foreman.Socket

/-- Clients of a kind that includes those on sockets. -/
class Carrier (C : Type) extends Recipient C where
  ofClient : Client → C
  /-- Changes the client if it is on a socket. -/
  onClient : (Client → Client) → C → C

/-- What comes in; frames other than texts mean nothing. -/
inductive Incoming where
  /-- A text, and what the reader of commands says against it if it is none. -/
  | text (s : String) (objection : String := "")
  | other
  | close
  | failure

structure Session where
  name : String
  /-- The number of the client. -/
  client : Nat
  isOver : Bool

/-- The command that a text is, if it is one. -/
def Command.ofText? (s : String) : Option Command :=
  match Json.read s.toList with
  | (v, true) => (Wire.command v).toOption
  | (_, false) => none

def Command.complaint (objection : String) : String := "invalid command: " ++ objection

/-- Answers a text: a command is carried out, anything else complained about. -/
def Client.receive (c : Client) (s objection : String) : Client :=
  match Command.ofText? s with
  | some cmd => c.handle cmd
  | none => c.reply (.error (Command.complaint objection))

namespace Session

variable {C : Type} [Carrier C]

def start (name : String) (n : Notifier C) : Session × Notifier C :=
  let i := n.clients.length
  (⟨name, i, false⟩, (n.create (Carrier.ofClient (.connect name))).attach i)

def finish (s : Session) (n : Notifier C) : Session × Notifier C :=
  ({ s with isOver := true },
    ((n.change s.client (Carrier.onClient Client.disable)).detach s.name).change s.client
      (Carrier.onClient Client.hangUp))

def receive (s : Session) (m : Incoming) (n : Notifier C) : Session × Notifier C :=
  if s.isOver then (s, n)
  else match m with
    | .text t objection =>
      (s, n.change s.client (Carrier.onClient fun c => c.receive t objection))
    | .other => (s, n)
    | .close | .failure => s.finish n

end Session

end Foreman.Socket
