import Foreman.Notifier
import Foreman.Socket.Command

/-!
A client on a socket: its subscriptions and the frames that wait to be written. Once a send to it
has failed it stays disabled.
-/

namespace Foreman.Socket

structure Client where
  session : String
  isEnabled : Bool
  subscriptions : List (String × String)
  /-- The frames to be written, oldest first; none when nobody writes them any more. -/
  outbound : Option (List Frame)

namespace Client

def connect (session : String) : Client := ⟨session, true, [], some []⟩

def isSubscribed (c : Client) (topic qualifier : String) : Bool :=
  (topic, qualifier) ∈ c.subscriptions ∨ (topic, Notification.anyQualifier) ∈ c.subscriptions

instance : Recipient Client where
  session := session
  isEnabled := isEnabled
  isSubscribed := isSubscribed

def disable (c : Client) : Client := { c with isEnabled := false }

/-- Nobody writes the frames any more. -/
def hangUp (c : Client) : Client := { c with outbound := none }

/-- Queues a frame if somebody writes it. -/
def reply (c : Client) (f : Frame) : Client :=
  { c with outbound := c.outbound.map (· ++ [f]) }

def subscribe (c : Client) (topic qualifier : String) : Client :=
  if (topic, qualifier) ∈ c.subscriptions then c
  else { c with subscriptions := c.subscriptions ++ [(topic, qualifier)] }

def unsubscribe (c : Client) (topic qualifier : String) : Client :=
  { c with subscriptions := c.subscriptions.filter (· ≠ (topic, qualifier)) }

/-- Carries out a command and acknowledges it. -/
def handle (c : Client) (cmd : Command) : Client :=
  match cmd with
  | .subscribe topic qualifier => (c.subscribe topic qualifier).reply cmd.acknowledgement
  | .unsubscribe topic qualifier => (c.unsubscribe topic qualifier).reply cmd.acknowledgement

def send (c : Client) (n : Notification) : Except DeliveryFault Unit × Client :=
  if c.isEnabled = false then (.error (.closed c.session), c)
  else if c.outbound.isNone then (.error (.closed c.session), c.disable)
  else (.ok (), c.reply (.notification n))

/-- Takes the frames that wait. -/
def flush (c : Client) : List Frame × Client :=
  (c.outbound.getD [], { c with outbound := c.outbound.map fun _ => [] })

end Client

end Foreman.Socket
