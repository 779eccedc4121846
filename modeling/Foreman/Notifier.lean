import Foreman.Fault
import Foreman.Notification

/-!
The clients that messages are pushed to. A client is known by its number; each session has at most
one client attached. A message goes to the clients that were attached when it was sent, and those
that fail are detached afterwards unless their session has another client by then.
-/

namespace Foreman

class Recipient (C : Type) where
  session : C → String
  isEnabled : C → Bool
  isSubscribed : C → (topic qualifier : String) → Bool

structure Notifier (C : Type) where
  /-- Every client that was ever made; its place is its number. -/
  clients : List C
  attached : Table String Nat

/-- How many clients got a message and how many failed to. -/
structure Delivery where
  delivered : Nat
  failed : Nat
deriving DecidableEq

namespace Notifier

variable {C : Type}

def empty : Notifier C := ⟨[], .empty⟩

def client? (n : Notifier C) (i : Nat) : Option C := n.clients[i]?

/-- Makes a client without attaching it; its number is the count of those before it. -/
def create (n : Notifier C) (c : C) : Notifier C := { n with clients := n.clients ++ [c] }

def change (n : Notifier C) (i : Nat) (f : C → C) : Notifier C :=
  { n with clients := n.clients.modify i f }

def count (n : Notifier C) : Nat := n.attached.size

def detach (n : Notifier C) (session : String) : Notifier C :=
  { n with attached := n.attached.erase session }

variable [Recipient C]

/-- Takes the place of the client that the session had before. -/
def attach (n : Notifier C) (i : Nat) : Notifier C :=
  match n.client? i with
  | some c => { n with attached := n.attached.insert (Recipient.session c) i }
  | none => n

def isEnabled (n : Notifier C) (i : Nat) : Bool := (n.client? i).any Recipient.isEnabled

/-- Detaches all clients that are disabled. -/
def cleanUp (n : Notifier C) : Notifier C :=
  { n with attached := n.attached.filter fun _ i => n.isEnabled i }

/-- The attached clients that are enabled and that `want` accepts. -/
def targets (n : Notifier C) (want : C → Bool) : List Nat :=
  n.attached.values.filter fun i => (n.client? i).any fun c => Recipient.isEnabled c && want c

/-- Detaches the client, not another one that has its session by now. -/
def evict (n : Notifier C) (i : Nat) : Notifier C :=
  { n with attached := n.attached.filter fun _ i' => i' ≠ i }

/-- What one client's send does; it may change the clients and who is attached. -/
abbrev Send (C : Type) := Nat → Notifier C → Except DeliveryFault Unit × Notifier C

/-- Sends to each of the clients in turn; also gives those that failed. -/
def sendEach (send : Send C) : List Nat → Notifier C → List Nat × Notifier C
  | [], n => ([], n)
  | i :: rest, n =>
    match send i n with
    | (.ok (), n) => sendEach send rest n
    | (.error _, n) =>
      let (failed, n) := sendEach send rest n
      (i :: failed, n)

def deliver (send : Send C) (targets : List Nat) (n : Notifier C) : Delivery × Notifier C :=
  let (failed, n) := sendEach send targets n
  (⟨targets.length - failed.length, failed.length⟩, failed.foldl evict n)

/-- Sends to every enabled client. -/
def broadcast (n : Notifier C) (send : Send C) : Delivery × Notifier C :=
  deliver send (n.targets fun _ => true) n

/-- Sends to the enabled clients that are subscribed. -/
def publish (n : Notifier C) (send : Send C) (topic qualifier : String) : Delivery × Notifier C :=
  deliver send (n.targets fun c => Recipient.isSubscribed c topic qualifier) n

end Notifier

end Foreman
