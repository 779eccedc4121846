import Foreman.Socket.Session

/-!
Clients for rehearsals: those on sockets and those that follow a script.
-/

namespace Foreman.Rehearsal

/-- What a scripted client does first when a message is sent to it. -/
inductive Reaction where
  /-- Another client takes over the session. -/
  | reattach
  | detach
  | disable
  | cleanUp
deriving DecidableEq

/-- How every send to a scripted client fails. -/
inductive Failure where
  | closed
  | transport (reason : String)
deriving DecidableEq

structure Scripted where
  session : String
  isEnabled : Bool := true
  failure : Option Failure := none
  subscriptions : List (String × String) := []
  reaction : Option Reaction := none
  /-- Most recent last. -/
  received : List Notification := []

inductive Player where
  | scripted (s : Scripted)
  | socket (c : Socket.Client)

namespace Player

def session : Player → String
  | scripted s => s.session
  | socket c => c.session

def isEnabled : Player → Bool
  | scripted s => s.isEnabled
  | socket c => c.isEnabled

def isSubscribed : Player → String → String → Bool
  | scripted s, topic, qualifier =>
    s.subscriptions.any fun p =>
      p.1 = topic ∧ (p.2 = qualifier ∨ p.2 = Notification.anyQualifier)
  | socket c, topic, qualifier => c.isSubscribed topic qualifier

instance : Recipient Player where
  session := session
  isEnabled := isEnabled
  isSubscribed := isSubscribed

def onScripted (f : Scripted → Scripted) : Player → Player
  | scripted s => scripted (f s)
  | p => p

def onSocket (f : Socket.Client → Socket.Client) : Player → Player
  | socket c => socket (f c)
  | p => p

instance : Socket.Carrier Player where
  ofClient := socket
  onClient := onSocket

def react (i : Nat) (s : Scripted) (n : Notifier Player) : Notifier Player :=
  match s.reaction with
  | none => n
  | some .reattach => (n.create (scripted { session := s.session })).attach n.clients.length
  | some .detach => n.detach s.session
  | some .disable => n.change i (onScripted fun s => { s with isEnabled := false })
  | some .cleanUp => n.cleanUp

def send (m : Notification) : Notifier.Send Player := fun i n =>
  match n.client? i with
  | none => (.ok (), n)
  | some (.socket c) =>
    let (r, c) := c.send m
    (r, n.change i fun _ => socket c)
  | some (.scripted s) =>
    let n := react i s n
    match s.failure with
    | some .closed => (.error (.closed s.session), n)
    | some (.transport reason) => (.error (.transport reason), n)
    | none => (.ok (), n.change i (onScripted fun s => { s with received := s.received ++ [m] }))

end Player

end Foreman.Rehearsal
