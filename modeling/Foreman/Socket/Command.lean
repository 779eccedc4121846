import Foreman.Notification

/-!
What a client on a socket may ask for, and what is sent to it.
-/

namespace Foreman.Socket

/-- Commands to change what a client is told; `*` stands for every qualifier of a topic. -/
inductive Command where
  | subscribe (topic qualifier : String)
  | unsubscribe (topic qualifier : String)
deriving DecidableEq

/-- What is sent: an acknowledgement of a command, a complaint about a text that is none, or a
message. -/
inductive Frame where
  | subscribed (topic qualifier : String)
  | unsubscribed (topic qualifier : String)
  | error (message : String)
  | notification (n : Notification)
deriving DecidableEq

def Command.acknowledgement : Command → Frame
  | subscribe topic qualifier => .subscribed topic qualifier
  | unsubscribe topic qualifier => .unsubscribed topic qualifier

end Foreman.Socket
