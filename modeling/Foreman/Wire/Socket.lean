import Foreman.Socket.Command
import Foreman.Wire.Message

/-!
The JSON forms of what goes over a socket.
-/

namespace Foreman.Wire

open Json Json.Decoder

/-- A command that names no qualifier means every one. -/
def commandFields (make : String → String → Socket.Command) : Fields Socket.Command :=
  make <$> .required "topic" string <*> .defaulted "qualifier" string Notification.anyQualifier

def commandVariant : String → Option (Decoder Socket.Command)
  | "subscribe" => some (commandFields .subscribe).decoder
  | "unsubscribe" => some (commandFields .unsubscribe).decoder
  | _ => none

def command : Decoder Socket.Command := tagged "type" commandVariant

def ofFrame : Socket.Frame → Json
  | .subscribed topic qualifier => .object [
    ("type", .string "subscribed"), ("topic", .string topic), ("qualifier", .string qualifier)]
  | .unsubscribed topic qualifier => .object [
    ("type", .string "unsubscribed"), ("topic", .string topic), ("qualifier", .string qualifier)]
  | .error message => .object [("type", .string "error"), ("message", .string message)]
  | .notification n => encode n

end Foreman.Wire
