import Foreman.Wire.Release
import Foreman.Notification
import Foreman.Workflow

/-!
The JSON forms of the messages that go to clients and to the remote engine.
-/

namespace Foreman.Wire

open Json Json.Decoder

instance : Wire EventType where
  encode e := .string e.text
  decode := name EventType.ofText?

def requestFields : Fields ProcessRequest :=
  ProcessRequest.mk <$> .required "correlation_id" decode <*> .required "process_id" string <*>
    .required "payload" (any 126)

instance : Wire ProcessRequest where
  encode r := .object [
    ("correlation_id", encode r.correlation),
    ("process_id", .string r.process),
    ("payload", r.payload)]
  decode := requestFields.decoder

def keptAttempt : Decoder AttemptStatus := keptName AttemptStatus.ofText?

def keptStatus : Decoder TaskStatus :=
  (taskStatusFields (keptName Operation.ofText?) (keptName State.ofText?)).decoder

def buildStatusFields : Fields Notification :=
  Notification.buildStatusChanged <$> .required "configuration_id" decode <*>
    .required "configuration_name" string <*> .required "status" keptStatus

def releaseChangedFields : Fields Notification :=
  Notification.releaseChanged <$> .required "milestone_id" decode <*> .required "status" keptAttempt

def messageFields : Fields Notification := Notification.message <$> .required "text" string

def notificationVariant : String → Option (Decoder Notification)
  | "build_status_changed" => some buildStatusFields.decoder
  | "milestone_release_changed" => some releaseChangedFields.decoder
  | "message" => some messageFields.decoder
  | _ => none

instance : Wire Notification where
  encode
    | .buildStatusChanged id name status => .object [
      ("type", .string "build_status_changed"),
      ("configuration_id", encode id),
      ("configuration_name", .string name),
      ("status", encode status)]
    | .releaseChanged id status => .object [
      ("type", .string "milestone_release_changed"),
      ("milestone_id", encode id),
      ("status", encode status)]
    | .message text => .object [("type", .string "message"), ("text", .string text)]
  decode := tagged "type" notificationVariant

end Foreman.Wire
