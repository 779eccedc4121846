import Foreman.Config.Settings
import Foreman.Wire.Basic

/-!
The JSON forms of the configuration.
-/

namespace Foreman.Wire

open Json Json.Decoder

/-- Nanoseconds have 32 bits; whole seconds among them are carried over, and the seconds must stay
below `2 ^ 64`. Other fields are refused. -/
def duration : Decoder Duration := fun v => do
  let fields : Fields (Nat × Nat) :=
    Prod.mk <$> .required "secs" word <*> .required "nanos" (natBelow UInt32.size)
  match v with
  | .object members =>
    if members.all fun m => m.1 = "secs" ∨ m.1 = "nanos" then pure () else throw .mismatch
  | _ => pure ()
  let (seconds, nanos) ← fields.decoder v
  let total := seconds + nanos / 1000000000
  if total < UInt64.size then pure ⟨total, nanos % 1000000000⟩ else throw .mismatch

instance : Wire Duration where
  encode d := .object [("secs", ofNat d.seconds), ("nanos", ofNat d.nanos)]
  decode := duration

def serverFields : Fields Config.Server :=
  Config.Server.mk <$> .required "bind" string <*> .optional "public_url" string

def sweepingFields : Fields Config.Sweeping :=
  Config.Sweeping.mk <$> .required "cleanup_interval" decode

def postProcessingFields : Fields Config.PostProcessing :=
  Config.PostProcessing.mk <$> .required "queue_consumers" word

def engineFields : Fields Config.Engine :=
  Config.Engine.mk <$> .required "url" string <*> .required "username" string <*>
    .required "password" string <*> .required "release_process" string

def settingsFields : Fields Config.Settings :=
  Config.Settings.mk <$> .required "server" serverFields.decoder <*>
    .required "notifier" sweepingFields.decoder <*>
    .required "coordinator" postProcessingFields.decoder <*>
    .optional "workflow_engine" engineFields.decoder

def ofEngine (e : Config.Engine) : Json :=
  .object [
    ("url", .string e.url),
    ("username", .string e.username),
    ("password", .string e.password),
    ("release_process", .string e.releaseProcess)]

instance : Wire Config.Settings where
  encode c := .object [
    ("server", .object [
      ("bind", .string c.server.bind),
      ("public_url", ofOption .string c.server.publicUrl)]),
    ("notifier", .object [("cleanup_interval", encode c.sweeping.interval)]),
    ("coordinator", .object [("queue_consumers", ofNat c.postProcessing.queueConsumers)]),
    ("workflow_engine", ofOption ofEngine c.engine)]
  decode := settingsFields.decoder

end Foreman.Wire
