import Foreman.Json.Decoder
import Foreman.Build

/-!
The JSON forms of values. `encode` writes the one form that is sent, `decode` takes every form that
is accepted.
-/

namespace Foreman

class Wire (α : Type) where
  encode : α → Json
  decode : Json.Decoder α

namespace Wire

/-- A whole number of 64 bits. -/
def word : Json.Decoder Nat := Json.Decoder.natBelow UInt64.size

def ofOption (encode : α → Json) : Option α → Json
  | some a => encode a
  | none => .null

def ofList (encode : α → Json) (l : List α) : Json := .array (l.map encode)

def ofDictionary (d : Dictionary) : Json := .object (d.entries.map fun (k, v) => (k, .string v))

def dictionary : Json.Decoder Dictionary := fun v =>
  Table.ofList <$> Json.Decoder.dictionary Json.Decoder.string v

instance : Wire ResourceId where
  encode id := .string id.text
  decode := Json.Decoder.reading ResourceId.ofText?

instance : Wire BuildIdentity where
  encode id := .string id.text
  decode := Json.Decoder.reading fun s => BuildIdentity.mk <$> ResourceId.ofText? s

instance : Wire CorrelationId where
  encode id := .string id.text
  decode := Json.Decoder.reading fun s => some ⟨s⟩

instance : Wire Instant where
  encode t := .string t.text
  decode := Json.Decoder.reading Instant.ofText?

instance : Wire Operation where
  encode o := .string o.text
  decode := Json.Decoder.name Operation.ofText?

instance : Wire State where
  encode s := .string s.text
  decode := Json.Decoder.name State.ofText?

def taskStatusFields (operation : Json.Decoder Operation) (state : Json.Decoder State) :
    Json.Fields TaskStatus :=
  TaskStatus.mk <$> .required "operation" operation <*> .required "state" state

instance : Wire TaskStatus where
  encode s := .object [("operation", encode s.operation), ("state", encode s.state)]
  decode := (taskStatusFields decode decode).decoder

end Wire

end Foreman
