import Foreman.Json.Basic

/-!
Reading typed values from JSON trees. Fields are looked at in the order of the text, so of several
faults the first one in the text is reported.
-/

namespace Foreman.Json

inductive Fault where
  /-- The text is not JSON, or a number in it is too great. -/
  | malformed
  /-- The text is JSON of another form. -/
  | mismatch
deriving DecidableEq

abbrev Decoder (α : Type) := Json → Except Fault α

/-- The fault of a value of the wrong kind. -/
def wrongKind : Json → Fault
  | flaw _ => .malformed
  | _ => .mismatch

namespace Decoder

def string : Decoder String
  | .string s => .ok s
  | v => .error (wrongKind v)

def bool : Decoder Bool
  | .bool b => .ok b
  | v => .error (wrongKind v)

/-- A whole number below `bound`, written without fraction and exponent. -/
def natBelow (bound : Nat) : Decoder Nat
  | .number (.whole (.ofNat n)) => if n < bound then .ok n else .error .mismatch
  | v => .error (wrongKind v)

/-- A text that `read` accepts. -/
def reading (read : String → Option α) : Decoder α
  | .string s =>
    match read s with
    | some a => .ok a
    | none => .error .mismatch
  | v => .error (wrongKind v)

def option (d : Decoder α) : Decoder (Option α)
  | .null => .ok none
  | v => some <$> d v

def items (d : Decoder α) : List Json → Except Fault (List α)
  | [] => .ok []
  | v :: rest => do
    let a ← d v
    return a :: (← items d rest)

def list (d : Decoder α) : Decoder (List α)
  | .array vs => items d vs
  | v => .error (wrongKind v)

def pairs (d : Decoder α) : List (String × Json) → Except Fault (List (String × α))
  | [] => .ok []
  | (k, v) :: rest => do
    let a ← d v
    return (k, a) :: (← pairs d rest)

/-- The fields of an object, all of one form. -/
def dictionary (d : Decoder α) : Decoder (List (String × α))
  | .object fields => pairs d fields
  | v => .error (wrongKind v)

/-- A name, written as a text or as the only key of an object, with a value that `isFiller` takes
for no value. -/
def nameBeside (isFiller : Json → Bool) (read : String → Option α) : Decoder α
  | .object [(k, v)] =>
    match read k with
    | some a => if isFiller v then .ok a else .error (wrongKind v)
    | none => .error .mismatch
  | v => reading read v

/-- A name that may stand beside null. -/
def name (read : String → Option α) : Decoder α := nameBeside (· matches .null) read

/-- A name in a record that is kept until its variant is known: there it may also stand beside an
object without fields. -/
def keptName (read : String → Option α) : Decoder α :=
  nameBeside (fun v => v matches .null | .object []) read

/-- Any value, nested at most `depth` deep. -/
def any (depth : Nat) : Decoder Json := fun v =>
  if v.isSound depth then .ok v.settled else .error .malformed

end Decoder

/-- One field of a record. -/
structure Member where
  name : String
  check : Json → Except Fault Unit
  /-- Whether it may be left off at the end of the array form. -/
  trailing : Bool

/-- The fields of a record in order and how the record is made of them. -/
structure Fields (α : Type) where
  members : List Member
  build : (String → Option Json) → Except Fault α

namespace Fields

instance : Functor Fields where
  map f x := ⟨x.members, fun look => f <$> x.build look⟩

instance : Applicative Fields where
  pure a := ⟨[], fun _ => .ok a⟩
  seq f x := ⟨f.members ++ (x ()).members, fun look => f.build look <*> (x ()).build look⟩

def check (d : Decoder α) (v : Json) : Except Fault Unit := do discard (d v)

def required (name : String) (d : Decoder α) : Fields α :=
  ⟨[⟨name, check d, false⟩], fun look => match look name with
    | some v => d v
    | none => .error .mismatch⟩

/-- A field that may be missing or null. -/
def optional (name : String) (d : Decoder α) : Fields (Option α) :=
  ⟨[⟨name, check d.option, false⟩], fun look => match look name with
    | some v => d.option v
    | none => .ok none⟩

/-- A field that stands for `default` when it is missing. -/
def defaulted (name : String) (d : Decoder α) (default : α) : Fields α :=
  ⟨[⟨name, check d, true⟩], fun look => match look name with
    | some v => d v
    | none => .ok default⟩

/-- Checks the fields of an object in order: no member twice, none of the wrong form. Other fields
are skipped. -/
def visit (members : List Member) : (seen : List String) → List (String × Json) → Except Fault Unit
  | _, [] => .ok ()
  | seen, (k, v) :: rest =>
    match members.find? (·.name = k), v with
    | _, .flaw .key => .error .malformed
    | some m, v =>
      if k ∈ seen then .error .mismatch
      else do
        m.check v
        visit members (k :: seen) rest
    | none, v => if v.isCut then .error .malformed else visit members seen rest

/-- Checks the items of the array form in order. -/
def visitItems : List Member → List Json → Except Fault Unit
  | [], [] => .ok ()
  | [], _ :: _ => .error .malformed
  | m :: rest, [] => if m.trailing then visitItems rest [] else .error .mismatch
  | m :: rest, v :: vs => do
    m.check v
    visitItems rest vs

/-- Reads the record from an object or from the array of its fields. -/
def decoder (f : Fields α) : Decoder α
  | .object fields => do
    visit f.members [] fields
    f.build fun k => fields.lookup k
  | .array vs => do
    visitItems f.members vs
    f.build fun k => ((f.members.map (·.name)).zip vs).lookup k
  | v => .error (wrongKind v)

end Fields

/-- Reads a record whose field `tag`, or first item, names its variant. -/
def tagged (tag : String) (variant : String → Option (Decoder α)) : Decoder α := fun v =>
  if v.isSound 127 then
    match v with
    | .object fields =>
      match fields.filter (·.1 = tag) with
      | [(_, .string name)] =>
        match variant name with
        | some d => d (.object (fields.filter (·.1 ≠ tag)))
        | none => .error .mismatch
      | _ => .error .mismatch
    | .array (.string name :: rest) =>
      match variant name with
      | some d => d (.array rest)
      | none => .error .mismatch
    | _ => .error .mismatch
  else .error .malformed

end Foreman.Json
