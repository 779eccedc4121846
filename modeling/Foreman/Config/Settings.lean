import Foreman.Config.Duration
import Foreman.Kdl.Reader

/-!
The configuration of the service, read from a KDL document. Each section is what its last node
yields over the defaults; the first node that does not read decides the fault.
-/

namespace Foreman.Config

open Kdl

structure Server where
  bind : String := "0.0.0.0:3000"
  /-- Where the service can be reached from outside. -/
  publicUrl : Option String := none
deriving DecidableEq

structure Sweeping where
  /-- How often disabled clients are removed. -/
  interval : Duration := ⟨60 * 60, 0⟩
deriving DecidableEq

structure PostProcessing where
  queueConsumers : Nat := 1
deriving DecidableEq

structure Engine where
  url : String
  username : String
  password : String
  /-- The process that releases a milestone. -/
  releaseProcess : String
deriving DecidableEq

def defaultReleaseProcess : String := "milestone-release"

structure Settings where
  server : Server := {}
  sweeping : Sweeping := {}
  postProcessing : PostProcessing := {}
  engine : Option Engine := none
deriving DecidableEq

/-- The first argument of a node. -/
def argument? (n : Node) : Option Value := (n.entries.find? (·.name = none)).map (·.value)

/-- The first argument of a node, if it is a text. -/
def text? (n : Node) : Option String :=
  match argument? n with
  | some (.string s) => some s
  | _ => none

/-- The first argument of a node, if it is a whole number. -/
def integer? (n : Node) : Option Int :=
  match argument? n with
  | some (.integer i) => some i
  | _ => none

def orMissing (field : String) : Option α → Except ConfigFault α
  | some a => .ok a
  | none => .error (.missingField field)

def Server.apply (s : Server) (child : Node) : Except ConfigFault Server :=
  match child.name with
  | "bind" => return { s with bind := ← orMissing "server bind" (text? child) }
  | "public-url" => .ok { s with publicUrl := text? child }
  | _ => .ok s

def Server.read (n : Node) : Except ConfigFault Server := n.children.foldlM Server.apply {}

def Sweeping.apply (s : Sweeping) (child : Node) : Except ConfigFault Sweeping :=
  match child.name with
  | "cleanup-interval" => do
    let raw ← orMissing "notifier cleanup-interval" (text? child)
    return { s with interval := ← Duration.read "cleanup-interval" raw }
  | _ => .ok s

def Sweeping.read (n : Node) : Except ConfigFault Sweeping := n.children.foldlM Sweeping.apply {}

def PostProcessing.apply (p : PostProcessing) (child : Node) : Except ConfigFault PostProcessing :=
  match child.name with
  | "queue-consumers" => do
    let count ← orMissing "coordinator queue-consumers" (integer? child)
    if 0 < count ∧ count < UInt64.size then return { p with queueConsumers := count.toNat }
    else
      throw (.invalidValue "queue-consumers" ("must be a positive integer, got " ++ toString count))
  | _ => .ok p

def PostProcessing.read (n : Node) : Except ConfigFault PostProcessing :=
  n.children.foldlM PostProcessing.apply {}

/-- What the last child called `name` says, if there is one and it has a text. -/
def lastText? (n : Node) (name : String) : Option String :=
  (n.children.reverse.find? (·.name = name)).bind text?

def Engine.read (n : Node) : Except ConfigFault Engine := do
  let url ← orMissing "workflow-engine url" (lastText? n "url")
  return {
    url
    username := (lastText? n "username").getD ""
    password := (lastText? n "password").getD ""
    releaseProcess := (lastText? n "release-process").getD defaultReleaseProcess }

def Settings.apply (s : Settings) (n : Node) : Except ConfigFault Settings :=
  match n.name with
  | "server" => return { s with server := ← Server.read n }
  | "notifier" => return { s with sweeping := ← Sweeping.read n }
  | "coordinator" => return { s with postProcessing := ← PostProcessing.read n }
  | "workflow-engine" => return { s with engine := some (← Engine.read n) }
  | _ => .ok s

def Settings.ofDocument (d : Document) : Except ConfigFault Settings := d.foldlM Settings.apply {}

def Settings.read (text : String) : Except ConfigFault Settings :=
  match Kdl.read? text with
  | some d => ofDocument d
  | none => .error .parse

/-- Reads the contents of a file, none if there is no such file. -/
def Settings.load (contents : Option ByteArray) : Except ConfigFault Settings :=
  match contents with
  | none => .error (.unreadable "No such file or directory (os error 2)")
  | some bytes =>
    match String.fromUTF8? bytes with
    | some text => read text
    | none => .error (.unreadable "stream did not contain valid UTF-8")

end Foreman.Config
