import Foreman.Text.Percent

/-!
The paths of the service. A path is taken apart at its slashes; percent signs mean something only
inside of the parts that vary.
-/

namespace Foreman.Http

inductive Route where
  | health
  | readiness
  | builds
  | records (configuration : String)
  | release (milestone : String)
  | callback (correlation event : String)
  | socket
deriving DecidableEq

namespace Route

/-- The parts of a path between its slashes. -/
def segments (path : List Char) : List (List Char) := path.splitOn '/'

/-- The path of a target: what stands before a query, without a scheme and a host. -/
def pathOf (target : String) : List Char :=
  let cs := target.toList.takeWhile fun c => c ≠ '?' ∧ c ≠ '#'
  if cs.head? = some '/' then cs
  else
    match (segments cs).drop 3 with
    | [] => ['/']
    | parts => parts.flatMap ('/' :: ·)

/-- The route of a path as it stands, percent signs and all. A part that varies may be empty unless
it is the last one. -/
def ofSegments? (parts : List String) : Option Route :=
  match parts with
  | ["", "health"] => some health
  | ["", "health", "ready"] => some readiness
  | ["", "ws"] => some socket
  | ["", "api", "v1", "builds"] => some builds
  | ["", "api", "v1", "builds", id, "records"] => some (records id)
  | ["", "api", "v1", "milestones", id, "release"] => some (release id)
  | ["", "api", "v1", "workflow", "callback", id, event] =>
    if event = "" then none else some (callback id event)
  | _ => none

def ofPath? (path : List Char) : Option Route :=
  ofSegments? ((segments path).map String.ofList)

/-- The route with its parts decoded; none if one of them is not UTF-8. -/
def decode? : Route → Option Route
  | records id => records <$> Text.percentDecode? id
  | release id => release <$> Text.percentDecode? id
  | callback id event => do return callback (← Text.percentDecode? id) (← Text.percentDecode? event)
  | r => some r

/-- The path below which the engine reports on processes. -/
def callbackPath : String := "/api/v1/workflow/callback"

end Route

end Foreman.Http
