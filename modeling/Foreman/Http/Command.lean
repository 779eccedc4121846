import Foreman.Http.MediaType
import Foreman.Http.Message
import Foreman.Http.Route
import Foreman.Json.Octets
import Foreman.Wire.Build

/-!
What a request asks for. Of several faults of a request the path comes first, then the method, the
coding of the path, the type, length and text of the body, and the ids in the path.
-/

namespace Foreman.Http

inductive Command where
  | health
  | readiness
  | listBuilds
  | submitBuild (c : BuildConfiguration) (callbackUrl : Option String)
  | listRecords (configuration : ResourceId)
  | releaseState (milestone : ResourceId)
  | startRelease (milestone : ResourceId) (accessToken : String)
  | deliver (id : CorrelationId) (event : String) (payload : Json)

/-- The body is announced as JSON. -/
def Request.isJson (r : Request) : Bool :=
  (r.contentType.bind MediaType.ofText?).any MediaType.isJson

/-- How many bytes a body may have. -/
def bodyLimit : Nat := 2097152

/-- Reads the body. A text that is not JSON is told from JSON of another form, whichever shows
first; text after the value comes last. -/
def readBody (r : Request) (d : Json.Decoder α) : Except Response α :=
  if !r.isJson then .error (.bare 415)
  else if bodyLimit < r.body.size then .error (.bare 413)
  else
    let (v, whole) := Json.readOctets r.body
    match d v with
    | .error .malformed => .error (.bare 400)
    | .error .mismatch => .error (.bare 422)
    | .ok a => if whole then .ok a else .error (.bare 400)

def readId (s : String) : Except Response ResourceId :=
  match ResourceId.ofText? s with
  | some id => .ok id
  | none => .error (.refuse (.badRequest ("invalid id '" ++ s ++ "'")))

def submission : Json.Fields (BuildConfiguration × Option String) :=
  Prod.mk <$> .required "configuration" Wire.decode <*> .optional "callback_url" .string

def startRequest : Json.Fields String := .required "access_token" .string

inductive Method where
  | get
  | head
  | post
  | other
deriving DecidableEq

def Method.ofText : String → Method
  | "GET" => get
  | "HEAD" => head
  | "POST" => post
  | _ => other

namespace Command

/-- What a request for a route asks for. -/
def ofRoute (route : Route) (post : Bool) (r : Request) : Except Response Command :=
  match route, post with
  | .health, false => .ok .health
  | .readiness, false => .ok .readiness
  | .builds, false => .ok .listBuilds
  | .builds, true => do
    let (c, url) ← readBody r submission.decoder
    return .submitBuild c url
  | .records id, false => return .listRecords (← readId id)
  | .release id, false => return .releaseState (← readId id)
  | .release id, true => do
    let token ← readBody r startRequest.decoder
    return .startRelease (← readId id) token
  | .callback id event, true => return .deliver ⟨id⟩ event (← readBody r (Json.Decoder.any 127))
  | .socket, _ => .error (.bare 400)
  | _, _ => .error (.bare 405)

def allows (route : Route) : Method → Bool
  | .get =>
    match route with
    | .callback _ _ => false
    | _ => true
  | .head =>
    match route with
    | .callback _ _ | .socket => false
    | _ => true
  | .post =>
    match route with
    | .builds | .release _ | .callback _ _ => true
    | _ => false
  | .other => false

def ofRequest (r : Request) : Except Response Command :=
  match Route.ofPath? (Route.pathOf r.target) with
  | none => .error (.bare 404)
  | some route =>
    let m := Method.ofText r.method
    if allows route m then
      match route.decode? with
      | some route => ofRoute route (m = .post) r
      | none => .error (.bare 400)
    else .error (.bare 405)

end Command

end Foreman.Http
