import Foreman.Config.Settings
import Foreman.Json.Printer
import Foreman.Text.Base64
import Foreman.Text.Percent
import Foreman.Wire.Build
import Foreman.Workflow

/-!
The remote engine over HTTP: the requests that start a process and report a build, and what its
answers mean.
-/

namespace Foreman.Http

structure Engine where
  /-- Without a slash at the end. -/
  base : String
  username : String
  password : String

/-- A request to the engine; all of them are posts. -/
structure Post where
  url : String
  authorization : String
  contentType : String
  body : String

/-- What comes back: an answer with status and body, or the reason why there is none. -/
abbrev Transport := Post → Except String (Nat × String)

namespace Engine

def ofSettings (c : Config.Engine) : Except WorkflowFault Engine :=
  let base := Text.trimSlashes c.url
  if "http://".isPrefixOf base || "https://".isPrefixOf base then
    .ok ⟨base, c.username, c.password⟩
  else .error (.config ("workflow engine url must be http(s), got '" ++ c.url ++ "'"))

def authorization (e : Engine) : String := "Basic " ++ Text.base64 (e.username ++ ":" ++ e.password)

def startPost (e : Engine) (r : ProcessRequest) : Post where
  url := e.base ++ "/processes/" ++ r.process ++ "/instances"
  authorization := e.authorization
  contentType := "application/json"
  body := (Json.object [("correlationId", .string r.correlation.text), ("payload", r.payload)]).text

/-- The result goes as the field `event` of a form. -/
def reportPost (e : Engine) (url : String) (r : BuildResult) : Post where
  url
  authorization := e.authorization
  contentType := "application/x-www-form-urlencoded"
  body := "event=" ++ Text.formEncode (Wire.encode r).text

/-- Every status from 200 to 299 is an agreement. -/
def judge : Except String (Nat × String) → Except EngineFault Unit
  | .error reason => .error (.request reason)
  | .ok (status, body) =>
    if 200 ≤ status ∧ status < 300 then .ok () else .error (.rejected status body)

def start (e : Engine) (t : Transport) (r : ProcessRequest) : Except EngineFault Unit :=
  judge (t (e.startPost r))

def report (e : Engine) (t : Transport) (url : String) (r : BuildResult) :
    Except EngineFault Unit :=
  judge (t (e.reportPost url r))

end Engine

end Foreman.Http
