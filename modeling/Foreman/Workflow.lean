import Foreman.Fault
import Foreman.Json.Basic

/-!
Remote workflow processes: the events they deliver back and the request that starts one.
-/

namespace Foreman

inductive EventType where
  | importSuccess
  | importError
  | processProgress
deriving DecidableEq

namespace EventType

def all : List EventType := [importSuccess, importError, processProgress]

def text : EventType → String
  | importSuccess => "IMPORT_SUCCESS"
  | importError => "IMPORT_ERROR"
  | processProgress => "PROCESS_PROGRESS"

def ofText? (s : String) : Option EventType := all.find? (·.text = s)

def read (s : String) : Except EngineFault EventType :=
  match ofText? s with
  | some e => .ok e
  | none => .error (.unknownEventType s)

theorem ofText?_text (e : EventType) : ofText? e.text = some e := by
  cases e <;> decide

end EventType

structure ProcessRequest where
  correlation : CorrelationId
  /-- The process definition that the engine runs. -/
  process : String
  payload : Json

end Foreman
