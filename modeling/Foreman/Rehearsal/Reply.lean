import Foreman.Fault
import Foreman.Json.Printer
import Foreman.Wire.Basic

/-!
What the cues of a rehearsal are answered with.
-/

namespace Foreman.Rehearsal

inductive Trouble where
  | fault (f : Fault)
  | workflow (f : WorkflowFault)
  | delivery (f : DeliveryFault)
  /-- A text is not what it should be. -/
  | unreadable
  /-- A cue names something that there is not. -/
  | nameless

abbrev Reply := Except Trouble Json

namespace Reply

def nothing : Reply := .ok .null

def word (s : String) : Reply := .ok (.string s)

def flag (b : Bool) : Reply := .ok (.bool b)

def value [Wire α] (a : α) : Reply := .ok (Wire.encode a)

def fault (f : Fault) : Reply := .error (.fault f)

def nameless : Reply := .error .nameless

def ofExcept (r : Except Fault α) (f : α → Json) : Reply :=
  match r with
  | .ok a => .ok (f a)
  | .error e => fault e

end Reply

/-- A field that is left out when it has no items. -/
def unlessEmpty (name : String) (items : List Json) : List (String × Json) :=
  if items.isEmpty then [] else [(name, .array items)]

/-- Values in the order of their texts. -/
def sortByText (l : List Json) : List Json :=
  ((l.map fun v => (v.settled.text, v)).mergeSort fun a b => a.1 ≤ b.1).map (·.2)

def sortTexts (l : List String) : List String := l.mergeSort (· ≤ ·)

end Foreman.Rehearsal
