import Foreman.Fault
import Foreman.Text.Numeral

/-!
Durations as they are written in a configuration: a number directly followed by one of the units
`s`, `m`, `h` and `d`.
-/

namespace Foreman

structure Duration where
  seconds : Nat
  nanos : Nat
deriving DecidableEq

namespace Duration

def unitSeconds? (unit : List Char) : Option Nat :=
  match unit with
  | ['s'] => some 1
  | ['m'] => some 60
  | ['h'] => some (60 * 60)
  | ['d'] => some (60 * 60 * 24)
  | _ => none

/-- The duration of the digits before the unit. A fault is one of the configuration field `field`. -/
def ofParts (field : String) (digits unit : List Char) : Except ConfigFault Duration :=
  let invalid (reason : String) : Except ConfigFault Duration := .error (.invalidValue field reason)
  let quoted (cs : List Char) : String := "'" ++ String.ofList cs ++ "'"
  if unit = [] then invalid ("missing unit in " ++ quoted (digits ++ unit))
  else if digits = [] ∨ UInt64.size ≤ Text.numeralValue digits then
    invalid ("invalid number in " ++ quoted (digits ++ unit))
  else
    match unitSeconds? unit with
    | none => invalid ("unknown unit " ++ quoted unit)
    | some scale =>
      let seconds := Text.numeralValue digits * scale
      if seconds = 0 then invalid "duration must be greater than zero" else .ok ⟨seconds, 0⟩

/-- Reads the value of the configuration field `field`; blanks around it do not count. -/
def read (field text : String) : Except ConfigFault Duration :=
  let raw := Text.trim text.toList
  ofParts field (raw.takeWhile Text.isDigit) (raw.dropWhile Text.isDigit)

end Duration

end Foreman
