import Foreman.Kdl.Document
import Foreman.Text.Numeral

/-!
The words of a KDL text that stand without quotes: character classes, numbers, bare words and
keywords.
-/

namespace Foreman.Kdl

def isNewline (c : Char) : Bool :=
  let n := c.toNat
  (0xA ≤ n && n ≤ 0xD) || n == 0x85 || n == 0x2028 || n == 0x2029

def isSpace (c : Char) : Bool := Text.isBlank c && !isNewline c

/-- Characters that may not stand in a document as they are. -/
def isForbidden (c : Char) : Bool :=
  let n := c.toNat
  n ≤ 8 || (0xE ≤ n && n ≤ 0x1F) || n == 0x200E || n == 0x200F ||
    (0x202A ≤ n && n ≤ 0x202E) || (0x2066 ≤ n && n ≤ 0x2069) || n == 0xFEFF

/-- Characters of bare words and numbers. -/
def isWordChar (c : Char) : Bool :=
  !Text.isBlank c && !isForbidden c &&
    !(['\\', '/', '(', ')', '\x7b', '\x7d', ';', '[', ']', '"', '#', '='].contains c)

/-- Digits of one base, the first a digit, the others digits or underscores. -/
def digits? (isDigit : Char → Bool) (cs : List Char) : Option (List Char) :=
  match cs with
  | c :: rest =>
    if isDigit c ∧ rest.all (fun c => isDigit c || c == '_') then some (cs.filter (· ≠ '_'))
    else none
  | [] => none

/-- Whole numbers have at most 127 bits. -/
def integerBound : Nat := 1 <<< 127

def inBase (base : Nat) (ds : List Char) : Nat :=
  ds.foldl (fun n c => base * n + (Text.hexValue? c).getD 0) 0

/-- A whole number in one base. -/
def integer? (base : Nat) (isDigit : Char → Bool) (cs : List Char) : Option Nat :=
  (digits? isDigit cs).map (inBase base) |>.filter (· < integerBound)

/-- Digits in base ten that are a whole number by themselves. -/
def isDigits (cs : List Char) : Bool := (integer? 10 Text.isDigit cs).isSome

/-- Digits, then maybe an exponent: the part of a number after its point. -/
def isFraction (cs : List Char) : Bool :=
  let exponent (cs : List Char) : Bool :=
    match cs with
    | '+' :: cs | '-' :: cs => isDigits cs
    | cs => isDigits cs
  let head := cs.takeWhile fun c => c ≠ 'e' ∧ c ≠ 'E'
  isDigits head &&
    match cs.drop head.length with
    | [] => true
    | _ :: rest => exponent rest

/-- A number in decimal or after `0x`, `0o` or `0b`, without its sign. Of a number with a fraction
or an exponent each run of digits is bounded like a whole number. -/
def magnitude? (negative : Bool) (cs : List Char) : Option Value :=
  let signed (n : Nat) : Value := .integer (if negative then -(n : Int) else n)
  let inBase? (base : Nat) (ds : List Char) : Option Value :=
    (integer? base (fun c => (Text.hexValue? c).any (· < base)) ds).map signed
  match cs with
  | '0' :: 'x' :: ds | '0' :: 'X' :: ds => inBase? 16 ds
  | '0' :: 'o' :: ds | '0' :: 'O' :: ds => inBase? 8 ds
  | '0' :: 'b' :: ds | '0' :: 'B' :: ds => inBase? 2 ds
  | _ =>
    match digits? Text.isDigit cs with
    | some _ => inBase? 10 cs
    | none =>
      let whole := cs.takeWhile fun c => c ≠ '.'
      let real := Value.real (String.ofList (if negative then '-' :: cs else cs))
      match cs.drop whole.length with
      | [] => if isFraction cs then some real else none
      | _ :: rest => if isDigits whole ∧ isFraction rest then some real else none

/-- A bare run of word characters: a number if it starts like one, otherwise a text. The names of
keywords are neither. -/
def bare? (cs : List Char) : Option (Value ⊕ String) :=
  let startsNumber (cs : List Char) : Bool := cs.head?.any Text.isDigit
  let word := String.ofList cs
  if startsNumber cs then (magnitude? false cs).map .inl
  else
    match cs with
    | c :: rest =>
      if (c = '+' ∨ c = '-') ∧ startsNumber rest then (magnitude? (c = '-') rest).map .inl
      else
        let unsigned := if c = '+' ∨ c = '-' then rest else cs
        if unsigned.head? = some '.' ∧ startsNumber (unsigned.drop 1) then none
        else if ["true", "false", "null", "inf", "nan"].contains word then none
        else some (.inr word)
    | [] => none

/-- The value of a keyword, written after a `#`. -/
def keyword? (s : String) : Option Value :=
  match s with
  | "true" => some (.bool true)
  | "false" => some (.bool false)
  | "null" => some .null
  | "inf" | "-inf" | "nan" => some (.real s)
  | _ => none

end Foreman.Kdl
