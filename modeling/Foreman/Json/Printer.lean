import Foreman.Json.Basic

/-!
The text of a JSON value: no blanks, fields in the order in which they stand, whole numbers in
decimal, and in texts only the quote, the backslash and the characters below 0x20 escaped.
-/

namespace Foreman.Json

def Number.text : Number → List Char
  | .whole i => if i < 0 then '-' :: Text.decimal (-i).toNat else Text.decimal i.toNat
  | .real x => x.text

def escapeChar (c : Char) : List Char :=
  let n := c.toNat
  if c = '"' then ['\\', '"']
  else if c = '\\' then ['\\', '\\']
  else if n = 8 then ['\\', 'b']
  else if n = 9 then ['\\', 't']
  else if n = 10 then ['\\', 'n']
  else if n = 12 then ['\\', 'f']
  else if n = 13 then ['\\', 'r']
  else if n < 0x20 then '\\' :: 'u' :: Text.hexPadded 4 n
  else [c]

def quote (s : String) : List Char := '"' :: s.toList.flatMap escapeChar ++ ['"']

mutual

/-- Flaws have no text. -/
def chars : Json → List Char
  | null => "null".toList
  | bool true => "true".toList
  | bool false => "false".toList
  | number n => Number.text n
  | string s => quote s
  | array items => '[' :: itemChars items ++ [']']
  | object fields => '\x7b' :: fieldChars fields ++ ['\x7d']
  | flaw _ => []

def itemChars : List Json → List Char
  | [] => []
  | [v] => v.chars
  | v :: rest => v.chars ++ ',' :: itemChars rest

def fieldChars : List (String × Json) → List Char
  | [] => []
  | [(k, v)] => quote k ++ ':' :: v.chars
  | (k, v) :: rest => quote k ++ ':' :: v.chars ++ ',' :: fieldChars rest

end

def text (v : Json) : String := String.ofList v.chars

end Foreman.Json
