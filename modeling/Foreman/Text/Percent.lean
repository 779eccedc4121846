import Foreman.Text.Numeral

/-!
Percent signs in URLs: `%` and two hexadecimal digits stand for a byte, and the bytes for a text in
UTF-8. A percent sign without two digits stands for itself.
-/

namespace Foreman.Text

/-- The bytes that a text with percent signs stands for. -/
def percentBytes : List Char → List UInt8
  | '%' :: a :: b :: rest =>
    match hexValue? a, hexValue? b with
    | some x, some y => UInt8.ofNat (16 * x + y) :: percentBytes rest
    | _, _ => 37 :: percentBytes (a :: b :: rest)
  | c :: rest => String.utf8EncodeChar c ++ percentBytes rest
  | [] => []

/-- The text that a text with percent signs stands for; none if the bytes are not UTF-8. -/
def percentDecode? (s : String) : Option String :=
  if s.toList.contains '%' then String.fromUTF8? ⟨(percentBytes s.toList).toArray⟩ else some s

/-- Letters, digits and `*`, `-`, `.`, `_` stand for themselves in a form. -/
def isFormPlain (b : UInt8) : Bool :=
  let c := Char.ofNat b.toNat
  c.isAlphanum || c = '*' || c = '-' || c = '.' || c = '_'

def upperHexDigit (n : Nat) : Char := if n < 10 then Char.ofNat (48 + n) else Char.ofNat (55 + n)

def formByte (b : UInt8) : List Char :=
  if b = 32 then ['+']
  else if isFormPlain b then [Char.ofNat b.toNat]
  else ['%', upperHexDigit (b.toNat / 16), upperHexDigit (b.toNat % 16)]

/-- A text as it stands in a form. -/
def formEncode (s : String) : String := String.ofList (s.toUTF8.toList.flatMap formByte)

end Foreman.Text
