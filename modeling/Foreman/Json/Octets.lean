import Foreman.Json.Reader

/-!
JSON in octets, which need not make up characters. Between lexemes a stray octet is as bad as any other
character that has no place there; inside a text it does harm only if the text is kept.
-/

namespace Foreman.Json

/-- What an octet that belongs to no character does. -/
def stray : Mode → List Token × Mode
  | .text done _ _ .none => ([], .text done false none .none)
  | m => step m '\uFFFD'

/-- The lexemes of the octets from an offset on, read in mode `m`. -/
def lexOctets (b : ByteArray) (m : Mode) (i : Nat) : List Token :=
  if i < b.size then
    match b.utf8DecodeChar? i with
    | some c => (step m c).1 ++ lexOctets b (step m c).2 (i + c.utf8Size)
    | none => (stray m).1 ++ lexOctets b (stray m).2 (i + 1)
  else finish m
termination_by b.size - i
decreasing_by
  · have := c.utf8Size_pos
    omega
  · omega

/-- The tree of the octets and whether nothing stands after it. -/
def readOctets (b : ByteArray) : Json × Bool :=
  let (v, rest) := build [] .value (lexOctets b .between 0)
  (v, rest.isEmpty)

end Foreman.Json
