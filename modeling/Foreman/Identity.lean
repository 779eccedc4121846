import Foreman.Text.Numeral

/-!
Identifiers: 128-bit resource ids with their text forms, the identity of a build, and the
correlation ids that link a remote process to the results it delivers.
-/

namespace Foreman

structure ResourceId where
  bits : BitVec 128
deriving DecidableEq

namespace ResourceId

/-- Groups of 8, 4, 4, 4 and 12 digits. -/
def group (ds : List Char) : List Char :=
  ds.take 8 ++ '-' :: (ds.drop 8).take 4 ++ '-' :: (ds.drop 12).take 4 ++
    '-' :: (ds.drop 16).take 4 ++ '-' :: ds.drop 20

/-- The digits of a text in the five groups that `group` writes. -/
def ungroup? (cs : List Char) : Option (List Char) :=
  let ds := cs.take 8 ++ (cs.drop 9).take 4 ++ (cs.drop 14).take 4 ++ (cs.drop 19).take 4 ++
    cs.drop 24
  if cs = group ds then some ds else none

def ofDigits? (ds : List Char) : Option ResourceId :=
  if ds.length = 32 then (Text.readHex? ds).map fun n => ⟨BitVec.ofNat 128 n⟩ else none

def digits (id : ResourceId) : List Char := Text.hexPadded 32 id.bits.toNat

def chars (id : ResourceId) : List Char := group id.digits

/-- Lower case, in groups. -/
def text (id : ResourceId) : String := String.ofList id.chars

/-- Takes 32 digits in either case, bare or in groups; grouped ones also in braces or after
`urn:uuid:` in either case. -/
def ofChars? (cs : List Char) : Option ResourceId :=
  if cs.length = 32 then ofDigits? cs
  else if cs.length = 36 then (ungroup? cs).bind ofDigits?
  else if cs.length = 38 ∧ cs.head? = some '\x7b' ∧ cs.getLast? = some '\x7d' then
    (ungroup? (cs.drop 1).dropLast).bind ofDigits?
  else if (cs.take 9).map Char.toLower = "urn:uuid:".toList then
    (ungroup? (cs.drop 9)).bind ofDigits?
  else none

def ofText? (s : String) : Option ResourceId := ofChars? s.toList

/-- Ids are ordered as numbers. -/
def le (a b : ResourceId) : Bool := a.bits.toNat ≤ b.bits.toNat

end ResourceId

/-- Builds of one configuration share one identity, whatever task carries them out. -/
structure BuildIdentity where
  configuration : ResourceId
deriving DecidableEq

def BuildIdentity.text (id : BuildIdentity) : String := id.configuration.text

structure CorrelationId where
  text : String
deriving DecidableEq

def CorrelationId.ofResource (id : ResourceId) : CorrelationId := ⟨id.text⟩

end Foreman
