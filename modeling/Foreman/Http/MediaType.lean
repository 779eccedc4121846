/-!
Media types: a type, a subtype that may end in a suffix, and parameters whose values are tokens or
quoted. Parameters must be well formed, but nothing depends on what they say.
-/

namespace Foreman.Http

structure MediaType where
  type : String
  subtype : String
  /-- What stands after the last plus sign of the subtype. -/
  suffix : Option String
deriving DecidableEq

namespace MediaType

def isTokenChar (c : Char) : Bool :=
  c.isAlphanum || "!#$%&'*+-.^_|~".toList.contains c || c = '\x60'

/-- How far the parameters have been read. -/
inductive Place where
  | start
  | name
  | value
  | token
  | opened
  | quoted
  | closed
deriving DecidableEq

namespace Place

/-- The place after one more character, if it may stand there. A quotation mark right after the
one that opens a value does not close it. -/
def next? : Place → Char → Option Place
  | start, c => if c = ' ' then some start else if isTokenChar c then some name else none
  | name, c => if c = '=' then some value else if isTokenChar c then some name else none
  | value, c => if c = '"' then some opened else if isTokenChar c then some token else none
  | token, c => if c = ';' then some start else if isTokenChar c then some token else none
  | opened, c => if ' ' ≤ c then some quoted else none
  | quoted, c => if c = '"' then some closed else if ' ' ≤ c then some quoted else none
  | closed, c => if c = ';' then some start else if c = ' ' then some closed else none

def canEnd : Place → Bool
  | start | value | token | closed => true
  | name | opened | quoted => false

end Place

def areParameters (cs : List Char) : Bool := (cs.foldlM Place.next? .start).any Place.canEnd

/-- Splits at the last plus sign that is not the first character. -/
def splitSuffix (cs : List Char) : String × Option String :=
  let suffix := (cs.reverse.takeWhile (· ≠ '+')).reverse
  let front := cs.take (cs.length - suffix.length - 1)
  if front = [] then (String.ofList cs, none)
  else (String.ofList front, some (String.ofList suffix))

def ofChars? (cs : List Char) : Option MediaType :=
  let type := cs.takeWhile isTokenChar
  match type, cs.drop type.length with
  | _ :: _, '/' :: rest =>
    let subtype := rest.takeWhile isTokenChar
    let (name, suffix) := splitSuffix subtype
    let media : MediaType := ⟨String.ofList type, name, suffix⟩
    match subtype, rest.drop subtype.length with
    | _, [] => some media
    | _ :: _, ';' :: parameters => if areParameters parameters then some media else none
    | _, _ => none
  | _, _ => none

/-- Letters of either case mean the same; characters beyond ASCII mean nothing. -/
def ofText? (s : String) : Option MediaType :=
  if s.toList.all fun c => c.toNat < 127 then ofChars? (s.toList.map Char.toLower) else none

/-- Whether it is JSON by its subtype or by its suffix. -/
def isJson (m : MediaType) : Bool :=
  m.type = "application" && (m.subtype = "json" || m.suffix = some "json")

end MediaType

end Foreman.Http
