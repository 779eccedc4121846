/-!
Documents of the KDL language: nodes with a name, arguments and properties, and child nodes. Type
annotations are not kept.
-/

namespace Foreman.Kdl

inductive Value where
  | string (s : String)
  | integer (i : Int)
  /-- A number with a fraction or an exponent, or one that is not finite, as it was written. -/
  | real (text : String)
  | bool (b : Bool)
  | null
deriving DecidableEq

/-- An argument, or a property if it has a name. -/
structure Entry where
  name : Option String
  value : Value
deriving DecidableEq

inductive Node where
  | mk (name : String) (entries : List Entry) (children : List Node)

namespace Node

def name : Node → String
  | mk n _ _ => n

def entries : Node → List Entry
  | mk _ es _ => es

def children : Node → List Node
  | mk _ _ cs => cs

end Node

abbrev Document := List Node

end Foreman.Kdl
