import Foreman.Binary64

/-!
JSON values. Besides values a tree may hold flaws, which mark where the text it was read from is
not one: a reader keeps the part before the fault, so that whoever takes the tree can tell which of
two faults comes first.
-/

namespace Foreman

/-- Whole numbers from `-2 ^ 63` to `2 ^ 64 - 1` are kept as such, all others as binary64. -/
inductive Number where
  | whole (i : Int)
  | real (x : Binary64)
deriving DecidableEq

/-- `cut` marks the place where a text stops being JSON. The others mark a key or a text with an
unpaired surrogate and a number too great for binary64; they do no harm where nobody looks. -/
inductive Flaw where
  | cut
  | key
  | text
  | magnitude
deriving DecidableEq

/-- The fields of an object stand in the order of the text, repeated keys included. -/
inductive Json where
  | null
  | bool (b : Bool)
  | number (n : Number)
  | string (s : String)
  | array (items : List Json)
  | object (fields : List (String × Json))
  | flaw (f : Flaw)

namespace Json

instance : Inhabited Json := ⟨null⟩

def ofNat (n : Nat) : Json := number (.whole n)

mutual

/-- Whether the text was cut inside this tree. -/
def isCut : Json → Bool
  | flaw .cut => true
  | array items => anyCut items
  | object fields => anyCutField fields
  | _ => false

def anyCut : List Json → Bool
  | [] => false
  | v :: rest => v.isCut || anyCut rest

def anyCutField : List (String × Json) → Bool
  | [] => false
  | (_, v) :: rest => v.isCut || anyCutField rest

end

mutual

/-- Whether the tree is free of flaws and nested at most `depth` deep. -/
def isSound : (depth : Nat) → Json → Bool
  | _, flaw _ => false
  | 0, array _ => false
  | 0, object _ => false
  | depth + 1, array items => allSound depth items
  | depth + 1, object fields => allSoundFields depth fields
  | _, _ => true

def allSound : (depth : Nat) → List Json → Bool
  | _, [] => true
  | depth, v :: rest => v.isSound depth && allSound depth rest

def allSoundFields : (depth : Nat) → List (String × Json) → Bool
  | _, [] => true
  | depth, (_, v) :: rest => v.isSound depth && allSoundFields depth rest

end

/-- Adds a field to fields in ascending order of keys, replacing the one with the same key. -/
def insertField (k : String) (v : Json) : List (String × Json) → List (String × Json)
  | [] => [(k, v)]
  | (k', v') :: rest =>
    if k = k' then (k, v) :: rest
    else if k < k' then (k, v) :: (k', v') :: rest
    else (k', v') :: insertField k v rest

mutual

/-- The tree with the fields of every object in ascending order of keys, of fields with the same
key only the last. -/
def settled : Json → Json
  | array items => array (settledItems items)
  | object fields => object (settledFields [] fields)
  | v => v

def settledItems : List Json → List Json
  | [] => []
  | v :: rest => v.settled :: settledItems rest

def settledFields (done : List (String × Json)) : List (String × Json) → List (String × Json)
  | [] => done
  | (k, v) :: rest => settledFields (insertField k v.settled done) rest

end

/-- The last field with key `k`. -/
def field? (k : String) : Json → Option Json
  | object fields => (fields.reverse.find? (·.1 = k)).map (·.2)
  | _ => none

end Json

end Foreman
