import Foreman.Json.Basic
import Foreman.Rehearsal.Clock

/-!
Transcripts of rehearsals. What differs from one rehearsal to the next is written in a way that does
not: the present is `<now>`, and ids that were made up are `<id-1>`, `<id-2>` and so on in the order
in which they first occur.
-/

namespace Foreman.Rehearsal

structure Labels where
  /-- Ids that stand for themselves. -/
  known : List ResourceId
  /-- Ids that were made up, in the order of their first occurrence. -/
  made : List ResourceId

namespace Labels

/-- The id in groups that a text begins with. -/
def idAtFront? (cs : List Char) : Option ResourceId :=
  let front := cs.take 36
  if front.length = 36 ∧ front[8]? = some '-' then ResourceId.ofChars? front else none

/-- The ids in a text, none of which overlap. The last so many characters were looked at. -/
def idsIn (skip : Nat) : List Char → List ResourceId
  | [] => []
  | c :: cs =>
    match skip, idAtFront? (c :: cs) with
    | skip + 1, _ => idsIn skip cs
    | 0, some id => id :: idsIn 35 cs
    | 0, none => idsIn 0 cs

mutual

def idsOf : Json → List ResourceId
  | .string s => idsIn 0 s.toList
  | .array items => idsOfItems items
  | .object fields => idsOfFields fields
  | _ => []

def idsOfItems : List Json → List ResourceId
  | [] => []
  | v :: rest => idsOf v ++ idsOfItems rest

def idsOfFields : List (String × Json) → List ResourceId
  | [] => []
  | (k, v) :: rest => idsIn 0 k.toList ++ idsOf v ++ idsOfFields rest

end

/-- No id is made up yet; those of a script are known. -/
def ofScript (script : Json) : Labels := ⟨idsOf script, []⟩

def labelText (n : Nat) : List Char := "<id-".toList ++ Text.decimal (n + 1) ++ ['>']

def label (id : ResourceId) : StateM Labels (List Char) := fun l =>
  if id ∈ l.known then (id.chars, l)
  else match l.made.findIdx? (· = id) with
    | some n => (labelText n, l)
    | none => (labelText l.made.length, { l with made := l.made ++ [id] })

def maskChars (skip : Nat) : List Char → StateM Labels (List Char)
  | [] => pure []
  | c :: cs =>
    match skip, idAtFront? (c :: cs) with
    | skip + 1, _ => maskChars skip cs
    | 0, some id => do
      let text ← label id
      return text ++ (← maskChars 35 cs)
    | 0, none => do return c :: (← maskChars 0 cs)

def isPresent (s : String) : Bool :=
  match Instant.ofText? s with
  | some t => t.date = Clock.day
  | none => false

def maskText (s : String) : StateM Labels String := do
  if isPresent s then return "<now>" else return String.ofList (← maskChars 0 s.toList)

mutual

def maskTree : Json → StateM Labels Json
  | .string s => do return .string (← maskText s)
  | .array items => do return .array (← maskItems items)
  | .object fields => do return .object (← maskFields fields)
  | v => pure v

def maskItems : List Json → StateM Labels (List Json)
  | [] => pure []
  | v :: rest => do
    let v ← maskTree v
    return v :: (← maskItems rest)

def maskFields : List (String × Json) → StateM Labels (List (String × Json))
  | [] => pure []
  | (k, v) :: rest => do
    let k ← maskText k
    let v ← maskTree v
    return (k, v) :: (← maskFields rest)

end

/-- Writes labels; fields are looked at in the order of their keys. -/
def mask (v : Json) : StateM Labels Json := maskTree v.settled

/-- The id whose label a text begins with, and the length of the label. -/
def labelAtFront? (made : List ResourceId) (cs : List Char) : Option (ResourceId × Nat) := do
  let rest ← if cs.take 4 = "<id-".toList then some (cs.drop 4) else none
  let ds := rest.takeWhile Text.isDigit
  let id ← made[Text.numeralValue ds - 1]?
  if ds ≠ [] ∧ 0 < Text.numeralValue ds ∧ rest[ds.length]? = some '>' then
    some (id, ds.length + 5)
  else none

def unmaskChars (made : List ResourceId) (skip : Nat) : List Char → List Char
  | [] => []
  | c :: cs =>
    match skip, labelAtFront? made (c :: cs) with
    | skip + 1, _ => unmaskChars made skip cs
    | 0, some (id, n) => id.chars ++ unmaskChars made (n - 1) cs
    | 0, none => c :: unmaskChars made 0 cs

def unmaskText (made : List ResourceId) (s : String) : String :=
  String.ofList (unmaskChars made 0 s.toList)

mutual

def unmaskTree (made : List ResourceId) : Json → Json
  | .string s => .string (unmaskText made s)
  | .array items => .array (unmaskItems made items)
  | .object fields => .object (unmaskFields made fields)
  | v => v

def unmaskItems (made : List ResourceId) : List Json → List Json
  | [] => []
  | v :: rest => unmaskTree made v :: unmaskItems made rest

def unmaskFields (made : List ResourceId) : List (String × Json) → List (String × Json)
  | [] => []
  | (k, v) :: rest => (unmaskText made k, unmaskTree made v) :: unmaskFields made rest

end

/-- Puts the ids in the place of their labels. -/
def unmask (l : Labels) (v : Json) : Json := unmaskTree l.made v

end Labels

end Foreman.Rehearsal
