import Foreman.Kdl.Token

/-!
The document of a KDL text. A slashdash drops the entry, the block or the node after it. What it
drops is read like what counts, so the functions that skip it give the lexemes after it.
-/

namespace Foreman.Kdl

def skipSpace (ts : List Token) : List Token :=
  ts.dropWhile fun t => t matches .space

/-- Skips blanks and line ends, as a slashdash does. -/
def skipLines (ts : List Token) : List Token :=
  ts.dropWhile fun t => t matches .space | .newline

/-- The lexemes after a type annotation, if one stands here. -/
def skipType? (ts : List Token) : Option (List Token) :=
  match ts with
  | .openParen :: rest =>
    match skipSpace rest with
    | .word _ :: rest =>
      match skipSpace rest with
      | .closeParen :: rest => some (skipSpace rest)
      | _ => none
    | _ => none
  | _ => some ts

/-- A value with or without a type. -/
def value? (ts : List Token) : Option (Value × List Token) := do
  match ← skipType? ts with
  | .word s :: rest => some (.string s, rest)
  | .value v :: rest => some (v, rest)
  | _ => none

/-- An argument or a property. -/
def entryAt? (ts : List Token) : Option (Entry × List Token) :=
  match ts with
  | .word s :: rest =>
    match skipSpace rest with
    | .equals :: rest => do
      let (v, rest) ← value? (skipSpace rest)
      some (⟨some s, v⟩, rest)
    | _ => some (⟨none, .string s⟩, rest)
  | _ => do
    let (v, rest) ← value? ts
    some (⟨none, v⟩, rest)

def startsWithSpace (ts : List Token) : Bool := ts.head? matches some .space

mutual

/-- An entry, after the entries that a slashdash drops before it. -/
def kept? : (fuel : Nat) → List Token → Option (Entry × List Token)
  | 0, _ => none
  | fuel + 1, .slashdash :: rest => do
    let rest ← dropped? fuel (.slashdash :: rest)
    if startsWithSpace rest then entryAt? (skipSpace rest) else none
  | _ + 1, ts => entryAt? ts

/-- The lexemes after one or more entries with a slashdash before each. What one of them drops
is itself an entry after dropped ones, so two in a row drop two entries. -/
def dropped? : (fuel : Nat) → List Token → Option (List Token)
  | fuel + 1, .slashdash :: rest => do
    let (_, rest) ← kept? fuel (skipLines rest)
    if startsWithSpace rest then some ((dropped? fuel (skipSpace rest)).getD rest) else some rest
  | _, _ => none

end

/-- The entries of a node, each after a blank, and the lexemes after them. -/
def entries : (fuel : Nat) → List Token → List Entry × List Token
  | 0, ts => ([], ts)
  | fuel + 1, ts =>
    if startsWithSpace ts then
      match kept? fuel (skipSpace ts) with
      | some (e, rest) =>
        let (es, rest) := entries fuel rest
        (e :: es, rest)
      | none => ([], ts)
    else ([], ts)

mutual

/-- The nodes that stand here, and the lexemes after them. A line end or a semicolon stands between
two nodes; one that a slashdash drops needs none. -/
def nodes : (fuel : Nat) → List Token → List Node × List Token
  | 0, ts => ([], ts)
  | fuel + 1, ts =>
    let ts := skipDropped fuel ts
    match node? fuel ts with
    | none => ([], ts)
    | some (n, .newline :: rest) | some (n, .semicolon :: rest) =>
      let (ns, rest) := nodes fuel rest
      (n :: ns, rest)
    | some (n, rest) => ([n], skipDropped fuel rest)

/-- Skips blanks, line ends and the nodes that a slashdash drops. -/
def skipDropped : (fuel : Nat) → List Token → List Token
  | 0, ts => ts
  | fuel + 1, ts =>
    match skipLines ts with
    | .slashdash :: rest =>
      match node? fuel (skipLines rest) with
      | some (_, after) => skipDropped fuel after
      | none => .slashdash :: rest
    | ts => ts

/-- One node, without what ends it. -/
def node? : (fuel : Nat) → List Token → Option (Node × List Token)
  | 0, _ => none
  | fuel + 1, ts => do
    match ← skipType? ts with
    | .word name :: rest =>
      let (es, rest) := entries (2 * rest.length + 2) rest
      let rest := skipToBlock fuel rest
      match block? fuel rest with
      | some (ns, rest) =>
        let rest := (droppedBlocks? fuel rest).getD rest
        some (.mk name es ns, skipSpace rest)
      | none => some (.mk name es [], rest)
    | _ => none

/-- The nodes between two braces. -/
def block? : (fuel : Nat) → List Token → Option (List Node × List Token)
  | fuel + 1, .openBrace :: rest =>
    match nodes fuel rest with
    | (ns, .closeBrace :: rest) => some (ns, rest)
    | _ => none
  | _, _ => none

/-- The lexemes after one or more blocks with a slashdash before each and blanks between them. -/
def droppedBlocks? : (fuel : Nat) → List Token → Option (List Token)
  | 0, _ => none
  | fuel + 1, ts =>
    match skipSpace ts with
    | .slashdash :: rest => do
      let (_, rest) ← block? fuel (skipLines rest)
      if startsWithSpace rest then some ((droppedBlocks? fuel rest).getD rest) else some rest
    | _ => none

/-- Skips what may stand between the entries of a node and its block: first dropped entries, then
dropped blocks. -/
def skipToBlock : (fuel : Nat) → List Token → List Token
  | 0, ts => ts
  | fuel + 1, ts =>
    let rest :=
      if startsWithSpace ts then
        let rest := (dropped? (2 * ts.length + 2) (skipSpace ts)).getD ts
        if startsWithSpace rest then (droppedBlocks? fuel rest).getD rest else rest
      else ts
    skipSpace rest

end

/-- Reads a document; a byte order mark may stand before it. -/
def read? (text : String) : Option Document := do
  let cs := match text.toList with
    | c :: rest => if c.toNat = 0xFEFF then rest else c :: rest
    | [] => []
  let ts ← tokens? cs
  match nodes (4 * ts.length + 4) ts with
  | (ns, []) => some ns
  | _ => none

end Foreman.Kdl
