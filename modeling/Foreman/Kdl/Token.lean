import Foreman.Kdl.Quoted

/-!
The lexemes of a KDL text. Blanks and comments inside a line count as one kind of lexeme, line ends
and comments up to a line end as another.
-/

namespace Foreman.Kdl

inductive Token where
  | space
  | newline
  | slashdash
  | openBrace
  | closeBrace
  | openParen
  | closeParen
  | equals
  | semicolon
  | word (s : String)
  | value (v : Value)

/-- The text after a comment of `depth` open levels. -/
def skipComment? : (depth : Nat) → List Char → Option (List Char)
  | 0, cs => some cs
  | depth + 1, '*' :: '/' :: rest => skipComment? depth rest
  | depth + 1, '/' :: '*' :: rest => skipComment? (depth + 2) rest
  | depth + 1, _ :: rest => skipComment? (depth + 1) rest
  | _ + 1, [] => none

/-- The text after the blanks and comments that may stand between a backslash and the line end. -/
def skipBlanks? : (fuel : Nat) → List Char → Option (List Char)
  | 0, _ => none
  | fuel + 1, '/' :: '*' :: rest => do skipBlanks? fuel (← skipComment? 1 rest)
  | fuel + 1, c :: rest => if isSpace c then skipBlanks? fuel rest else some (c :: rest)
  | _ + 1, [] => some []

/-- The text after the line end that it starts with. -/
def dropLineEnd : List Char → List Char
  | '\r' :: '\n' :: rest => rest
  | cs => cs.drop 1

/-- The text after a backslash that continues a line. -/
def continueLine? (cs : List Char) : Option (List Char) := do
  match ← skipBlanks? (cs.length + 1) cs with
  | [] => some []
  | '/' :: '/' :: rest => some (dropLineEnd (rest.dropWhile fun c => !isNewline c))
  | c :: rest => if isNewline c then some (dropLineEnd (c :: rest)) else none

/-- The first lexeme and the rest of the text. -/
def token? : List Char → Option (Token × List Char)
  | [] => none
  | '/' :: '-' :: rest => some (.slashdash, rest)
  | '/' :: '/' :: rest => some (.newline, rest.dropWhile fun c => !isNewline c)
  | '/' :: '*' :: rest => do some (.space, ← skipComment? 1 rest)
  | '\\' :: rest => do some (.space, ← continueLine? rest)
  | '\x7b' :: rest => some (.openBrace, rest)
  | '\x7d' :: rest => some (.closeBrace, rest)
  | '(' :: rest => some (.openParen, rest)
  | ')' :: rest => some (.closeParen, rest)
  | '=' :: rest => some (.equals, rest)
  | ';' :: rest => some (.semicolon, rest)
  | '"' :: rest => do
    let (s, rest) ← quoted? 0 ('"' :: rest)
    some (.word s, rest)
  | '#' :: rest =>
    let hashes := rest.takeWhile (· = '#')
    let after := rest.drop hashes.length
    if after.head? = some '"' then do
      let (s, rest) ← quoted? (hashes.length + 1) after
      some (.word s, rest)
    else do
      let name := rest.takeWhile isWordChar
      let v ← keyword? (String.ofList name)
      some (.value v, rest.drop name.length)
  | c :: rest =>
    if isSpace c then some (.space, rest)
    else if isNewline c then some (.newline, rest)
    else
      let run := (c :: rest).takeWhile isWordChar
      match bare? run with
      | some (.inl v) => some (.value v, (c :: rest).drop run.length)
      | some (.inr s) => some (.word s, (c :: rest).drop run.length)
      | none => none

/-- Names, texts, numbers and keywords, which nothing may follow that starts another of them. -/
def Token.isAtom : Token → Bool
  | .word _ | .value _ => true
  | _ => false

/-- Whether the lexeme may stand right after an atom. -/
def Token.endsAtom : Token → Bool
  | .slashdash | .openParen | .word _ | .value _ => false
  | _ => true

def tokensWithin : (fuel : Nat) → List Char → Option (List Token)
  | _, [] => some []
  | 0, _ :: _ => none
  | fuel + 1, cs => do
    let (t, rest) ← token? cs
    let ts ← tokensWithin fuel rest
    if t.isAtom ∧ ts.head?.any (fun next => !next.endsAtom) then none else some (t :: ts)

/-- The lexemes of a text, none if it has a part that is none or an atom that nothing ends. -/
def tokens? (cs : List Char) : Option (List Token) := tokensWithin cs.length cs

end Foreman.Kdl
