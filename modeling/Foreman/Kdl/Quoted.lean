import Foreman.Kdl.Text

/-!
Quoted texts of KDL: escapes, raw texts, and the indentation that texts of several lines lose.
-/

namespace Foreman.Kdl

/-- A character of a quoted text. -/
structure Letter where
  char : Char
  /-- An escape wrote it, so that it never ends a line or indents one. -/
  escaped : Bool
deriving DecidableEq

namespace Letter

def plain (c : Char) : Letter := ⟨c, false⟩

def endsLine (l : Letter) : Bool := !l.escaped && isNewline l.char

def indents (l : Letter) : Bool := !l.escaped && isSpace l.char

def isForbidden (l : Letter) : Bool := !l.escaped && Kdl.isForbidden l.char

end Letter

/-- What has been seen of an escape. -/
inductive Escape where
  | none
  | backslash
  /-- After a backslash and a blank: no blank counts. -/
  | blanks
  /-- After `\u`, before its opening brace. -/
  | code
  | digits (count value : Nat)

def escaped? (c : Char) : Option Char :=
  match c with
  | '"' | '\\' => some c
  | 'b' => some (Char.ofNat 8)
  | 'f' => some (Char.ofNat 12)
  | 'n' => some '\n'
  | 'r' => some '\r'
  | 't' => some '\t'
  | 's' => some ' '
  | _ => none

/-- The letters before `close` and the text after it. A backslash starts an escape: of one
character, of a code, or of the blanks and line ends after it, which are dropped. -/
def letters? (close : List Char) : Escape → List Char → Option (List Letter × List Char)
  | _, [] => none
  | .backslash, c :: rest =>
    if Text.isBlank c then letters? close .blanks rest
    else if c = 'u' then letters? close .code rest
    else do
      let x ← escaped? c
      let (ls, after) ← letters? close .none rest
      some (⟨x, true⟩ :: ls, after)
  | .code, c :: rest => if c = '\x7b' then letters? close (.digits 0 0) rest else none
  | .digits count value, c :: rest =>
    if c = '\x7d' then
      if 0 < count ∧ value.isValidChar then do
        let (ls, after) ← letters? close .none rest
        some (⟨Char.ofNat value, true⟩ :: ls, after)
      else none
    else do
      let d ← Text.hexValue? c
      if count < 6 then letters? close (.digits (count + 1) (16 * value + d)) rest else none
  | escape, c :: rest =>
    if escape matches .blanks ∧ Text.isBlank c then letters? close .blanks rest
    else if close.isPrefixOf (c :: rest) then some ([], (c :: rest).drop close.length)
    else if c = '\\' then letters? close .backslash rest
    else do
      let (ls, after) ← letters? close .none rest
      some (.plain c :: ls, after)

/-- The letters before `close` and the text after it, where a backslash is a letter like others. -/
def rawLetters? (close : List Char) : List Char → Option (List Letter × List Char)
  | [] => none
  | c :: rest =>
    if close.isPrefixOf (c :: rest) then some ([], (c :: rest).drop close.length)
    else do
      let (ls, after) ← rawLetters? close rest
      some (.plain c :: ls, after)

/-- The lines of a text. A carriage return and a line feed count as one line end. -/
def lines : List Letter → List (List Letter)
  | [] => [[]]
  | a :: rest =>
    if a = .plain '\r' ∧ rest.head? = some (.plain '\n') then lines rest
    else if a.endsLine then [] :: lines rest
    else
      match lines rest with
      | l :: ls => (a :: l) :: ls
      | [] => [[a]]

/-- The text between triple quotes: it starts with a line end, and every other line that is not
empty starts with the blanks of the last line, which it loses. -/
def dedent? (ls : List Letter) : Option (List Letter) :=
  match lines ls with
  | [] :: rest =>
    match rest.getLast? with
    | none => none
    | some indent =>
      if indent.all Letter.indents then do
        let kept ← rest.dropLast.mapM fun l =>
          if l.isEmpty then some []
          else if l.take indent.length = indent then some (l.drop indent.length)
          else none
        some (List.intercalate [.plain '\n'] kept)
      else none
  | _ => none

/-- A quoted text after `hashes` number signs, from its first quote on, and the rest. Without number
signs three quotes always open a text of several lines, with them only at the end of a line, and
then every character may stand in it. A raw text of one quote alone is refused, since it looks like
three quotes. -/
def quoted? (hashes : Nat) (cs : List Char) : Option (String × List Char) := do
  let raw := 0 < hashes
  let read? (quotes : List Char) :=
    let close := quotes ++ List.replicate hashes '#'
    let body := cs.drop quotes.length
    if raw then rawLetters? close body else letters? close .none body
  let three := ['"', '"', '"']
  let several := three.isPrefixOf cs ∧ (raw → (cs.drop 3).head?.any isNewline)
  let (body, rest) ← read? (if several then three else ['"'])
  let ls ← if several then dedent? body else if body.any Letter.endsLine then none else some body
  if (several → ¬ raw) ∧ body.any Letter.isForbidden then none
  else if raw ∧ ls = [.plain '"'] then none
  else some (String.ofList (ls.map Letter.char), rest)

end Foreman.Kdl
