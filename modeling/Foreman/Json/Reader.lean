import Foreman.Json.Lexer

/-!
The tree of a JSON text, built from its lexemes with a stack of the arrays and objects that are
open. Where the text stops being JSON the open ones are closed around a cut.
-/

namespace Foreman.Json

/-- An array or object that is open: what stands in it so far, most recent first. -/
inductive Frame where
  | items (done : List Json)
  /-- With the key whose value comes next; none is a key with an unpaired surrogate. -/
  | fields (done : List (String × Json)) (key : Option String)

/-- What may come next. -/
inductive Expectation where
  | value
  /-- A value or the end of the array that was just opened. -/
  | firstItem
  /-- A key or the end of the object that was just opened. -/
  | firstKey
  | key
  | colon
  /-- A comma or the end of the innermost array or object. -/
  | next

def Frame.push (v : Json) : Frame → Frame
  | .items done => .items (v :: done)
  | .fields done (some k) => .fields ((k, v) :: done) (some "")
  | .fields done none => .fields (("", v) :: ("", .flaw .key) :: done) (some "")

def Frame.close : Frame → Json
  | .items done => .array done.reverse
  | .fields done _ => .object done.reverse

/-- The tree when the text is cut inside these frames. -/
def cutInside : List Frame → Json
  | [] => .flaw .cut
  | f :: rest => rest.foldl (fun v f => (f.push v).close) (f.push (.flaw .cut)).close

/-- What a finished value in these frames amounts to: the whole tree, or frames that go on. -/
def deliver (v : Json) : List Frame → Json ⊕ List Frame
  | [] => .inl v
  | f :: rest => .inr (f.push v :: rest)

/-- Builds a tree from lexemes; also gives the lexemes after it. -/
def build : List Frame → Expectation → List Token → Json × List Token
  | frames, _, [] => (cutInside frames, [])
  | frames, expected, t :: ts =>
    let cut := (cutInside frames, [Token.stop])
    let value (v : Json) : Json × List Token :=
      match deliver v frames with
      | .inl v => (v, ts)
      | .inr frames => build frames .next ts
    match expected, t, frames with
    | .value, .scalar v, _ | .firstItem, .scalar v, _ => value v
    | .value, .text s, _ | .firstItem, .text s, _ =>
      value (match s with | some s => .string s | none => .flaw .text)
    | .value, .openBracket, _ | .firstItem, .openBracket, _ =>
      build (.items [] :: frames) .firstItem ts
    | .value, .openBrace, _ | .firstItem, .openBrace, _ =>
      build (.fields [] (some "") :: frames) .firstKey ts
    | .firstItem, .closeBracket, f@(.items _) :: rest | .next, .closeBracket, f@(.items _) :: rest
    | .firstKey, .closeBrace, f@(.fields _ _) :: rest
    | .next, .closeBrace, f@(.fields _ _) :: rest =>
      match deliver f.close rest with
      | .inl v => (v, ts)
      | .inr frames => build frames .next ts
    | .firstKey, .text s, .fields done _ :: rest | .key, .text s, .fields done _ :: rest =>
      build (.fields done s :: rest) .colon ts
    | .colon, .colon, _ => build frames .value ts
    | .next, .comma, .items _ :: _ => build frames .value ts
    | .next, .comma, .fields _ _ :: _ => build frames .key ts
    | _, _, _ => cut

/-- The tree of a text and whether nothing stands after it. -/
def read (cs : List Char) : Json × Bool :=
  let (v, rest) := build [] .value (lex cs)
  (v, rest.isEmpty)

end Foreman.Json
