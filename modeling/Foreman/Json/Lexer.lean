import Foreman.Json.Basic

/-!
The lexemes of JSON. The lexer is a machine that takes one character at a time: `step` says what a
character adds to the lexemes and in which mode it leaves the machine, `finish` what the end adds.
-/

namespace Foreman.Json

inductive Token where
  | openBrace
  | closeBrace
  | openBracket
  | closeBracket
  | colon
  | comma
  /-- A text, none if it holds an unpaired surrogate. -/
  | text (s : Option String)
  | scalar (v : Json)
  /-- The text stops being JSON here. -/
  | stop

/-- The parts of a numeral, digits most recent first. -/
structure Numeral where
  negative : Bool
  whole : List Char
  fraction : List Char
  /-- Sign and digits of the exponent. -/
  power : Option (Bool × List Char)

/-- Where in a numeral the machine stands. -/
inductive NumeralPhase where
  | sign
  | zero
  | whole
  | point
  | fraction
  | power
  | powerSign
  | powerDigits

/-- What the machine has seen of an escape in a text. -/
inductive Escape where
  | none
  | backslash
  | unicode (digits value : Nat)

inductive Mode where
  | between
  /-- Inside a word: the letters to come and what the word stands for. -/
  | word (rest : List Char) (value : Json)
  | numeral (n : Numeral) (phase : NumeralPhase)
  /-- Inside a text: the characters so far, most recent first, whether all surrogates were paired
  and the first half of a pair whose second half must follow. -/
  | text (done : List Char) (paired : Bool) (high : Option Nat) (escape : Escape)
  | stopped

/-- Digits taken into a significand below `2 ^ 64`, and how many were left over. -/
def absorb : (significand : Nat) → List Char → Nat × Nat
  | s, [] => (s, 0)
  | s, c :: rest =>
    if 10 * s + Text.digitValue c < UInt64.size then absorb (10 * s + Text.digitValue c) rest
    else (s, rest.length + 1)

/-- The number a numeral stands for, none if it is too great. Digits that no longer fit into the
significand of a fraction are dropped. -/
def Numeral.value? (n : Numeral) : Option Number :=
  let (s, left) := absorb 0 n.whole.reverse
  if n.fraction = [] ∧ n.power = none ∧ left = 0 ∧ (n.negative → 0 < s ∧ 2 * s ≤ UInt64.size) then
    some (.whole (if n.negative then -(s : Int) else s))
  else
    let (s, dropped) := absorb s n.fraction.reverse
    let scale : Int := (left : Int) - (n.fraction.length - dropped)
    let power : Int := match n.power with
      | none => 0
      | some (true, ds) => -(Text.numeralValue ds.reverse : Int)
      | some (false, ds) => Text.numeralValue ds.reverse
    (Binary64.ofDecimal n.negative s (scale + power)).map .real

def Numeral.token (n : Numeral) : Token :=
  match n.value? with
  | some x => .scalar (.number x)
  | none => .scalar (.flaw .magnitude)

/-- What a character does between lexemes. -/
def start (c : Char) : List Token × Mode :=
  if c = ' ' ∨ c = '\n' ∨ c = '\t' ∨ c = '\r' then ([], .between)
  else if c = '\x7b' then ([.openBrace], .between)
  else if c = '\x7d' then ([.closeBrace], .between)
  else if c = '[' then ([.openBracket], .between)
  else if c = ']' then ([.closeBracket], .between)
  else if c = ':' then ([.colon], .between)
  else if c = ',' then ([.comma], .between)
  else if c = '"' then ([], .text [] true none .none)
  else if c = 'n' then ([], .word "ull".toList .null)
  else if c = 't' then ([], .word "rue".toList (.bool true))
  else if c = 'f' then ([], .word "alse".toList (.bool false))
  else if c = '-' then ([], .numeral ⟨true, [], [], none⟩ .sign)
  else if c = '0' then ([], .numeral ⟨false, ['0'], [], none⟩ .zero)
  else if Text.isDigit c then ([], .numeral ⟨false, [c], [], none⟩ .whole)
  else ([.stop], .stopped)

/-- Whether a numeral may end in this phase. -/
def NumeralPhase.isComplete : NumeralPhase → Bool
  | .zero | .whole | .fraction | .powerDigits => true
  | _ => false

/-- The numeral and its phase after one more character, none if the character is not part of it. -/
def Numeral.push? (n : Numeral) (phase : NumeralPhase) (c : Char) :
    Option (Numeral × NumeralPhase) :=
  let power (p : NumeralPhase) := some ({ n with power := some (c = '-', []) }, p)
  let point := some (n, NumeralPhase.point)
  match phase with
  | .sign =>
    if c = '0' then some ({ n with whole := [c] }, .zero)
    else if Text.isDigit c then some ({ n with whole := [c] }, .whole)
    else none
  | .zero => if c = '.' then point else if c = 'e' ∨ c = 'E' then power .power else none
  | .whole =>
    if Text.isDigit c then some ({ n with whole := c :: n.whole }, .whole)
    else if c = '.' then point
    else if c = 'e' ∨ c = 'E' then power .power
    else none
  | .point | .fraction =>
    if Text.isDigit c then some ({ n with fraction := c :: n.fraction }, .fraction)
    else if phase matches .fraction ∧ (c = 'e' ∨ c = 'E') then power .power
    else none
  | .power | .powerSign | .powerDigits =>
    if Text.isDigit c then
      let (negative, ds) := n.power.getD (false, [])
      some ({ n with power := some (negative, c :: ds) }, .powerDigits)
    else if phase matches .power ∧ (c = '+' ∨ c = '-') then power .powerSign
    else none

/-- The character that a one-letter escape stands for. -/
def escaped? (c : Char) : Option Char :=
  if c = '"' ∨ c = '\\' ∨ c = '/' then some c
  else if c = 'b' then some (Char.ofNat 8)
  else if c = 'f' then some (Char.ofNat 12)
  else if c = 'n' then some '\n'
  else if c = 'r' then some '\r'
  else if c = 't' then some '\t'
  else none

/-- The mode after a complete `\u` escape of the unit `u`. -/
def pushUnit (done : List Char) (paired : Bool) (high : Option Nat) (u : Nat) : Mode :=
  match high with
  | some h =>
    if 0xDC00 ≤ u ∧ u ≤ 0xDFFF then
      .text (Char.ofNat (0x10000 + (h - 0xD800) * 0x400 + (u - 0xDC00)) :: done) paired none .none
    else .text done false none .none
  | none =>
    if 0xD800 ≤ u ∧ u ≤ 0xDBFF then .text done paired (some u) .none
    else if 0xDC00 ≤ u ∧ u ≤ 0xDFFF then .text done false none .none
    else .text (Char.ofNat u :: done) paired none .none

/-- What a character does inside a text. -/
def pushText (done : List Char) (paired : Bool) (high : Option Nat) (escape : Escape) (c : Char) :
    List Token × Mode :=
  match escape with
  | .none =>
    if c = '\\' then ([], .text done paired high .backslash)
    else
      let paired := paired && high.isNone
      if c = '"' then
        ([.text (if paired then some (String.ofList done.reverse) else none)], .between)
      else if c.toNat < 0x20 then ([.stop], .stopped)
      else ([], .text (c :: done) paired none .none)
  | .backslash =>
    if c = 'u' then ([], .text done paired high (.unicode 0 0))
    else
      match escaped? c with
      | some x => ([], .text (x :: done) (paired && high.isNone) none .none)
      | none => ([.stop], .stopped)
  | .unicode digits value =>
    match Text.hexValue? c with
    | none => ([.stop], .stopped)
    | some d =>
      if digits = 3 then ([], pushUnit done paired high (16 * value + d))
      else ([], .text done paired high (.unicode (digits + 1) (16 * value + d)))

def step : Mode → Char → List Token × Mode
  | .between, c => start c
  | .word (x :: rest) v, c =>
    if c = x then
      if rest = [] then ([.scalar v], .between) else ([], .word rest v)
    else ([.stop], .stopped)
  | .word [] _, _ => ([.stop], .stopped)
  | .numeral n phase, c =>
    match n.push? phase c with
    | some (n, phase) => ([], .numeral n phase)
    | none =>
      if phase.isComplete ∧ ¬ (phase matches .zero ∧ Text.isDigit c) then
        let (tokens, mode) := start c
        (n.token :: tokens, mode)
      else ([.stop], .stopped)
  | .text done paired high escape, c => pushText done paired high escape c
  | .stopped, _ => ([], .stopped)

def finish : Mode → List Token
  | .between => []
  | .numeral n phase => if phase.isComplete then [n.token] else [.stop]
  | .stopped => []
  | _ => [.stop]

/-- The lexemes of a text read in mode `m`. -/
def lexFrom : Mode → List Char → List Token
  | m, [] => finish m
  | m, c :: cs => (step m c).1 ++ lexFrom (step m c).2 cs

def lex (cs : List Char) : List Token := lexFrom .between cs

end Foreman.Json
