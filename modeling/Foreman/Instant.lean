import Foreman.Calendar
import Foreman.Text.Numeral

/-!
Points in time in UTC, to the nanosecond, with their text forms. A leap second counts as the
second 1 000 000 000 nanoseconds of the last second of its minute.
-/

namespace Foreman

/-- Whether the numbers name a moment of a day. -/
def IsMoment (second nano : Nat) : Prop :=
  second < 86400 ∧ (nano < 1000000000 ∨ (second % 60 = 59 ∧ nano < 2000000000))

instance (second nano : Nat) : Decidable (IsMoment second nano) :=
  inferInstanceAs (Decidable (_ ∧ (_ ∨ (_ ∧ _))))

structure Instant where
  date : Date
  /-- Second of the day. -/
  second : Nat
  nano : Nat
  isMoment : IsMoment second nano
deriving DecidableEq

namespace Instant

/-- Whether `a` is not after `b`. -/
def le (a b : Instant) : Bool :=
  let before (x y : Int) (tie : Bool) : Bool := x < y || (x == y && tie)
  before a.date.year b.date.year <| before a.date.month b.date.month <|
    before a.date.day b.date.day <| before a.second b.second <| a.nano ≤ b.nano

/-- Four digits up to year 9999; other years with a sign and at least four digits. -/
def yearText (year : Int) : List Char :=
  if 0 ≤ year ∧ year ≤ 9999 then Text.padded 4 year.toNat
  else
    let ds := Text.decimal year.natAbs
    (if year < 0 then '-' else '+') :: (List.replicate (4 - ds.length) '0' ++ ds)

/-- As many of 0, 3, 6 or 9 digits as are needed. -/
def fractionText (nano : Nat) : List Char :=
  if nano = 0 then []
  else if nano % 1000000 = 0 then '.' :: Text.padded 3 (nano / 1000000)
  else if nano % 1000 = 0 then '.' :: Text.padded 6 (nano / 1000)
  else '.' :: Text.padded 9 nano

def chars (t : Instant) : List Char :=
  let extra := t.nano / 1000000000
  yearText t.date.year ++ '-' :: Text.padded 2 t.date.month ++ '-' :: Text.padded 2 t.date.day ++
    'T' :: Text.padded 2 (t.second / 3600) ++ ':' :: Text.padded 2 (t.second / 60 % 60) ++
    ':' :: Text.padded 2 (t.second % 60 + extra) ++ fractionText (t.nano % 1000000000) ++ ['Z']

def text (t : Instant) : String := String.ofList t.chars

/-- A reader takes a part of a text and leaves the rest. -/
abbrev Part (α : Type) := List Char → Option (α × List Char)

/-- At least one and at most `width` digits. -/
def number (width : Nat) : Part Nat := fun cs =>
  let ds := (cs.take width).takeWhile Text.isDigit
  if ds = [] then none else some (Text.numeralValue ds, cs.drop ds.length)

/-- Blanks, then a number of at most two digits. -/
def field : Part Nat := fun cs => number 2 (Text.trimLeft cs)

/-- Blanks, then four digits at most, or a sign and any number of digits. -/
def yearField : Part Int := fun cs =>
  match Text.trimLeft cs with
  | '+' :: cs => do
    let (n, cs) ← number cs.length cs
    some (n, cs)
  | '-' :: cs => do
    let (n, cs) ← number cs.length cs
    some (-n, cs)
  | cs => do
    let (n, cs) ← number 4 cs
    some (n, cs)

/-- Blanks, then the character `c`. -/
def separator (c : Char) : Part Unit := fun cs =>
  match Text.trimLeft cs with
  | c' :: cs => if c' = c then some ((), cs) else none
  | [] => none

/-- A point and digits, of which the first nine count; nothing counts as zero. -/
def fraction : Part Nat
  | '.' :: cs =>
    let ds := cs.takeWhile Text.isDigit
    if ds = [] then none
    else some (Text.numeralValue ((ds.take 9).rightpad 9 '0'), cs.drop ds.length)
  | cs => some (0, cs)

/-- Two digits, the first at most `most`. -/
def twoDigits (most : Nat) : Part Nat
  | a :: b :: cs =>
    if Text.isDigit a ∧ Text.isDigit b ∧ Text.digitValue a ≤ most then
      some (10 * Text.digitValue a + Text.digitValue b, cs)
    else none
  | _ => none

/-- The offset from UTC in seconds: `Z`, `UTC`, or hours and minutes with a sign. -/
def offset : Part Int := fun cs =>
  match cs with
  | c :: rest =>
    if (String.ofList (cs.take 3)).toUpper = "UTC" then some (0, cs.drop 3)
    else if c = 'Z' ∨ c = 'z' then some (0, rest)
    else do
      let negative ←
        if c = '+' then some false else if c = '-' ∨ c.toNat = 0x2212 then some true else none
      let (hours, rest) ← twoDigits 9 rest
      let (minutes, rest) ← twoDigits 5 (rest.dropWhile fun c => c = ':' ∨ Text.isBlank c)
      let seconds : Int := hours * 3600 + minutes * 60
      some (if negative then -seconds else seconds, rest)
  | [] => none

/-- The instant that a clock with the given offset from UTC shows so. -/
def ofLocal? (date : Date) (hour minute second nano : Nat) (offset : Int) : Option Instant := do
  let (second, nano) := if second = 60 then (59, nano + 1000000000) else (second, nano)
  if 24 ≤ hour ∨ 60 ≤ minute ∨ 60 ≤ second ∨ 86400 ≤ offset.natAbs then none
  else
    let total : Int := (hour * 3600 + minute * 60 + second : Nat) - offset
    let date ← if total < 0 then date.previous? else if 86400 ≤ total then date.next? else some date
    let second := (total % 86400).toNat
    if h : IsMoment second nano then some ⟨date, second, nano, h⟩ else none

/-- Year, month and day, a `T` or a blank, the time of day, and the offset from UTC; blanks may
stand before each number, each sign between numbers and the offset, and at the end. -/
def ofChars? (cs : List Char) : Option Instant := do
  let (year, cs) ← yearField cs
  let ((), cs) ← separator '-' cs
  let (month, cs) ← field cs
  let ((), cs) ← separator '-' cs
  let (day, cs) ← field cs
  let cs ← match cs with
    | c :: cs => if c = 'T' ∨ c = 't' ∨ c = ' ' then some cs else none
    | [] => none
  let (hour, cs) ← field cs
  let ((), cs) ← separator ':' cs
  let (minute, cs) ← field cs
  let ((), cs) ← separator ':' cs
  let (second, cs) ← field cs
  let (nano, cs) ← fraction cs
  let (offset, cs) ← offset (Text.trimLeft cs)
  if Text.trimLeft cs ≠ [] then none
  else
    let date ← Date.of? year month day
    ofLocal? date hour minute second nano offset

def ofText? (s : String) : Option Instant := ofChars? s.toList

end Instant

end Foreman
