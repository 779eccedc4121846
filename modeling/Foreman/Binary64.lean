import Foreman.Text.Numeral

/-!
Finite binary64 numbers in exact arithmetic: rounding a ratio to the nearest one, reading a
decimal in two roundings, and writing the fewest digits that read back.
-/

namespace Foreman

/-- The number `± mantissa · 2 ^ exponent`. -/
structure Binary64 where
  negative : Bool
  mantissa : Nat
  exponent : Int
deriving DecidableEq

namespace Binary64

/-- The least exponent, that of the subnormal numbers. -/
def minExponent : Int := -1074

/-- The greatest exponent of a finite number. -/
def maxExponent : Int := 971

/-- Mantissas have at most 53 bits. -/
def mantissaBound : Nat := 1 <<< 53

def zero (negative : Bool) : Binary64 := ⟨negative, 0, minExponent⟩

/-- `num / den` to the nearest integer, a tie to the even one. -/
def divEven (num den : Nat) : Nat :=
  let q := num / den
  let r := num % den
  if 2 * r > den || (2 * r == den && q % 2 == 1) then q + 1 else q

/-- `num / (den · 2 ^ e)` as a fraction of naturals. -/
def scaled (num den : Nat) (e : Int) : Nat × Nat :=
  if 0 ≤ e then (num, den <<< e.toNat) else (num <<< (-e).toNat, den)

/-- The nearest binary64 magnitude to `num / den`, none when it overflows. -/
def ofRatio (num den : Nat) : Option (Nat × Int) :=
  if num = 0 then some (0, minExponent)
  else
    let guess : Int := (num.log2 : Int) - den.log2 - 53
    let fits (e : Int) : Bool := let (n, d) := scaled num den e; n < mantissaBound * d
    let e := max minExponent
      (if fits guess then guess else if fits (guess + 1) then guess + 1 else guess + 2)
    let (n, d) := scaled num den e
    let m := divEven n d
    let (m, e) := if m = mantissaBound then (mantissaBound / 2, e + 1) else (m, e)
    if e ≤ maxExponent then some (m, e) else none

/-- The magnitude as a fraction of naturals. -/
def ratio (x : Nat × Int) : Nat × Nat :=
  if 0 ≤ x.2 then (x.1 <<< x.2.toNat, 1) else (x.1, 1 <<< (-x.2).toNat)

def mulMagnitude (x y : Nat × Int) : Option (Nat × Int) :=
  ofRatio ((ratio x).1 * (ratio y).1) ((ratio x).2 * (ratio y).2)

def divMagnitude (x y : Nat × Int) : Option (Nat × Int) :=
  ofRatio ((ratio x).1 * (ratio y).2) ((ratio x).2 * (ratio y).1)

/-- Powers of ten up to 308 have a nearest magnitude; greater ones give none. -/
def powerOfTen (k : Nat) : Option (Nat × Int) := if k ≤ 308 then ofRatio (Nat.pow 10 k) 1 else none

/-- Divides by `10 ^ k`, in steps of `10 ^ 308`. -/
def divByTen (x : Nat × Int) (k : Nat) : Option (Nat × Int) :=
  if h : k ≤ 308 then do divMagnitude x (← powerOfTen k)
  else if x.1 = 0 then some x
  else do divByTen (← divMagnitude x (← powerOfTen 308)) (k - 308)
termination_by k
decreasing_by omega

/-- The magnitude of `x · 10 ^ k`: `x` is scaled by the nearest magnitude of the power of ten and
the product or quotient is rounded again. None when it overflows. -/
def scaleByTen (x : Nat × Int) (k : Int) : Option (Nat × Int) :=
  if k < 0 then divByTen x (-k).toNat
  else if k ≤ 308 then do mulMagnitude x (← powerOfTen k.toNat)
  else if x.1 = 0 then some x
  else none

/-- Reads `± significand · 10 ^ k`, the significand being rounded before it is scaled. -/
def ofDecimal (negative : Bool) (significand : Nat) (k : Int) : Option Binary64 := do
  let x ← ofRatio significand 1
  let (m, e) ← scaleByTen x k
  pure ⟨negative, m, e⟩

/-- Whether the decimal `d · 10 ^ p` reads back as the magnitude: it lies between the halfway
points to the neighbours, which belong to it when the mantissa is even. -/
def readsBack (m : Nat) (e : Int) (d : Nat) (p : Int) : Bool :=
  let low := if 2 * m = mantissaBound ∧ e > minExponent then 4 * m - 1 else 4 * m - 2
  let high := 4 * m + 2
  let (unit, unitDen) := ratio (1, e - 2)
  let (ten, tenDen) := if 0 ≤ p then (Nat.pow 10 p.toNat, 1) else (1, Nat.pow 10 (-p).toNat)
  let x := d * ten * unitDen
  let l := low * unit * tenDen
  let h := high * unit * tenDen
  if m % 2 = 0 then l ≤ x && x ≤ h else l < x && x < h

/-- Of the two neighbours of the magnitude on the grid of multiples of `10 ^ p`, the one that reads
back, the nearer one if both do. -/
def onGrid (m : Nat) (e : Int) (p : Int) : Option Nat :=
  let (num, den) := ratio (m, e)
  let (n, d) := if 0 ≤ p then (num, den * Nat.pow 10 p.toNat)
    else (num * Nat.pow 10 (-p).toNat, den)
  let below := n / d
  let above := below + 1
  let lowHit := below ≠ 0 && readsBack m e below p
  let highHit := readsBack m e above p
  match lowHit, highHit with
  | true, true => some (divEven n d)
  | true, false => some below
  | false, true => some above
  | false, false => none

/-- The first grid, from `10 ^ p` downward, that has a decimal that reads back. -/
def shortestFrom (m : Nat) (e : Int) : (grids : Nat) → (p : Int) → Nat × Int
  | 0, p => (((ratio (m, e)).1 / (ratio (m, e)).2), p)
  | grids + 1, p =>
    match onGrid m e p with
    | some d => (d, p)
    | none => shortestFrom m e grids (p - 1)

/-- The decimal with the fewest digits that reads back, as digits and a power of ten. -/
def shortest (m : Nat) (e : Int) : Nat × Int :=
  let (num, den) := ratio (m, e)
  let top : Int :=
    if den ≤ num then (Text.decimal (num / den)).length else 1 - (Text.decimal (den / num)).length
  shortestFrom m e 20 top

/-- Zeros at the end of a numeral moved to the power of ten. -/
def stripZeros (d : Nat) (p : Int) : Nat × Int :=
  if h : d ≠ 0 ∧ d % 10 = 0 then stripZeros (d / 10) (p + 1) else (d, p)
termination_by d
decreasing_by omega

/-- Decimals from `10 ^ -5` up to `10 ^ 16` are written by position, with at least one digit after
the point, all others with an exponent. -/
def text (x : Binary64) : List Char :=
  let sign := if x.negative then ['-'] else []
  if x.mantissa = 0 then sign ++ "0.0".toList
  else
    let (d, p) := shortest x.mantissa x.exponent
    let (d, p) := stripZeros d p
    let ds := Text.decimal d
    let point : Int := ds.length + p
    sign ++
      if 0 ≤ p ∧ point ≤ 16 then ds ++ List.replicate p.toNat '0' ++ ".0".toList
      else if 0 < point ∧ point ≤ 16 then ds.take point.toNat ++ '.' :: ds.drop point.toNat
      else if -5 < point ∧ point ≤ 0 then "0.".toList ++ List.replicate (-point).toNat '0' ++ ds
      else
        let power := point - 1
        let powerText := if power < 0 then '-' :: Text.decimal (-power).toNat
          else Text.decimal power.toNat
        match ds with
        | [c] => c :: 'e' :: powerText
        | c :: rest => c :: '.' :: rest ++ 'e' :: powerText
        | [] => []

end Binary64

end Foreman
