import Foreman.Text.Blank

/-!
Numerals: decimal numerals of any length, zero-padded ones of a fixed width, and hexadecimal
digits. Reading a written numeral gives the number back.
-/

namespace Foreman.Text

def isDigit (c : Char) : Bool := '0' ≤ c && c ≤ '9'

def digitValue (c : Char) : Nat := c.toNat - 48

def digit (n : Nat) : Char := Char.ofNat (48 + n % 10)

def hexDigit (n : Nat) : Char :=
  if n % 16 < 10 then Char.ofNat (48 + n % 16) else Char.ofNat (87 + n % 16)

/-- The value of a hexadecimal digit in either case. -/
def hexValue? (c : Char) : Option Nat :=
  if '0' ≤ c && c ≤ '9' then some (c.toNat - 48)
  else if 'a' ≤ c && c ≤ 'f' then some (c.toNat - 87)
  else if 'A' ≤ c && c ≤ 'F' then some (c.toNat - 55)
  else none

/-- The decimal numeral of `n`, without leading zeros. -/
def decimal (n : Nat) : List Char :=
  if n < 10 then [digit n] else decimal (n / 10) ++ [digit n]

/-- The last `width` decimal digits of `n`. -/
def padded : (width : Nat) → Nat → List Char
  | 0, _ => []
  | width + 1, n => padded width (n / 10) ++ [digit n]

/-- The last `width` hexadecimal digits of `n`. -/
def hexPadded : (width : Nat) → Nat → List Char
  | 0, _ => []
  | width + 1, n => hexPadded width (n / 16) ++ [hexDigit n]

/-- The number that the digits `cs` stand for, most significant first. -/
def numeralValue (cs : List Char) : Nat :=
  cs.foldl (fun n c => 10 * n + digitValue c) 0

/-- A non-empty text of decimal digits, as a number. -/
def readDecimal? (cs : List Char) : Option Nat :=
  if cs ≠ [] ∧ cs.all isDigit then some (numeralValue cs) else none

/-- A text of hexadecimal digits, as a number. -/
def readHex? (cs : List Char) : Option Nat :=
  cs.foldlM (fun n c => (16 * n + ·) <$> hexValue? c) 0

theorem digitValue_digit (n : Nat) : digitValue (digit n) = n % 10 := by
  have h : n % 10 < 10 := Nat.mod_lt _ (by decide)
  unfold digitValue digit
  generalize n % 10 = m at h
  match m, h with
  | 0, _ | 1, _ | 2, _ | 3, _ | 4, _ | 5, _ | 6, _ | 7, _ | 8, _ | 9, _ => rfl

theorem isDigit_digit (n : Nat) : isDigit (digit n) = true := by
  have h : n % 10 < 10 := Nat.mod_lt _ (by decide)
  unfold isDigit digit
  generalize n % 10 = m at h
  match m, h with
  | 0, _ | 1, _ | 2, _ | 3, _ | 4, _ | 5, _ | 6, _ | 7, _ | 8, _ | 9, _ => rfl

theorem numeralValue_append (cs : List Char) (c : Char) :
    numeralValue (cs ++ [c]) = 10 * numeralValue cs + digitValue c := by
  simp [numeralValue]

theorem numeralValue_decimal (n : Nat) : numeralValue (decimal n) = n := by
  fun_induction decimal n with
  | case1 n h =>
    simp only [numeralValue, List.foldl, digitValue_digit]
    omega
  | case2 n h ih =>
    rw [numeralValue_append, ih, digitValue_digit]
    omega

theorem mod_pow_succ (b w n : Nat) :
    n % Nat.pow b (w + 1) = b * (n / b % Nat.pow b w) + n % b := by
  change n % (Nat.pow b w * b) = _
  rw [Nat.mul_comm, Nat.mod_mul, Nat.add_comm]

theorem numeralValue_padded (width n : Nat) : numeralValue (padded width n) =
    n % Nat.pow 10 width := by
  induction width generalizing n with
  | zero => simp [padded, numeralValue, Nat.mod_one]
  | succ w ih =>
    rw [padded, numeralValue_append, ih, digitValue_digit, mod_pow_succ]

theorem length_padded (width n : Nat) : (padded width n).length = width := by
  induction width generalizing n with
  | zero => rfl
  | succ w ih => simp [padded, ih]

theorem length_hexPadded (width n : Nat) : (hexPadded width n).length = width := by
  induction width generalizing n with
  | zero => rfl
  | succ w ih => simp [hexPadded, ih]

theorem decimal_ne_nil (n : Nat) : decimal n ≠ [] := by
  unfold decimal
  split <;> simp

theorem all_isDigit_decimal (n : Nat) : (decimal n).all isDigit = true := by
  fun_induction decimal n with
  | case1 n h => simp [isDigit_digit]
  | case2 n h ih => simp [ih, isDigit_digit]

theorem all_isDigit_padded (width n : Nat) : (padded width n).all isDigit = true := by
  induction width generalizing n with
  | zero => rfl
  | succ w ih => simp [padded, ih, isDigit_digit]

theorem readDecimal?_decimal (n : Nat) : readDecimal? (decimal n) = some n := by
  simp [readDecimal?, decimal_ne_nil, all_isDigit_decimal, numeralValue_decimal]

theorem hexValue?_hexDigit (n : Nat) : hexValue? (hexDigit n) = some (n % 16) := by
  have h : ∀ m : Fin 16, hexValue? (hexDigit m) = some m.1 := by decide
  have hm := h ⟨n % 16, Nat.mod_lt _ (by decide)⟩
  simpa [hexDigit] using hm

theorem readHex?_hexPadded (width n : Nat) :
    readHex? (hexPadded width n) = some (n % Nat.pow 16 width) := by
  induction width generalizing n with
  | zero => simp [hexPadded, readHex?, Nat.mod_one]
  | succ w ih =>
    have h := ih (n / 16)
    unfold readHex? at h ⊢
    rw [hexPadded, List.foldlM_append, h]
    simp only [Option.bind_eq_bind, Option.bind_some, List.foldlM_cons, List.foldlM_nil,
      hexValue?_hexDigit, Option.map_eq_map, Option.map_some]
    rw [mod_pow_succ]
    rfl

end Foreman.Text
