import Foreman.Json.Lexer
import Foreman.Json.Printer
import Mathlib.Tactic.SplitIfs

/-!
The lexemes of printed trees. A printed text has the lexemes of its tree and no others: escapes give
back the characters that they stand for, and a numeral is over where a comma or the end of an array
or object comes.
-/

namespace Foreman

namespace Text

theorem digit_ne_zero {n : Nat} (h : n < 10) (pos : n ≠ 0) : digit n ≠ '0' := by
  have all : ∀ m : Fin 10, m.1 ≠ 0 → digit m ≠ '0' := by decide
  exact all ⟨n, h⟩ pos

/-- Only the numeral of zero begins with a zero. -/
theorem head?_decimal {n : Nat} (pos : n ≠ 0) : (decimal n).head? ≠ some '0' := by
  fun_induction decimal n with
  | case1 n h => simpa using digit_ne_zero h pos
  | case2 n h ih =>
      have := ih (by omega)
      cases hd : decimal (n / 10) with
      | nil => exact absurd hd (decimal_ne_nil _)
      | cons c cs => simpa [hd] using this

theorem decimal_zero : decimal 0 = ['0'] := by
  rw [decimal]
  rfl

end Text

namespace Json

mutual

/-- Whether the tree is what its text says: it has no flaws, and all numbers in it are whole numbers
that are kept as such. -/
def isPlain : Json → Bool
  | number (.whole i) => decide (-(UInt64.size : Int) ≤ 2 * i ∧ i < UInt64.size)
  | number (.real _) => false
  | flaw _ => false
  | array items => allPlain items
  | object fields => allPlainFields fields
  | _ => true

def allPlain : List Json → Bool
  | [] => true
  | v :: rest => v.isPlain && allPlain rest

def allPlainFields : List (String × Json) → Bool
  | [] => true
  | (_, v) :: rest => v.isPlain && allPlainFields rest

end

mutual

/-- The lexemes of a tree without flaws. -/
def tokens : Json → List Token
  | string s => [.text (some s)]
  | array items => .openBracket :: itemTokens items ++ [.closeBracket]
  | object fields => .openBrace :: fieldTokens fields ++ [.closeBrace]
  | v => [.scalar v]

def itemTokens : List Json → List Token
  | [] => []
  | [v] => v.tokens
  | v :: rest => v.tokens ++ .comma :: itemTokens rest

def fieldTokens : List (String × Json) → List Token
  | [] => []
  | [(k, v)] => .text (some k) :: .colon :: v.tokens
  | (k, v) :: rest => .text (some k) :: .colon :: v.tokens ++ .comma :: fieldTokens rest

end

/-! ### Texts -/

theorem lexFrom_unicode (done : List Char) {n : Nat} (h : n < 0xD800) (rest : List Char) :
    lexFrom (.text done true none .none) ('\\' :: 'u' :: Text.hexPadded 4 n ++ rest) =
      lexFrom (.text (Char.ofNat n :: done) true none .none) rest := by
  have value : 16 * (16 * (16 * (n / 16 / 16 / 16 % 16) + n / 16 / 16 % 16) + n / 16 % 16) +
      n % 16 = n := by omega
  have unit : pushUnit done true none n = .text (Char.ofNat n :: done) true none .none := by
    rw [pushUnit, if_neg (by omega), if_neg (by omega)]
  simp [Text.hexPadded, lexFrom, step, pushText, Text.hexValue?_hexDigit, value, unit]

theorem lexFrom_escapeChar (done : List Char) (c : Char) (rest : List Char) :
    lexFrom (.text done true none .none) (escapeChar c ++ rest) =
      lexFrom (.text (c :: done) true none .none) rest := by
  have short {x y : Char} (hx : escaped? x = some y) (hu : x ≠ 'u') :
      lexFrom (.text done true none .none) ('\\' :: x :: rest) =
        lexFrom (.text (y :: done) true none .none) rest := by
    simp [lexFrom, step, pushText, hx, hu]
  have here {n : Nat} (h : c.toNat = n) : c = Char.ofNat n := by rw [← h, Char.ofNat_toNat]
  unfold escapeChar
  dsimp only
  split_ifs with hquote hback h8 h9 h10 h12 h13 hcontrol
  · subst hquote
    exact short rfl (by decide)
  · subst hback
    exact short rfl (by decide)
  · exact here h8 ▸ short rfl (by decide)
  · exact here h9 ▸ short rfl (by decide)
  · exact here h10 ▸ short rfl (by decide)
  · exact here h12 ▸ short rfl (by decide)
  · exact here h13 ▸ short rfl (by decide)
  · rw [lexFrom_unicode done (by omega), Char.ofNat_toNat]
  · simp [lexFrom, step, pushText, hquote, hback, hcontrol]

theorem lexFrom_text (done cs rest : List Char) :
    lexFrom (.text done true none .none) (cs.flatMap escapeChar ++ '"' :: rest) =
      .text (some (String.ofList (done.reverse ++ cs))) :: lexFrom .between rest := by
  induction cs generalizing done with
  | nil => simp [lexFrom, step, pushText]
  | cons c cs ih =>
      rw [List.flatMap_cons, List.append_assoc, lexFrom_escapeChar, ih]
      simp

theorem lexFrom_quote (s : String) (rest : List Char) :
    lexFrom .between (quote s ++ rest) = .text (some s) :: lexFrom .between rest := by
  have first : lexFrom .between (quote s ++ rest) =
      lexFrom (.text [] true none .none) (s.toList.flatMap escapeChar ++ '"' :: rest) := by
    simp [quote, lexFrom, step, start]
  rw [first, lexFrom_text]
  simp

/-! ### Numerals -/

/-- A numeral is over here: the text ends, or with it an item, a field, an array or an object. -/
def Breaks (rest : List Char) : Prop :=
  ∀ c ∈ rest.head?, c = ',' ∨ c = ']' ∨ c = '\x7d'

theorem breaks_nil : Breaks [] := by simp [Breaks]

theorem breaks_comma (rest : List Char) : Breaks (',' :: rest) := by simp [Breaks]

theorem breaks_bracket (rest : List Char) : Breaks (']' :: rest) := by simp [Breaks]

theorem breaks_brace (rest : List Char) : Breaks ('\x7d' :: rest) := by simp [Breaks]

theorem lexFrom_break {n : Numeral} {phase : NumeralPhase} (h : phase = .zero ∨ phase = .whole)
    {rest : List Char} (hb : Breaks rest) :
    lexFrom (.numeral n phase) rest = n.token :: lexFrom .between rest := by
  cases rest with
  | nil => rcases h with rfl | rfl <;> rfl
  | cons c rest =>
      have outside : n.push? phase c = none ∧ Text.isDigit c = false := by
        rcases hb c rfl with rfl | rfl | rfl <;> rcases h with rfl | rfl <;>
          exact ⟨rfl, by decide⟩
      have complete : phase.isComplete = true := by rcases h with rfl | rfl <;> rfl
      simp [lexFrom, step, outside, complete]

theorem lexFrom_digits (negative : Bool) (whole ds rest : List Char)
    (digits : ds.all Text.isDigit = true) :
    lexFrom (.numeral ⟨negative, whole, [], none⟩ .whole) (ds ++ rest) =
      lexFrom (.numeral ⟨negative, ds.reverse ++ whole, [], none⟩ .whole) rest := by
  induction ds generalizing whole with
  | nil => rfl
  | cons d ds ih =>
      obtain ⟨hd, digits⟩ : Text.isDigit d = true ∧ ds.all Text.isDigit = true := by
        simpa using digits
      have first : lexFrom (.numeral ⟨negative, whole, [], none⟩ .whole) (d :: ds ++ rest) =
          lexFrom (.numeral ⟨negative, d :: whole, [], none⟩ .whole) (ds ++ rest) := by
        simp [lexFrom, step, Numeral.push?, hd]
      rw [first, ih _ digits]
      simp

theorem start_digit {d : Char} (digit : Text.isDigit d = true) (nonzero : d ≠ '0') :
    start d = ([], .numeral ⟨false, [d], [], none⟩ .whole) := by
  have ne (c : Char) (h : Text.isDigit c = false) : d ≠ c := by
    rintro rfl
    simp [digit] at h
  simp [start, digit, nonzero, ne ' ' rfl, ne '\n' rfl, ne '\t' rfl, ne '\r' rfl, ne '\x7b' rfl,
    ne '\x7d' rfl, ne '[' rfl, ne ']' rfl, ne ':' rfl, ne ',' rfl, ne '"' rfl, ne 'n' rfl,
    ne 't' rfl, ne 'f' rfl, ne '-' rfl]

/-- The mode in which a numeral begins, after its sign. -/
def signed : Bool → Mode
  | true => .numeral ⟨true, [], [], none⟩ .sign
  | false => .between

theorem lexFrom_decimal (negative : Bool) (n : Nat) {rest : List Char} (hb : Breaks rest) :
    lexFrom (signed negative) (Text.decimal n ++ rest) =
      Numeral.token ⟨negative, (Text.decimal n).reverse, [], none⟩ :: lexFrom .between rest := by
  by_cases zero : n = 0
  · subst zero
    have first : lexFrom (signed negative) ('0' :: rest) =
        lexFrom (.numeral ⟨negative, ['0'], [], none⟩ .zero) rest := by
      cases negative <;> rfl
    rw [Text.decimal_zero]
    exact first.trans (lexFrom_break (.inl rfl) hb)
  · have digits := Text.all_isDigit_decimal n
    have nonzero := Text.head?_decimal zero
    cases hd : Text.decimal n with
    | nil => exact absurd hd (Text.decimal_ne_nil n)
    | cons d ds =>
        rw [hd] at digits nonzero
        obtain ⟨hdigit, digits⟩ : Text.isDigit d = true ∧ ds.all Text.isDigit = true := by
          simpa using digits
        have hzero : d ≠ '0' := by simpa using nonzero
        have first : lexFrom (signed negative) (d :: ds ++ rest) =
            lexFrom (.numeral ⟨negative, [d], [], none⟩ .whole) (ds ++ rest) := by
          cases negative with
          | true => simp [signed, lexFrom, step, Numeral.push?, hdigit, hzero]
          | false => simp [signed, lexFrom, step, start_digit hdigit hzero]
        rw [first, lexFrom_digits _ _ _ _ digits, lexFrom_break (.inr rfl) hb]
        simp

/-- Digits below the bound are all taken in. -/
theorem absorb_eq (s : Nat) (ds : List Char)
    (small : ds.foldl (fun n c => 10 * n + Text.digitValue c) s < UInt64.size) :
    absorb s ds = (ds.foldl (fun n c => 10 * n + Text.digitValue c) s, 0) := by
  have grows (s : Nat) (ds : List Char) :
      s ≤ ds.foldl (fun n c => 10 * n + Text.digitValue c) s := by
    induction ds generalizing s with
    | nil => exact Nat.le_refl s
    | cons d ds ih => exact Nat.le_trans (show s ≤ 10 * s + Text.digitValue d by omega) (ih _)
  induction ds generalizing s with
  | nil => rfl
  | cons d ds ih =>
      have here : 10 * s + Text.digitValue d < UInt64.size := Nat.lt_of_le_of_lt (grows _ ds) small
      rw [absorb, if_pos here]
      exact ih _ small

theorem token_decimal (negative : Bool) {n : Nat} (small : n < UInt64.size)
    (low : negative → 0 < n ∧ 2 * n ≤ UInt64.size) :
    Numeral.token ⟨negative, (Text.decimal n).reverse, [], none⟩ =
      .scalar (.number (.whole (if negative then -(n : Int) else n))) := by
  have value : (Text.decimal n).foldl (fun n c => 10 * n + Text.digitValue c) 0 = n :=
    Text.numeralValue_decimal n
  have absorbed : absorb 0 (Text.decimal n) = (n, 0) := by
    rw [absorb_eq 0 _ (by rwa [value]), value]
  simp only [Numeral.token, Numeral.value?, List.reverse_reverse, absorbed]
  rw [if_pos ⟨trivial, trivial, trivial, low⟩]

theorem lexFrom_whole {i : Int} (h : (number (.whole i)).isPlain = true) {rest : List Char}
    (hb : Breaks rest) :
    lexFrom .between (Number.text (.whole i) ++ rest) =
      .scalar (.number (.whole i)) :: lexFrom .between rest := by
  have bounds : -(UInt64.size : Int) ≤ 2 * i ∧ i < UInt64.size := by simpa [isPlain] using h
  by_cases negative : i < 0
  · have sign : lexFrom .between ('-' :: (Text.decimal (-i).toNat ++ rest)) =
        lexFrom (signed true) (Text.decimal (-i).toNat ++ rest) := by
      simp [lexFrom, step, start, signed]
    have low : true → 0 < (-i).toNat ∧ 2 * (-i).toNat ≤ UInt64.size := fun _ => by omega
    rw [Number.text, if_pos negative, List.cons_append, sign, lexFrom_decimal true _ hb,
      token_decimal true (by omega) low]
    simp [Int.toNat_of_nonneg (show 0 ≤ -i by omega)]
  · rw [Number.text, if_neg negative]
    have sign : signed false = .between := rfl
    rw [← sign, lexFrom_decimal false _ hb, token_decimal false (by omega) (by simp)]
    simp [signed, Int.toNat_of_nonneg (show 0 ≤ i by omega)]

/-! ### Trees -/

mutual

theorem lexFrom_chars (v : Json) (h : v.isPlain = true) (rest : List Char) (hb : Breaks rest) :
    lexFrom .between (v.chars ++ rest) = v.tokens ++ lexFrom .between rest := by
  match v with
  | null | bool true | bool false => simp [chars, tokens, lexFrom, step, start]
  | number (.whole i) => exact lexFrom_whole h hb
  | number (.real x) => simp [isPlain] at h
  | string s => exact lexFrom_quote s rest
  | array items =>
      have inner := lexFrom_itemChars items h (']' :: rest) (breaks_bracket rest)
      simpa [chars, tokens, lexFrom, step, start] using inner
  | object fields =>
      have inner := lexFrom_fieldChars fields h ('\x7d' :: rest) (breaks_brace rest)
      simpa [chars, tokens, lexFrom, step, start] using inner
  | flaw f => simp [isPlain] at h

theorem lexFrom_itemChars (items : List Json) (h : allPlain items = true) (rest : List Char)
    (hb : Breaks rest) :
    lexFrom .between (itemChars items ++ rest) = itemTokens items ++ lexFrom .between rest := by
  match items with
  | [] => rfl
  | [v] =>
      have hv : v.isPlain = true := by simpa [allPlain] using h
      exact lexFrom_chars v hv rest hb
  | v :: w :: items =>
      obtain ⟨hv, hrest⟩ := Bool.and_eq_true_iff.mp h
      have first := lexFrom_chars v hv (',' :: (itemChars (w :: items) ++ rest)) (breaks_comma _)
      have others := lexFrom_itemChars (w :: items) hrest rest hb
      simp only [itemChars, itemTokens, List.append_assoc, List.cons_append] at others ⊢
      rw [first]
      simp [lexFrom, step, start, others]

theorem lexFrom_fieldChars (fields : List (String × Json)) (h : allPlainFields fields = true)
    (rest : List Char) (hb : Breaks rest) :
    lexFrom .between (fieldChars fields ++ rest) = fieldTokens fields ++ lexFrom .between rest := by
  match fields with
  | [] => rfl
  | [(k, v)] =>
      have hv : v.isPlain = true := by simpa [allPlainFields] using h
      have value := lexFrom_chars v hv rest hb
      simp only [fieldChars, fieldTokens, List.append_assoc, List.cons_append, lexFrom_quote]
      simp [lexFrom, step, start, value]
  | (k, v) :: f :: fields =>
      obtain ⟨hv, hrest⟩ := Bool.and_eq_true_iff.mp h
      have value := lexFrom_chars v hv (',' :: (fieldChars (f :: fields) ++ rest)) (breaks_comma _)
      have others := lexFrom_fieldChars (f :: fields) hrest rest hb
      have colon (cs : List Char) : lexFrom .between (':' :: cs) = .colon :: lexFrom .between cs :=
        rfl
      simp only [fieldChars, fieldTokens, List.append_assoc, List.cons_append, lexFrom_quote, colon]
      rw [value]
      simp [lexFrom, step, start, others]

end

end Json

end Foreman
