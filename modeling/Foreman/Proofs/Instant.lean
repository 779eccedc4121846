import Foreman.Instant
import Mathlib.Algebra.Group.Nat.Defs
import Mathlib.Data.List.TakeWhile
import Mathlib.Tactic.SplitIfs

/-!
The text of an instant. It is read back as the same instant, in whatever year it lies, and also
within a leap second.
-/

namespace Foreman

namespace Text

theorem isBlank_of_isDigit {c : Char} (h : isDigit c = true) : isBlank c = false := by
  have range : 48 ≤ c.toNat ∧ c.toNat ≤ 57 := by
    simpa [isDigit, Char.le_def, UInt32.le_iff_toNat_le] using h
  simp [isBlank]
  omega

theorem trimLeft_cons {c : Char} (h : isBlank c = false) (cs : List Char) :
    trimLeft (c :: cs) = c :: cs := by
  simp [trimLeft, h]

theorem numeralValue_replicate_append (n : Nat) (cs : List Char) :
    numeralValue (List.replicate n '0' ++ cs) = numeralValue cs := by
  have zeros : numeralValue (List.replicate n '0') = 0 := by
    induction n with
    | zero => rfl
    | succ n ih => rw [List.replicate_succ', numeralValue_append, ih]; rfl
  have hz : (List.replicate n '0').foldl (fun n c => 10 * n + digitValue c) 0 = 0 := zeros
  rw [numeralValue, List.foldl_append, hz, numeralValue]

theorem numeralValue_append_replicate (cs : List Char) (n : Nat) :
    numeralValue (cs ++ List.replicate n '0') = numeralValue cs * 10 ^ n := by
  induction n with
  | zero => simp
  | succ n ih =>
      rw [List.replicate_succ', ← List.append_assoc, numeralValue_append, ih, Nat.pow_succ]
      have zero : digitValue '0' = 0 := rfl
      rw [zero, Nat.add_zero, Nat.mul_left_comm, Nat.mul_comm 10]

theorem padded_ne_nil {width : Nat} (h : 0 < width) (n : Nat) : padded width n ≠ [] := by
  have := length_padded width n
  rintro he
  simp [he] at this
  omega

end Text

theorem Calendar.daysInMonth_le (year : Int) (month : Nat) : daysInMonth year month ≤ 31 := by
  unfold daysInMonth
  split_ifs <;> decide

namespace Instant

open Text

/-- Digits end here. -/
def Stops (rest : List Char) : Prop := ∀ c ∈ rest.head?, isDigit c = false

theorem takeWhile_digits {ds rest : List Char} (digits : ds.all isDigit = true)
    (stops : Stops rest) : (ds ++ rest).takeWhile isDigit = ds := by
  rw [List.takeWhile_append_of_pos (List.all_eq_true.mp digits)]
  cases rest with
  | nil => simp
  | cons c rest => simp [stops c rfl]

theorem number_append {width : Nat} {ds rest : List Char} (digits : ds.all isDigit = true)
    (nonempty : ds ≠ []) (fits : ds.length ≤ width) (stop : ds.length = width ∨ Stops rest) :
    number width (ds ++ rest) = some (numeralValue ds, rest) := by
  have stops : Stops (rest.take (width - ds.length)) := by
    rcases stop with rfl | stops
    · simp [Stops]
    · intro c hc
      cases rest with
      | nil => simp at hc
      | cons d rest =>
          cases hw : width - ds.length with
          | zero => simp [hw] at hc
          | succ n => exact stops c (by simpa [hw] using hc)
  have taken : ((ds ++ rest).take width).takeWhile isDigit = ds := by
    rw [List.take_append, List.take_of_length_le fits, takeWhile_digits digits stops]
  simp [number, taken, nonempty]

theorem field_padded {n : Nat} (h : n < 100) (rest : List Char) :
    field (padded 2 n ++ rest) = some (n, rest) := by
  have blank : trimLeft (padded 2 n ++ rest) = padded 2 n ++ rest :=
    trimLeft_cons (isBlank_of_isDigit (isDigit_digit (n / 10))) _
  rw [field, blank, number_append (all_isDigit_padded 2 n) (padded_ne_nil (by decide) n)
    (length_padded 2 n).le (.inl (length_padded 2 n)), numeralValue_padded]
  simp [Nat.mod_eq_of_lt h]

theorem separator_cons {c : Char} (h : isBlank c = false) (rest : List Char) :
    separator c (c :: rest) = some ((), rest) := by
  simp [separator, trimLeft_cons h]

theorem yearField_digits {ds rest : List Char} (digits : ds.all isDigit = true)
    (nonempty : ds ≠ []) (short : ds.length = 4) :
    yearField (ds ++ rest) = some ((numeralValue ds : Int), rest) := by
  obtain ⟨c, cs, rfl⟩ := List.exists_cons_of_ne_nil nonempty
  have hc : isDigit c = true := List.all_eq_true.mp digits c List.mem_cons_self
  have read := @number_append _ _ rest digits nonempty short.le (.inl short)
  rw [List.cons_append] at read ⊢
  unfold yearField
  rw [trimLeft_cons (isBlank_of_isDigit hc)]
  split
  next heq =>
    obtain ⟨rfl, -⟩ := List.cons.inj heq
    simp [isDigit] at hc
  next heq =>
    obtain ⟨rfl, -⟩ := List.cons.inj heq
    simp [isDigit] at hc
  next => simp [read]

theorem yearField_yearText (year : Int) {rest : List Char} (stops : Stops rest) :
    yearField (yearText year ++ rest) = some (year, rest) := by
  by_cases plain : 0 ≤ year ∧ year ≤ 9999
  · have value : numeralValue (padded 4 year.toNat) = year.toNat := by
      rw [numeralValue_padded]
      exact Nat.mod_eq_of_lt (show year.toNat < 10 ^ 4 by omega)
    rw [yearText, if_pos plain, yearField_digits (all_isDigit_padded ..)
      (padded_ne_nil (by decide) _) (length_padded ..), value, Int.toNat_of_nonneg plain.1]
  · obtain ⟨zeros, hz⟩ : ∃ n, 4 - (decimal year.natAbs).length = n := ⟨_, rfl⟩
    have digits : (List.replicate zeros '0' ++ decimal year.natAbs).all isDigit = true := by
      have zero : isDigit '0' = true := rfl
      simp [all_isDigit_decimal, zero]
    have nonempty : List.replicate zeros '0' ++ decimal year.natAbs ≠ [] := by
      simp [decimal_ne_nil]
    have read := @number_append (List.replicate zeros '0' ++ decimal year.natAbs ++ rest).length _
      rest digits nonempty (by simp) (.inr stops)
    rw [numeralValue_replicate_append, numeralValue_decimal] at read
    rw [yearText, if_neg plain]
    dsimp only
    rw [hz, List.cons_append]
    by_cases negative : year < 0
    · have sign : isBlank '-' = false := rfl
      have value : -(year.natAbs : Int) = year := by omega
      simp only [negative, if_true, yearField, trimLeft_cons sign, read, Option.bind_eq_bind,
        Option.bind_some, value]
    · have sign : isBlank '+' = false := rfl
      have value : (year.natAbs : Int) = year := by omega
      simp only [negative, if_false, yearField, trimLeft_cons sign, read, Option.bind_eq_bind,
        Option.bind_some, value]

theorem fraction_digits {ds rest : List Char} (digits : ds.all isDigit = true) (nonempty : ds ≠ [])
    (short : ds.length ≤ 9) (stops : Stops rest) :
    fraction ('.' :: (ds ++ rest)) = some (numeralValue ds * 10 ^ (9 - ds.length), rest) := by
  simp [fraction, takeWhile_digits digits stops, nonempty, List.take_of_length_le short,
    List.rightpad, numeralValue_append_replicate]

theorem fraction_fractionText {nano : Nat} (h : nano < 1000000000) (rest : List Char) :
    fraction (fractionText nano ++ 'Z' :: rest) = some (nano, 'Z' :: rest) := by
  have stops : Stops ('Z' :: rest) := by simp [Stops, isDigit]
  have read (width n : Nat) (hw : 0 < width ∧ width ≤ 9) (hn : n < 10 ^ width) :
      fraction ('.' :: (padded width n ++ 'Z' :: rest)) =
        some (n * 10 ^ (9 - width), 'Z' :: rest) := by
    rw [fraction_digits (all_isDigit_padded width n) (padded_ne_nil hw.1 n)
      (by rw [length_padded]; exact hw.2) stops, length_padded, numeralValue_padded]
    rw [show n % Nat.pow 10 width = n from Nat.mod_eq_of_lt hn]
  unfold fractionText
  split
  next zero => rw [zero]; rfl
  next =>
    split
    next millis =>
      rw [List.cons_append, read 3 _ (by decide) (by omega)]
      simp
      omega
    next =>
      split
      next micros =>
        rw [List.cons_append, read 6 _ (by decide) (by omega)]
        simp
        omega
      next =>
        rw [List.cons_append, read 9 _ (by decide) (by omega)]
        simp

/-- The clock reads the instant that it shows; a leap second is the second 60 of its minute. -/
theorem ofLocal?_clock (t : Instant) :
    ofLocal? t.date (t.second / 3600) (t.second / 60 % 60) (t.second % 60 + t.nano / 1000000000)
      (t.nano % 1000000000) 0 = some t := by
  obtain ⟨date, second, nano, moment⟩ := t
  have shown : (if second % 60 + nano / 1000000000 = 60
      then (59, nano % 1000000000 + 1000000000)
      else (second % 60 + nano / 1000000000, nano % 1000000000)) = (second % 60, nano) := by
    obtain ⟨-, plain | ⟨last, leap⟩⟩ := moment
    · rw [if_neg (by omega), Nat.div_eq_of_lt plain, Nat.mod_eq_of_lt plain, Nat.add_zero]
    · by_cases plain : nano < 1000000000
      · rw [if_neg (by omega), Nat.div_eq_of_lt plain, Nat.mod_eq_of_lt plain, Nat.add_zero]
      · rw [if_pos (by omega), last, show nano % 1000000000 + 1000000000 = nano by omega]
  have day := moment.1
  have total : second / 3600 * 3600 + second / 60 % 60 * 60 + second % 60 = second := by omega
  simp only [ofLocal?, shown, total]
  rw [if_neg (by omega), if_neg (by omega), if_neg (by omega)]
  have second_eq : ((second : Int) % 86400).toNat = second := by omega
  simp [second_eq, moment]

theorem ofText?_text (t : Instant) : ofText? t.text = some t := by
  have month : t.date.month < 100 := by
    have := t.date.isDay.2.2.2.1
    omega
  have day : t.date.day < 100 := by
    have := t.date.isDay.2.2.2.2.2
    have := Calendar.daysInMonth_le t.date.year t.date.month
    omega
  have hour : t.second / 3600 < 100 := by
    have := t.isMoment.1
    omega
  have minute : t.second / 60 % 60 < 100 := by omega
  have second : t.second % 60 + t.nano / 1000000000 < 100 := by
    have := t.isMoment.2
    omega
  have nano : t.nano % 1000000000 < 1000000000 := Nat.mod_lt _ (by decide)
  have year (rest : List Char) : yearField (yearText t.date.year ++ '-' :: rest) =
      some (t.date.year, '-' :: rest) :=
    yearField_yearText t.date.year (by simp [Stops, isDigit])
  have dash : isBlank '-' = false := rfl
  have colon : isBlank ':' = false := rfl
  have zulu : offset (trimLeft ['Z']) = some (0, []) := by decide +kernel
  have blank : trimLeft [] = [] := rfl
  have date : Date.of? t.date.year t.date.month t.date.day = some t.date := by
    simp [Date.of?, t.date.isDay]
  rw [ofText?, text, String.toList_ofList, chars]
  simp only [List.append_assoc, List.cons_append]
  simp only [ofChars?, year, ne_eq, Option.bind_eq_bind, ite_not, Option.bind_some, Option.bind_none,
    dash, separator_cons, month, field_padded, day, Char.reduceEq, or_self, or_false, ↓reduceIte, hour,
    date, colon, minute, second, fraction_fractionText nano, zulu, blank, ofLocal?_clock]

end Instant

end Foreman
