import Foreman.Config.Duration
import Foreman.Proofs.Instant

/-!
Written durations: the digits of a number and the letter of a unit, with blanks around them. Exactly
these texts are read, as long as the number fits, and a reader who goes by bytes never leaves the text
nor takes a character of it apart.
-/

namespace Foreman

namespace Text

variable {before core after cs : List Char}

theorem trimLeft_append (blank : ∀ c ∈ before, isBlank c = true) :
    trimLeft (before ++ cs) = trimLeft cs :=
  List.dropWhile_append_of_pos blank

theorem trimLeft_eq_self (h : ∀ c ∈ cs.head?, isBlank c = false) : trimLeft cs = cs := by
  cases cs with
  | nil => rfl
  | cons c cs => exact trimLeft_cons (h c rfl) cs

theorem exists_trimLeft (cs : List Char) :
    ∃ before, cs = before ++ trimLeft cs ∧ ∀ c ∈ before, isBlank c = true :=
  ⟨cs.takeWhile isBlank, List.takeWhile_append_dropWhile.symm, fun _ => List.mem_takeWhile_imp⟩

/-- What stands between blanks and neither begins nor ends with one is what is left. -/
theorem trim_between (hbefore : ∀ c ∈ before, isBlank c = true)
    (hafter : ∀ c ∈ after, isBlank c = true) (first : ∀ c ∈ core.head?, isBlank c = false)
    (last : ∀ c ∈ core.getLast?, isBlank c = false) : trim (before ++ core ++ after) = core := by
  cases core with
  | nil =>
      have all : ∀ c ∈ before ++ after, isBlank c = true := by
        simpa [or_imp, forall_and] using And.intro hbefore hafter
      have none : trimLeft (before ++ after) = [] := List.dropWhile_eq_nil_iff.mpr all
      rw [List.append_nil, trim, none]
      rfl
  | cons c core =>
      have left : trimLeft (before ++ (c :: core) ++ after) = (c :: core) ++ after := by
        rw [List.append_assoc, trimLeft_append hbefore]
        exact trimLeft_cons (first c rfl) _
      have right : trimLeft ((c :: core) ++ after).reverse = (c :: core).reverse := by
        rw [List.reverse_append, trimLeft_append fun d hd => hafter d (List.mem_reverse.mp hd)]
        exact trimLeft_eq_self (by rwa [List.head?_reverse])
      rw [trim, left, trimRight, right, List.reverse_reverse]

/-- Only blanks are dropped. -/
theorem exists_trim (cs : List Char) : ∃ before after, cs = before ++ trim cs ++ after ∧
    (∀ c ∈ before, isBlank c = true) ∧ ∀ c ∈ after, isBlank c = true := by
  obtain ⟨before, hleft, hbefore⟩ := exists_trimLeft cs
  obtain ⟨after, hright, hafter⟩ := exists_trimLeft (trimLeft cs).reverse
  refine ⟨before, after.reverse, ?_, hbefore, fun c hc => hafter c (List.mem_reverse.mp hc)⟩
  calc
    cs = before ++ trimLeft cs := hleft
    _ = before ++ (after ++ trimLeft (trimLeft cs).reverse).reverse := by
        rw [← hright, List.reverse_reverse]
    _ = before ++ trim cs ++ after.reverse := by
        rw [List.reverse_append, List.append_assoc, trim, trimRight]

theorem readDecimal?_eq_some {n : Nat} :
    readDecimal? cs = some n ↔ cs ≠ [] ∧ (∀ c ∈ cs, isDigit c = true) ∧ numeralValue cs = n := by
  simp [readDecimal?, and_assoc]

/-! ### Splitting by bytes -/

/-- The byte at which the first character that `p` holds of begins. -/
def offset? (p : Char → Bool) : List Char → Option Nat
  | [] => none
  | c :: cs => if p c then some 0 else (offset? p cs).map (c.utf8Size + ·)

/-- Splits a text at a byte; none if that is behind the end of the text or within a character. -/
def splitAt? (s : String) (offset : Nat) : Option (String × String) :=
  (s.pos? ⟨offset⟩).map fun p => ((s.sliceTo p).copy, (s.sliceFrom p).copy)

theorem offset?_eq_none (p : Char → Bool) :
    offset? p cs = none ↔ cs.dropWhile (!p ·) = [] := by
  induction cs with
  | nil => simp [offset?]
  | cons c cs ih => by_cases h : p c <;> simp [offset?, h, ih]

theorem offset?_eq_some {p : Char → Bool} {k : Nat} (h : offset? p cs = some k) :
    k = (String.ofList (cs.takeWhile (!p ·))).utf8ByteSize := by
  induction cs generalizing k with
  | nil => simp [offset?] at h
  | cons c cs ih =>
      by_cases hc : p c
      · obtain rfl : 0 = k := by simpa [offset?, hc] using h
        simp [hc]
      · obtain ⟨k', hk', rfl⟩ : ∃ k', offset? p cs = some k' ∧ c.utf8Size + k' = k := by
          simpa [offset?, hc] using h
        simp [hc, ih hk', String.ofList_cons]

theorem splitAt?_append (s t : String) : splitAt? (s ++ t) s.utf8ByteSize = some (s, t) := by
  have valid : s.rawEndPos.IsValid (s ++ t) :=
    String.Pos.Raw.isValid_rawEndPos.append_right t
  have between : (s ++ t).pos? s.rawEndPos = some ((s ++ t).pos s.rawEndPos valid) := by
    simp [String.pos?, String.Slice.pos?, String.pos, valid]
  have splits := @String.Pos.splits_append_rawEndPos s t
  show ((s ++ t).pos? s.rawEndPos).map _ = _
  rw [between, Option.map_some, splits.copy_sliceTo_eq, splits.copy_sliceFrom_eq]

end Text

namespace Duration

variable {field : String} {digits unit : List Char} {d : Duration} {n scale : Nat}

/-- The letters of the units, with the seconds of each. -/
def units : List (Char × Nat) := [('s', 1), ('m', 60), ('h', 3600), ('d', 86400)]

theorem unitSeconds?_eq_some :
    unitSeconds? unit = some scale ↔ ∃ c, unit = [c] ∧ (c, scale) ∈ units := by
  constructor
  · intro h
    unfold unitSeconds? at h
    split at h
    all_goals first
      | exact ⟨_, rfl, by simp [units, ← Option.some.inj h]⟩
      | cases h
  · rintro ⟨c, rfl, h⟩
    simp only [units, List.mem_cons, Prod.mk.injEq, List.not_mem_nil, or_false] at h
    rcases h with ⟨rfl, rfl⟩ | ⟨rfl, rfl⟩ | ⟨rfl, rfl⟩ | ⟨rfl, rfl⟩ <;> rfl

theorem scale_pos {c : Char} (h : (c, scale) ∈ units) : 0 < scale := by
  simp only [units, List.mem_cons, Prod.mk.injEq, List.not_mem_nil, or_false] at h
  omega

theorem ofParts_eq_ok (numeral : ∀ c ∈ digits, Text.isDigit c = true) :
    ofParts field digits unit = .ok d ↔ ∃ n scale, Text.readDecimal? digits = some n ∧
      unitSeconds? unit = some scale ∧ 0 < n ∧ n < UInt64.size ∧ d = ⟨n * scale, 0⟩ := by
  constructor
  · intro h
    simp only [ofParts] at h
    split at h
    next => cases h
    next =>
      split at h
      next => cases h
      next hdigits =>
        rw [not_or, Nat.not_le] at hdigits
        split at h
        next => cases h
        next scale hscale =>
          split at h
          next => cases h
          next positive =>
            refine ⟨Text.numeralValue digits, scale, ?_, hscale, ?_, hdigits.2, ?_⟩
            · exact Text.readDecimal?_eq_some.mpr ⟨hdigits.1, numeral, rfl⟩
            · exact Nat.pos_of_ne_zero fun hn => positive (by rw [hn, Nat.zero_mul])
            · exact (Except.ok.inj h).symm
  · rintro ⟨n, scale, hn, hscale, positive, small, rfl⟩
    obtain ⟨nonempty, -, rfl⟩ := Text.readDecimal?_eq_some.mp hn
    obtain ⟨c, rfl, hc⟩ := unitSeconds?_eq_some.mp hscale
    have more : Text.numeralValue digits * scale ≠ 0 := (Nat.mul_pos positive (scale_pos hc)).ne'
    simp [ofParts, hscale, nonempty, small, more]

theorem ofParts_eq_error {f : ConfigFault} (h : ofParts field digits unit = .error f) :
    ∃ reason, f = .invalidValue field reason := by
  simp only [ofParts] at h
  split_ifs at h
  · exact ⟨_, (Except.error.inj h).symm⟩
  · exact ⟨_, (Except.error.inj h).symm⟩
  · split at h
    · exact ⟨_, (Except.error.inj h).symm⟩
    · split_ifs at h
      exact ⟨_, (Except.error.inj h).symm⟩

/-! ### Texts of the right form -/

/-- Between blanks, the characters are the digits of `n` and the letter of a unit of `scale` seconds. -/
def Written (cs : List Char) (n scale : Nat) : Prop :=
  ∃ before digits unit after, cs = before ++ (digits ++ [unit]) ++ after ∧
    (∀ c ∈ before, Text.isBlank c = true) ∧ (∀ c ∈ after, Text.isBlank c = true) ∧
    Text.readDecimal? digits = some n ∧ (unit, scale) ∈ units

/-- Letters of units are neither digits nor blanks. -/
theorem unit_not_digit {c : Char} (h : (c, scale) ∈ units) :
    Text.isDigit c = false ∧ Text.isBlank c = false := by
  simp only [units, List.mem_cons, Prod.mk.injEq, List.not_mem_nil, or_false] at h
  rcases h with ⟨rfl, -⟩ | ⟨rfl, -⟩ | ⟨rfl, -⟩ | ⟨rfl, -⟩ <;> decide

/-- A text of the right form has but one number and one unit. -/
theorem written_iff {cs : List Char} : Written cs n scale ↔
    Text.readDecimal? ((Text.trim cs).takeWhile Text.isDigit) = some n ∧
      unitSeconds? ((Text.trim cs).dropWhile Text.isDigit) = some scale := by
  constructor
  · rintro ⟨before, digits, unit, after, rfl, hbefore, hafter, hn, hunit⟩
    obtain ⟨nonempty, numeral, -⟩ := Text.readDecimal?_eq_some.mp hn
    obtain ⟨notDigit, notBlank⟩ := unit_not_digit hunit
    have trimmed : Text.trim (before ++ (digits ++ [unit]) ++ after) = digits ++ [unit] := by
      refine Text.trim_between hbefore hafter ?_ (by simp [notBlank])
      obtain ⟨c, cs, rfl⟩ := List.exists_cons_of_ne_nil nonempty
      simpa using Text.isBlank_of_isDigit (numeral c List.mem_cons_self)
    rw [trimmed, List.takeWhile_append_of_pos numeral, List.dropWhile_append_of_pos numeral]
    have hscale : unitSeconds? [unit] = some scale := unitSeconds?_eq_some.mpr ⟨unit, rfl, hunit⟩
    simpa [notDigit, hscale] using hn
  · rintro ⟨hn, hscale⟩
    obtain ⟨before, after, hcs, hbefore, hafter⟩ := Text.exists_trim cs
    obtain ⟨unit, hunit, member⟩ := unitSeconds?_eq_some.mp hscale
    refine ⟨before, _, unit, after, ?_, hbefore, hafter, hn, member⟩
    rw [← hunit, List.takeWhile_append_dropWhile]
    exact hcs

theorem Written.unique {cs : List Char} {n' scale' : Nat} (h : Written cs n scale)
    (h' : Written cs n' scale') : n = n' ∧ scale = scale' := by
  obtain ⟨hn, hscale⟩ := written_iff.mp h
  obtain ⟨hn', hscale'⟩ := written_iff.mp h'
  exact ⟨Option.some.inj (hn.symm.trans hn'), Option.some.inj (hscale.symm.trans hscale')⟩

/-- If the number of the text has 64 bits, the number of its seconds has, too. -/
def Fits (text : String) : Prop :=
  ∀ n scale, Written text.toList n scale → n < UInt64.size → n * scale < UInt64.size

theorem Written.fits {text : String} (h : Written text.toList n scale)
    (small : n * scale < UInt64.size) : Fits text := by
  intro n' scale' h' _
  obtain ⟨rfl, rfl⟩ := h.unique h'
  exact small

/-- Reads the value of the configuration field `field` by splitting the text at the byte at which its
first character other than a digit begins; none if it cannot be split there. -/
def readAt? (field text : String) : Option (Except ConfigFault Duration) :=
  let raw := Text.trim text.toList
  match Text.offset? (!Text.isDigit ·) raw with
  | none => some (ofParts field raw [])
  | some offset =>
    (Text.splitAt? (String.ofList raw) offset).map fun (digits, unit) =>
      ofParts field digits.toList unit.toList

theorem readAt?_eq (field text : String) : readAt? field text = some (read field text) := by
  simp only [readAt?, read]
  have whole (cs : List Char) : String.ofList cs =
      String.ofList (cs.takeWhile Text.isDigit) ++ String.ofList (cs.dropWhile Text.isDigit) := by
    rw [← String.ofList_append, List.takeWhile_append_dropWhile]
  split
  next none =>
    have rest := (Text.offset?_eq_none _).mp none
    have all := @List.takeWhile_append_dropWhile _ Text.isDigit (Text.trim text.toList)
    simp only [Bool.not_not] at rest
    rw [rest, List.append_nil] at all
    rw [rest, all]
  next offset some =>
    have here := Text.offset?_eq_some some
    simp only [Bool.not_not] at here
    rw [here, whole, Text.splitAt?_append]
    simp

theorem Written.scale_pos {cs : List Char} (h : Written cs n scale) : 0 < scale := by
  obtain ⟨_, _, _, _, -, -, -, -, member⟩ := h
  exact Duration.scale_pos member

theorem read_eq_ok {text : String} : read field text = .ok d ↔
    ∃ n scale, Written text.toList n scale ∧ 0 < n ∧ n < UInt64.size ∧ d = ⟨n * scale, 0⟩ := by
  rw [read, ofParts_eq_ok fun _ => List.mem_takeWhile_imp]
  simp only [written_iff, and_assoc]

/-- A text is read if and only if, between blanks, it is a positive number of at most 64 bits in digits
with one letter for its unit after it, and then it is that many units; of any other text the field is
said to be invalid. Whatever the characters of the text, it can be split where its digits end. -/
theorem read_iff_written {field text : String} (fits : Fits text) :
    readAt? field text = some (read field text) ∧
    (∀ d, read field text = .ok d ↔ ∃ n scale, Written text.toList n scale ∧ 0 < n ∧
      n < UInt64.size ∧ n * scale < UInt64.size ∧ d = ⟨n * scale, 0⟩) ∧
    ∀ f, read field text = .error f → ∃ reason, f = .invalidValue field reason := by
  refine ⟨readAt?_eq field text, fun d => read_eq_ok.trans ?_, fun f => ofParts_eq_error⟩
  constructor
  · rintro ⟨n, scale, written, positive, small, rfl⟩
    exact ⟨n, scale, written, positive, small, fits n scale written small, rfl⟩
  · rintro ⟨n, scale, written, positive, small, -, rfl⟩
    exact ⟨n, scale, written, positive, small, rfl⟩

/-- Leading zeros and blanks of any kind do not count. -/
theorem read_iff_written_zeros : Fits "\u00a0\t0090m\u3000" ∧
    read "cleanup-interval" "\u00a0\t0090m\u3000" = .ok ⟨5400, 0⟩ := by
  have written : Written "\u00a0\t0090m\u3000".toList 90 60 :=
    ⟨['\u00a0', '\t'], ['0', '0', '9', '0'], 'm', ['\u3000'], by decide +kernel,
      by simp [Text.isBlank], by simp [Text.isBlank], by decide, by decide⟩
  have fits : Fits "\u00a0\t0090m\u3000" := written.fits (by decide)
  exact ⟨fits, ((read_iff_written fits).2.1 _).mpr
    ⟨90, 60, written, by decide, by decide, by decide, rfl⟩⟩

end Duration

end Foreman
