import Foreman.Identity

/-!
Identifiers are told apart by their texts: the digits of an id can be read off its text again. So
each attempt has a correlation id of its own.
-/

namespace Foreman

namespace Text

theorem hexDigit_ne_dash (n : Nat) : hexDigit n ≠ '-' := by
  have h : ∀ m : Fin 16, hexDigit m ≠ '-' := by decide
  have hm := h ⟨n % 16, Nat.mod_lt _ (by decide)⟩
  simpa [hexDigit] using hm

theorem dash_not_mem_hexPadded (width n : Nat) : '-' ∉ hexPadded width n := by
  induction width generalizing n with
  | zero => exact List.not_mem_nil
  | succ w ih =>
      intro h
      rcases List.mem_append.mp h with h | h
      · exact ih _ h
      · exact hexDigit_ne_dash n (List.mem_singleton.mp h).symm

end Text

namespace ResourceId

theorem append_groups (ds : List Char) :
    ds.take 8 ++ ((ds.drop 8).take 4 ++ ((ds.drop 12).take 4 ++
      ((ds.drop 16).take 4 ++ ds.drop 20))) = ds := by
  have split (n : Nat) : (ds.drop n).take 4 ++ ds.drop (n + 4) = ds.drop n := by
    rw [← List.drop_drop]
    exact List.take_append_drop 4 (ds.drop n)
  rw [split 16, split 12, split 8, List.take_append_drop]

/-- The groups are the digits with dashes between them. -/
theorem filter_group (ds : List Char) :
    (group ds).filter (· ≠ '-') = ds.filter (· ≠ '-') := by
  calc
    (group ds).filter (· ≠ '-') =
        (ds.take 8 ++ ((ds.drop 8).take 4 ++ ((ds.drop 12).take 4 ++
          ((ds.drop 16).take 4 ++ ds.drop 20)))).filter (· ≠ '-') := by
      simp [group, List.filter_append]
    _ = ds.filter (· ≠ '-') := by rw [append_groups]

theorem digits_of_chars (id : ResourceId) : id.chars.filter (· ≠ '-') = id.digits := by
  rw [chars, filter_group, List.filter_eq_self]
  intro c hc
  refine decide_eq_true fun h => ?_
  exact Text.dash_not_mem_hexPadded 32 id.bits.toNat (h ▸ hc)

theorem readHex?_digits (id : ResourceId) : Text.readHex? id.digits = some id.bits.toNat := by
  rw [digits, Text.readHex?_hexPadded]
  exact congrArg some (Nat.mod_eq_of_lt id.bits.isLt)

theorem digits_injective {a b : ResourceId} (h : a.digits = b.digits) : a = b := by
  have hbits : a.bits.toNat = b.bits.toNat := by
    have := readHex?_digits a
    rw [h, readHex?_digits b] at this
    exact (Option.some.inj this).symm
  obtain ⟨a⟩ := a
  obtain ⟨b⟩ := b
  exact congrArg ResourceId.mk (BitVec.eq_of_toNat_eq hbits)

theorem text_injective {a b : ResourceId} (h : a.text = b.text) : a = b := by
  have hchars : a.chars = b.chars := by
    have := congrArg String.toList h
    simpa [text] using this
  apply digits_injective
  rw [← digits_of_chars a, ← digits_of_chars b, hchars]

theorem length_group {ds : List Char} (h : ds.length = 32) : (group ds).length = 36 := by
  simp [group, h]

theorem ungroup?_group {ds : List Char} (h : ds.length = 32) : ungroup? (group ds) = some ds := by
  have parts : (group ds).take 8 ++ ((group ds).drop 9).take 4 ++ ((group ds).drop 14).take 4 ++
      ((group ds).drop 19).take 4 ++ (group ds).drop 24 = ds := by
    simpa [group, List.drop_append, List.drop_take, h] using append_groups ds
  simp only [ungroup?, parts, if_true]

theorem ofText?_text (id : ResourceId) : ofText? id.text = some id := by
  have length : id.digits.length = 32 := Text.length_hexPadded 32 _
  rw [ofText?, text, String.toList_ofList, chars, ofChars?, length_group length, if_neg (by decide),
    if_pos rfl, ungroup?_group length, Option.bind_some, ofDigits?, if_pos length, readHex?_digits]
  simp

end ResourceId

theorem CorrelationId.ofResource_injective {a b : ResourceId}
    (h : CorrelationId.ofResource a = .ofResource b) : a = b :=
  ResourceId.text_injective (congrArg CorrelationId.text h)

end Foreman
