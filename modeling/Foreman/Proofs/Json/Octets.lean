import Foreman.Json.Octets

/-!
The octets of a text are read as the text is.
-/

namespace Foreman.Json

theorem utf8DecodeChar?_append (before after : ByteArray) (c : Char) :
    (before ++ ([c].utf8Encode ++ after)).utf8DecodeChar? before.size = some c := by
  rw [ByteArray.utf8DecodeChar?_eq_utf8DecodeChar?_extract,
    ByteArray.extract_append_eq_right rfl (by simp), List.utf8DecodeChar?_utf8Encode_singleton_append]

theorem lexOctets_append (before : ByteArray) (m : Mode) (cs : List Char) :
    lexOctets (before ++ cs.utf8Encode) m before.size = lexFrom m cs := by
  induction cs generalizing before m with
  | nil =>
      rw [lexOctets, if_neg (by simp), lexFrom]
  | cons c cs ih =>
      have shift : before ++ ([c].utf8Encode ++ cs.utf8Encode) =
          (before ++ [c].utf8Encode) ++ cs.utf8Encode := ByteArray.append_assoc.symm
      have size : (before ++ [c].utf8Encode).size = before.size + c.utf8Size := by
        simp [List.utf8Encode_singleton]
      have inside : before.size < (before ++ ([c].utf8Encode ++ cs.utf8Encode)).size := by
        have := c.utf8Size_pos
        simp [List.utf8Encode_singleton]
        omega
      rw [← List.singleton_append, List.utf8Encode_append, lexOctets, if_pos inside,
        utf8DecodeChar?_append]
      simp only [List.singleton_append, lexFrom, shift, ← size, ih]

theorem readOctets_toUTF8 (s : String) : readOctets s.toUTF8 = read s.toList := by
  have octets : s.toUTF8 = ByteArray.empty ++ s.toList.utf8Encode := by simp
  rw [readOctets, octets, read, lex, ← lexOctets_append ByteArray.empty]
  rfl

end Foreman.Json
