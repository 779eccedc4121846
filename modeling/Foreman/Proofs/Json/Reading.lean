import Foreman.Json.Reader
import Foreman.Proofs.Json.Lexing

/-!
What is printed is read back. The lexemes of a tree build the tree again, in whatever frames it
stands, so the text of a plain tree is read as this tree with nothing after it.
-/

namespace Foreman.Json

/-- How the building goes on after a finished value. -/
def resume (frames : List Frame) (v : Json) (rest : List Token) : Json × List Token :=
  match deliver v frames with
  | .inl v => (v, rest)
  | .inr frames => build frames .next rest

/-- A value may come next. -/
def Expectation.isValue : Expectation → Bool
  | value | firstItem => true
  | _ => false

/-- A key may come next. -/
def Expectation.isKey : Expectation → Bool
  | key | firstKey => true
  | _ => false

section Build

variable (frames : List Frame) {e : Expectation} (rest : List Token)

theorem build_scalar (he : e.isValue = true) (v : Json) :
    build frames e (.scalar v :: rest) = resume frames v rest := by
  cases e with
  | value | firstItem => rfl
  | firstKey | key | colon | next => simp [Expectation.isValue] at he

theorem build_text (he : e.isValue = true) (s : String) :
    build frames e (.text (some s) :: rest) = resume frames (.string s) rest := by
  cases e with
  | value | firstItem => rfl
  | firstKey | key | colon | next => simp [Expectation.isValue] at he

theorem build_openBracket (he : e.isValue = true) :
    build frames e (.openBracket :: rest) = build (.items [] :: frames) .firstItem rest := by
  cases e with
  | value | firstItem => rfl
  | firstKey | key | colon | next => simp [Expectation.isValue] at he

theorem build_openBrace (he : e.isValue = true) :
    build frames e (.openBrace :: rest) =
      build (.fields [] (some "") :: frames) .firstKey rest := by
  cases e with
  | value | firstItem => rfl
  | firstKey | key | colon | next => simp [Expectation.isValue] at he

theorem build_key (he : e.isKey = true) (done : List (String × Json)) (k' : Option String)
    (k : String) :
    build (.fields done k' :: frames) e (.text (some k) :: .colon :: rest) =
      build (.fields done (some k) :: frames) .value rest := by
  cases e with
  | firstKey | key => rfl
  | value | firstItem | colon | next => simp [Expectation.isKey] at he

theorem build_closeBracket (he : e = .firstItem ∨ e = .next) (done : List Json) :
    build (.items done :: frames) e (.closeBracket :: rest) =
      resume frames (.array done.reverse) rest := by
  rcases he with rfl | rfl <;> rfl

theorem build_closeBrace (he : e = .firstKey ∨ e = .next) (done : List (String × Json))
    (k : Option String) :
    build (.fields done k :: frames) e (.closeBrace :: rest) =
      resume frames (.object done.reverse) rest := by
  rcases he with rfl | rfl <;> rfl

/-- An item is finished, and another one follows. -/
theorem resume_items_comma (done : List Json) (v : Json) :
    resume (.items done :: frames) v (.comma :: rest) =
      build (.items (v :: done) :: frames) .value rest := rfl

/-- A field is finished, and another one follows. -/
theorem resume_fields_comma (done : List (String × Json)) (k : String) (v : Json) :
    resume (.fields done (some k) :: frames) v (.comma :: rest) =
      build (.fields ((k, v) :: done) (some "") :: frames) .key rest := rfl

theorem resume_items_close (done : List Json) (v : Json) :
    resume (.items done :: frames) v (.closeBracket :: rest) =
      resume frames (.array (done.reverse ++ [v])) rest := by
  rw [← List.reverse_cons]
  exact build_closeBracket frames rest (.inr rfl) (v :: done)

theorem resume_fields_close (done : List (String × Json)) (k : String) (v : Json) :
    resume (.fields done (some k) :: frames) v (.closeBrace :: rest) =
      resume frames (.object (done.reverse ++ [(k, v)])) rest := by
  rw [← List.reverse_cons]
  exact build_closeBrace frames rest (.inr rfl) ((k, v) :: done) (some "")

end Build

mutual

theorem build_tokens (v : Json) (h : v.isPlain = true) (frames : List Frame) {e : Expectation}
    (he : e.isValue = true) (rest : List Token) :
    build frames e (v.tokens ++ rest) = resume frames v rest := by
  match v with
  | null | bool _ | number _ => exact build_scalar frames rest he _
  | string s => exact build_text frames rest he s
  | array [] =>
      exact (build_openBracket frames _ he).trans (build_closeBracket frames rest (.inl rfl) [])
  | array (v :: items) =>
      have inner := build_itemTokens (v :: items) h (by simp) [] frames (e := .firstItem) rfl rest
      simpa [tokens, build_openBracket frames _ he] using inner
  | object [] =>
      exact (build_openBrace frames _ he).trans
        (build_closeBrace frames rest (.inl rfl) [] (some ""))
  | object (f :: fields) =>
      have inner :=
        build_fieldTokens (f :: fields) h (by simp) [] (some "") frames (e := .firstKey) rfl rest
      simpa [tokens, build_openBrace frames _ he] using inner
  | flaw f => simp [isPlain] at h

theorem build_itemTokens (items : List Json) (h : allPlain items = true) (nonempty : items ≠ [])
    (done : List Json) (frames : List Frame) {e : Expectation} (he : e.isValue = true)
    (rest : List Token) :
    build (.items done :: frames) e (itemTokens items ++ .closeBracket :: rest) =
      resume frames (.array (done.reverse ++ items)) rest := by
  match items with
  | [] => exact absurd rfl nonempty
  | [v] =>
      have hv : v.isPlain = true := by simpa [allPlain] using h
      rw [itemTokens, build_tokens v hv _ he, resume_items_close]
  | v :: w :: items =>
      obtain ⟨hv, hrest⟩ := Bool.and_eq_true_iff.mp h
      have others := build_itemTokens (w :: items) hrest (by simp) (v :: done) frames
        (e := .value) rfl rest
      have split : itemTokens (v :: w :: items) = v.tokens ++ .comma :: itemTokens (w :: items) :=
        rfl
      rw [split, List.append_assoc, List.cons_append, build_tokens v hv _ he, resume_items_comma,
        others]
      simp

theorem build_fieldTokens (fields : List (String × Json)) (h : allPlainFields fields = true)
    (nonempty : fields ≠ []) (done : List (String × Json)) (k' : Option String)
    (frames : List Frame) {e : Expectation} (he : e.isKey = true) (rest : List Token) :
    build (.fields done k' :: frames) e (fieldTokens fields ++ .closeBrace :: rest) =
      resume frames (.object (done.reverse ++ fields)) rest := by
  match fields with
  | [] => exact absurd rfl nonempty
  | [(k, v)] =>
      have hv : v.isPlain = true := by simpa [allPlainFields] using h
      rw [fieldTokens, List.cons_append, List.cons_append, build_key _ _ he,
        build_tokens v hv _ rfl, resume_fields_close]
  | (k, v) :: f :: fields =>
      obtain ⟨hv, hrest⟩ := Bool.and_eq_true_iff.mp h
      have others := build_fieldTokens (f :: fields) hrest (by simp) ((k, v) :: done) (some "")
        frames (e := .key) rfl rest
      have split : fieldTokens ((k, v) :: f :: fields) =
          .text (some k) :: .colon :: (v.tokens ++ .comma :: fieldTokens (f :: fields)) := rfl
      rw [split, List.cons_append, List.cons_append, build_key _ _ he, List.append_assoc,
        List.cons_append, build_tokens v hv _ rfl, resume_fields_comma, others]
      simp

end

/-- The text of a plain tree is read as the tree. -/
theorem read_chars {v : Json} (h : v.isPlain = true) : read v.chars = (v, true) := by
  have lexed : lex v.chars = v.tokens := by
    simpa [lex, lexFrom, finish] using lexFrom_chars v h [] breaks_nil
  have built : build [] .value v.tokens = (v, []) := by
    simpa [resume, deliver] using build_tokens v h [] (e := .value) rfl []
  simp [read, lexed, built]

theorem read_text {v : Json} (h : v.isPlain = true) : read v.text.toList = (v, true) := by
  rw [text, String.toList_ofList, read_chars h]

end Foreman.Json
