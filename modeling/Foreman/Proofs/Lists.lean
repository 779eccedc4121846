/-!
Lists in which one element is changed or one is added at the end, and what is counted or summed up in
them.
-/

namespace Foreman

/-- An element of a list with one more at its end is that one or was there before. -/
theorem getElem?_concat_cases {α : Type} {l : List α} {a b : α} {j : Nat}
    (h : (l ++ [a])[j]? = some b) : l[j]? = some b ∨ j = l.length ∧ b = a := by
  rw [List.getElem?_append] at h
  split at h
  next => exact .inl h
  next hj =>
    rw [List.getElem?_singleton] at h
    split at h
    next => exact .inr ⟨by omega, (Option.some.inj h).symm⟩
    next => simp at h

theorem nodup_concat {α : Type} {l : List α} {a : α} (h : l.Nodup) (ha : a ∉ l) :
    (l ++ [a]).Nodup := by
  refine List.nodup_append.mpr ⟨h, by simp, ?_⟩
  rintro b hb b' hb' rfl
  exact ha (List.mem_singleton.mp hb' ▸ hb)

/-- The sum of the weights. -/
def total {α : Type} (w : α → Nat) : List α → Nat
  | [] => 0
  | a :: l => w a + total w l

theorem total_set {α : Type} (w : α → Nat) {l : List α} {k : Nat} {a : α} (h : l[k]? = some a)
    (b : α) : total w (l.set k b) + w a = total w l + w b := by
  induction l generalizing k with
  | nil => simp at h
  | cons x l ih =>
      cases k with
      | zero =>
          obtain rfl : x = a := by simpa using h
          simp only [List.set_cons_zero, total]
          omega
      | succ k =>
          have := ih (by simpa using h)
          simp only [List.set_cons_succ, total]
          omega

theorem modify_eq_set {α : Type} (f : α → α) {l : List α} {k : Nat} {a : α} (h : l[k]? = some a) :
    l.modify k f = l.set k (f a) := by
  obtain ⟨hlt, rfl⟩ := List.getElem?_eq_some_iff.mp h
  apply List.ext_getElem?
  intro j
  by_cases hj : k = j
  · subst hj
    simp [hlt]
  · simp [hj]

theorem total_modify {α : Type} (w : α → Nat) (f : α → α) {l : List α} {k : Nat} {a : α}
    (h : l[k]? = some a) : total w (l.modify k f) + w a = total w l + w (f a) := by
  rw [modify_eq_set f h, total_set w h]

theorem countP_eq_total {α : Type} (q : α → Bool) (l : List α) :
    l.countP q = total (fun a => (q a).toNat) l := by
  induction l with
  | nil => rfl
  | cons a l ih =>
      rw [List.countP_cons, total, ih, Nat.add_comm]
      cases q a <;> rfl

theorem countP_modify {α : Type} (q : α → Bool) (f : α → α) {l : List α} {k : Nat} {a : α}
    (h : l[k]? = some a) :
    (l.modify k f).countP q + (q a).toNat = l.countP q + (q (f a)).toNat := by
  rw [countP_eq_total, countP_eq_total, total_modify _ f h]

theorem countP_modify_of_eq {α : Type} {q : α → Bool} {f : α → α} (hf : ∀ a, q (f a) = q a)
    (l : List α) (k : Nat) : (l.modify k f).countP q = l.countP q := by
  cases h : l[k]? with
  | none => rw [List.modify_eq_self (List.getElem?_eq_none_iff.mp h)]
  | some a =>
      have := countP_modify q f h
      rw [hf a] at this
      omega

theorem filterMap_range {α : Type} {f : Nat → Option α} {k n : Nat} (hf : ∀ j, j ≠ k → f j = none)
    (hk : k < n) : (List.range n).filterMap f = (f k).toList := by
  have hlow {m : Nat} (hm : m ≤ k) : (List.range m).filterMap f = [] :=
    List.filterMap_eq_nil_iff.mpr fun j hj => hf j (by have := List.mem_range.mp hj; omega)
  induction n with
  | zero => omega
  | succ n ih =>
      rw [List.range_succ, List.filterMap_append]
      by_cases h : k = n
      · subst h
        rw [hlow (Nat.le_refl _)]
        cases h : f k <;> simp [h]
      · rw [ih (by omega)]
        simp [hf n (Ne.symm h)]

theorem eq_of_countP_le_one {α : Type} {q : α → Bool} {l : List α} (h : l.countP q ≤ 1) {j k : Nat}
    {a b : α} (hj : l[j]? = some a) (ha : q a = true) (hk : l[k]? = some b) (hb : q b = true) :
    j = k := by
  induction l generalizing j k with
  | nil => simp at hj
  | cons x l ih =>
      have none {m : Nat} {y : α} (hm : l[m]? = some y) (hy : q y = true) : q x = false := by
        cases hx : q x with
        | false => rfl
        | true =>
            have := List.countP_pos_iff.mpr ⟨y, List.mem_of_getElem? hm, hy⟩
            rw [List.countP_cons_of_pos hx] at h
            omega
      cases j with
      | zero =>
          obtain rfl : x = a := by simpa using hj
          cases k with
          | zero => rfl
          | succ k => simp [none (by simpa using hk) hb] at ha
      | succ j =>
          have hx := none (by simpa using hj) ha
          cases k with
          | zero =>
              obtain rfl : x = b := by simpa using hk
              simp [hx] at hb
          | succ k =>
              rw [List.countP_cons_of_neg (by simp [hx])] at h
              exact congrArg (· + 1) (ih h (by simpa using hj) (by simpa using hk))

theorem total_le {α : Type} {w w' : α → Nat} {d : Nat} (l : List α)
    (h : ∀ a ∈ l, w' a ≤ w a + d) : total w' l ≤ total w l + d * l.length := by
  induction l with
  | nil => simp [total]
  | cons a l ih =>
      have hhead := h a List.mem_cons_self
      have htail := ih fun b hb => h b (List.mem_cons_of_mem _ hb)
      simp only [total, List.length_cons, Nat.mul_add]
      omega

end Foreman
