import Foreman.Store

/-!
The order of time: instants are ordered linearly, attempts by their start and then by their id, and
the latest attempt to release a milestone is the last one in that order.
-/

namespace Foreman

namespace Instant

theorem le_iff (a b : Instant) : a.le b = true ↔
    a.date.year < b.date.year ∨ a.date.year = b.date.year ∧
      (a.date.month < b.date.month ∨ a.date.month = b.date.month ∧
        (a.date.day < b.date.day ∨ a.date.day = b.date.day ∧
          (a.second < b.second ∨ a.second = b.second ∧ a.nano ≤ b.nano))) := by
  simp only [le, Bool.or_eq_true, Bool.and_eq_true, decide_eq_true_eq, beq_iff_eq]
  omega

theorem le_refl (a : Instant) : a.le a = true := by
  simp [le_iff]

theorem le_total (a b : Instant) : a.le b = true ∨ b.le a = true := by
  simp only [le_iff]
  omega

theorem le_trans {a b c : Instant} (h : a.le b = true) (h' : b.le c = true) :
    a.le c = true := by
  simp only [le_iff] at *
  omega

theorem le_antisymm {a b : Instant} (h : a.le b = true) (h' : b.le a = true) : a = b := by
  obtain ⟨⟨_, _, _, _⟩, _, _, _⟩ := a
  obtain ⟨⟨_, _, _, _⟩, _, _, _⟩ := b
  simp only [le_iff] at h h'
  simp only [mk.injEq, Date.mk.injEq]
  omega

end Instant

/-- The time at which examples take place. -/
def noon : Instant := ⟨⟨2024, 6, 1, by decide⟩, 43200, 0, by decide⟩

theorem ResourceId.le_antisymm {a b : ResourceId} (h : a.le b = true) (h' : b.le a = true) :
    a = b := by
  obtain ⟨a⟩ := a
  obtain ⟨b⟩ := b
  simp only [le, decide_eq_true_eq] at h h'
  rw [BitVec.eq_of_toNat_eq (Nat.le_antisymm h h')]

namespace ReleaseAttempt

theorem le_iff (a b : ReleaseAttempt) : a.le b = true ↔
    a.startingDate.le b.startingDate = true ∧
      (a.startingDate = b.startingDate → a.id.le b.id = true) := by
  unfold le
  split
  next h => simp [h, Instant.le_refl]
  next h => simp [h]

theorem le_refl (a : ReleaseAttempt) : a.le a = true := by
  simp [le_iff, Instant.le_refl, ResourceId.le]

theorem le_total (a b : ReleaseAttempt) : a.le b = true ∨ b.le a = true := by
  by_cases h : a.startingDate = b.startingDate
  · simpa [le_iff, h, Instant.le_refl, ResourceId.le] using Nat.le_total _ _
  · simpa [le_iff, h, Ne.symm h] using Instant.le_total _ _

theorem le_trans {a b c : ReleaseAttempt} (h : a.le b = true) (h' : b.le c = true) :
    a.le c = true := by
  rw [le_iff] at *
  refine ⟨Instant.le_trans h.1 h'.1, fun hac => ?_⟩
  have hab : a.startingDate = b.startingDate := Instant.le_antisymm h.1 (hac ▸ h'.1)
  have hid := h.2 hab
  have hid' := h'.2 (hab ▸ hac)
  simp only [ResourceId.le, decide_eq_true_eq] at *
  omega

/-- Attempts that come neither before nor after each other have one id. -/
theorem id_eq_of_le {a b : ReleaseAttempt} (h : a.le b = true) (h' : b.le a = true) :
    a.id = b.id := by
  rw [le_iff] at h h'
  have hd := Instant.le_antisymm h.1 h'.1
  exact ResourceId.le_antisymm (h.2 hd) (h'.2 hd.symm)

theorem le_later_left (a b : ReleaseAttempt) : a.le (later a b) = true := by
  unfold later
  split
  next h => exact h
  next => exact le_refl a

theorem le_later_right (a b : ReleaseAttempt) : b.le (later a b) = true := by
  unfold later
  split
  next => exact le_refl b
  next h => exact (le_total a b).resolve_left h

/-- Picking the later one again and again gives one of the attempts, after all others. -/
theorem foldl_later (l : List ReleaseAttempt) (a : ReleaseAttempt) :
    l.foldl later a ∈ a :: l ∧ ∀ b ∈ a :: l, b.le (l.foldl later a) = true := by
  induction l generalizing a with
  | nil => simp [le_refl]
  | cons c l ih =>
      obtain ⟨hmem, hle⟩ := ih (later a c)
      refine ⟨?_, ?_⟩
      · rcases List.mem_cons.mp hmem with h | h
        · rw [List.foldl_cons, h]
          unfold later
          split <;> simp
        · simp [h]
      · have hlast := hle _ List.mem_cons_self
        rintro b (_ | ⟨_, _ | ⟨_, hb⟩⟩)
        · exact le_trans (le_later_left a c) hlast
        · exact le_trans (le_later_right a c) hlast
        · exact hle b (List.mem_cons_of_mem _ hb)

theorem latest?_eq_none {l : List ReleaseAttempt} : latest? l = none ↔ l = [] := by
  cases l <;> simp [latest?]

theorem latest?_spec {l : List ReleaseAttempt} {a : ReleaseAttempt} (h : latest? l = some a) :
    a ∈ l ∧ ∀ b ∈ l, b.le a = true := by
  cases l with
  | nil => simp [latest?] at h
  | cons c l =>
      obtain rfl := Option.some.inj h
      exact foldl_later l c

end ReleaseAttempt

namespace Store

/-- Every attempt is stored under its own id. -/
def AttemptsKeyed (s : Store) : Prop :=
  ∀ id a, s.attempts.get? id = some a → a.id = id

theorem latestAttempt_eq_none (s : Store) (m : ResourceId) : s.latestAttempt m = none ↔
    ∀ id a, s.attempts.get? id = some a → a.milestone ≠ m := by
  simp only [latestAttempt, ReleaseAttempt.latest?_eq_none, List.filter_eq_nil_iff,
    Table.mem_values, decide_eq_true_eq]
  constructor
  · intro h id a ha
    exact h a ⟨id, ha⟩
  · rintro h a ⟨id, ha⟩
    exact h id a ha

theorem latestAttempt_spec {s : Store} {m : ResourceId} {a : ReleaseAttempt}
    (h : s.latestAttempt m = some a) :
    (∃ id, s.attempts.get? id = some a) ∧ a.milestone = m ∧
      ∀ id b, s.attempts.get? id = some b → b.milestone = m → b.le a = true := by
  obtain ⟨hmem, hle⟩ := ReleaseAttempt.latest?_spec h
  simp only [List.mem_filter, Table.mem_values, decide_eq_true_eq] at hmem hle
  exact ⟨hmem.1, hmem.2, fun id b hb hm => hle b ⟨⟨id, hb⟩, hm⟩⟩

/-- The latest attempt is the one after all others of its milestone. -/
theorem latestAttempt_eq_some {s : Store} (keyed : s.AttemptsKeyed) {id : ResourceId}
    {a : ReleaseAttempt} (ha : s.attempts.get? id = some a)
    (hle : ∀ id b, s.attempts.get? id = some b → b.milestone = a.milestone → b.le a = true) :
    s.latestAttempt a.milestone = some a := by
  cases hl : s.latestAttempt a.milestone with
  | none => exact absurd rfl ((latestAttempt_eq_none s _).mp hl id a ha)
  | some b =>
      obtain ⟨⟨id', hb⟩, hm, hlast⟩ := latestAttempt_spec hl
      have hid := ReleaseAttempt.id_eq_of_le (hle id' b hb hm) (hlast id a ha rfl)
      rw [keyed id' b hb, keyed id a ha] at hid
      rw [← ha, ← hb, hid]

end Store

end Foreman
