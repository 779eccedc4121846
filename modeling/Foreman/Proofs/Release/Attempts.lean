import Foreman.Proofs.Chronology

/-!
The stored attempts as releases go on: an attempt is stored when its release starts, after all
others of its milestone, and is replaced by closed versions of itself. So the attempt in progress, if
there is one, stays the latest of its milestone.
-/

namespace Foreman

namespace ReleaseAttempt

def IsClosed (a : ReleaseAttempt) : Prop := a.status ≠ .inProgress ∧ a.endDate.isSome = true

/-- Two versions of one attempt. -/
structure Revises (a b : ReleaseAttempt) : Prop where
  id_eq : a.id = b.id
  milestone_eq : a.milestone = b.milestone
  startingDate_eq : a.startingDate = b.startingDate

theorem Revises.refl (a : ReleaseAttempt) : a.Revises a := ⟨rfl, rfl, rfl⟩

theorem Revises.symm {a b : ReleaseAttempt} (h : a.Revises b) : b.Revises a :=
  ⟨h.id_eq.symm, h.milestone_eq.symm, h.startingDate_eq.symm⟩

theorem Revises.trans {a b c : ReleaseAttempt} (h : a.Revises b) (h' : b.Revises c) :
    a.Revises c :=
  ⟨h.id_eq.trans h'.id_eq, h.milestone_eq.trans h'.milestone_eq,
    h.startingDate_eq.trans h'.startingDate_eq⟩

theorem Revises.le {a b : ReleaseAttempt} (h : a.Revises b) (c : ReleaseAttempt) :
    a.le c = b.le c := by
  simp only [ReleaseAttempt.le, h.id_eq, h.startingDate_eq]

end ReleaseAttempt

namespace Store

/-- A version of the attempt is stored. -/
def Keeps (s : Store) (a : ReleaseAttempt) : Prop :=
  ∃ b, s.attempts.get? a.id = some b ∧ b.Revises a

/-- The attempt can be stored as the next one of its milestone: all others are over. -/
structure Lacks (s : Store) (a : ReleaseAttempt) : Prop where
  isNew : s.attempts.get? a.id = none
  isOpen : a.status = .inProgress ∧ a.endDate = none
  isNext : ∀ {id b}, s.attempts.get? id = some b → b.milestone = a.milestone →
    b.IsClosed ∧ b.le a = true

/-- What becomes of the attempts when `written` is saved, if anything is. -/
inductive Update (s : Store) : Option ReleaseAttempt → Store → Prop
  | keep {s'} (h : s'.attempts = s.attempts) : Update s none s'
  | save (a) : Update s (some a) (s.saveAttempt a)

variable {s s' : Store} {a b : ReleaseAttempt} {written : Option ReleaseAttempt}

theorem get?_saveAttempt (s : Store) (a : ReleaseAttempt) (id : ResourceId) :
    (s.saveAttempt a).attempts.get? id = if a.id = id then some a else s.attempts.get? id :=
  Table.get?_insert ..

theorem keeps_saved (s : Store) (a : ReleaseAttempt) : (s.saveAttempt a).Keeps a :=
  ⟨a, by rw [get?_saveAttempt, if_pos rfl], .refl a⟩

theorem Keeps.revise (h : s.Keeps a) (hrev : a.Revises b) : s.Keeps b := by
  obtain ⟨c, hc, hca⟩ := h
  exact ⟨c, hrev.id_eq ▸ hc, hca.trans hrev⟩

/-- An attempt that is stored was there before or is the one that was written. -/
theorem Update.get?_cases (h : s.Update written s') {id : ResourceId}
    (ha : s'.attempts.get? id = some a) :
    s.attempts.get? id = some a ∨ written = some a ∧ a.id = id := by
  cases h with
  | keep h => exact .inl (h ▸ ha)
  | save b =>
      rw [get?_saveAttempt] at ha
      split at ha
      next hid =>
        obtain rfl := Option.some.inj ha
        exact .inr ⟨rfl, hid⟩
      next => exact .inl ha

/-- Attempts are never removed. -/
theorem Update.get?_eq_none (h : s.Update written s') {id : ResourceId}
    (ha : s'.attempts.get? id = none) : s.attempts.get? id = none := by
  cases h with
  | keep h => rwa [h] at ha
  | save b =>
      rw [get?_saveAttempt] at ha
      split at ha
      · simp at ha
      · exact ha

theorem Keeps.update (ha : s.Keeps a) (h : s.Update written s')
    (hw : ∀ c ∈ written, s.Keeps c ∨ s.Lacks c) : s'.Keeps a := by
  obtain ⟨b, hb, hrev⟩ := ha
  cases h with
  | keep h => exact ⟨b, by rw [h, hb], hrev⟩
  | save c =>
      by_cases hid : c.id = a.id
      · refine ⟨c, by rw [get?_saveAttempt, if_pos hid], ?_⟩
        rcases hw c rfl with ⟨b', hb', hrev'⟩ | hlacks
        · obtain rfl : b = b' := Option.some.inj (hb.symm.trans (hid ▸ hb'))
          exact hrev'.symm.trans hrev
        · simp [← hid, hlacks.isNew] at hb
      · exact ⟨b, by rw [get?_saveAttempt, if_neg hid, hb], hrev⟩

/-- Closing another attempt or starting one of another milestone does not get in the way. -/
theorem Lacks.update (ha : s.Lacks a) (h : s.Update written s')
    (hw : ∀ c ∈ written, s.Keeps c ∧ c.IsClosed ∨ c.id ≠ a.id ∧ c.milestone ≠ a.milestone) :
    s'.Lacks a := by
  refine ⟨?_, ha.isOpen, fun hb hmile => ?_⟩
  · cases h with
    | keep h => rw [h, ha.isNew]
    | save c =>
        rw [get?_saveAttempt, if_neg, ha.isNew]
        intro hid
        rcases hw c rfl with ⟨⟨b, hb, _⟩, _⟩ | ⟨hne, _⟩
        · simp [hid, ha.isNew] at hb
        · exact hne hid
  · rcases h.get?_cases hb with hb | ⟨rfl, rfl⟩
    · exact ha.isNext hb hmile
    · rcases hw _ rfl with ⟨⟨b₀, hb₀, hrev⟩, hclosed⟩ | ⟨_, hne⟩
      · exact ⟨hclosed, by rw [← hrev.le]; exact (ha.isNext hb₀ (hrev.milestone_eq.trans hmile)).2⟩
      · exact absurd hmile hne

/-- Every stored attempt is kept under its id, has an end exactly if it is over, and is the last of
its milestone as long as it is not. It was started at one of `times` with one of `ids`. -/
structure Exclusive (s : Store) (times : List Instant) (ids : List ResourceId) : Prop where
  keyed : s.AttemptsKeyed
  ended : ∀ {id a}, s.attempts.get? id = some a →
    (a.endDate.isSome = true ↔ a.status ≠ .inProgress)
  last : ∀ {id a}, s.attempts.get? id = some a → a.status = .inProgress →
    ∀ {id' b}, s.attempts.get? id' = some b → b.milestone = a.milestone → b.le a = true
  started : ∀ {id a}, s.attempts.get? id = some a → a.startingDate ∈ times ∧ a.id ∈ ids

theorem exclusive_empty : Store.empty.Exclusive [] [] := by
  refine ⟨fun _ _ h => ?_, fun h => ?_, fun h => ?_, fun h => ?_⟩ <;> simp [Store.empty] at h

section Exclusive

variable {times times' : List Instant} {ids ids' : List ResourceId}

theorem Exclusive.mono (h : s.Exclusive times ids) (ht : times ⊆ times') (hi : ids ⊆ ids') :
    s.Exclusive times' ids' :=
  ⟨h.keyed, h.ended, h.last, fun ha => ⟨ht (h.started ha).1, hi (h.started ha).2⟩⟩

/-- A write either closes an attempt or stores the next one of a milestone. -/
theorem Exclusive.update (h : s.Exclusive times ids) (hu : s.Update written s')
    (hw : ∀ c ∈ written, s.Keeps c ∧ c.IsClosed ∨
      s.Lacks c ∧ c.startingDate ∈ times ∧ c.id ∈ ids) :
    s'.Exclusive times ids := by
  refine ⟨fun id a ha => ?_, fun ha => ?_, fun ha hopen id' b hb hmile => ?_, fun ha => ?_⟩
  · rcases hu.get?_cases ha with ha | ⟨_, hid⟩
    · exact h.keyed _ _ ha
    · exact hid
  · rcases hu.get?_cases ha with ha | ⟨rfl, _⟩
    · exact h.ended ha
    · rcases hw _ rfl with ⟨_, hclosed⟩ | ⟨hlacks, _⟩
      · simp [hclosed.1, hclosed.2]
      · simp [hlacks.isOpen.1, hlacks.isOpen.2]
  · rcases hu.get?_cases ha with ha | ⟨rfl, _⟩
    · rcases hu.get?_cases hb with hb | ⟨rfl, _⟩
      · exact h.last ha hopen hb hmile
      · rcases hw _ rfl with ⟨⟨b₀, hb₀, hrev⟩, _⟩ | ⟨hlacks, _⟩
        · rw [← hrev.le]
          exact h.last ha hopen hb₀ (hrev.milestone_eq.trans hmile)
        · exact absurd hopen (hlacks.isNext ha hmile.symm).1.1
    · rcases hw _ rfl with ⟨_, hclosed⟩ | ⟨hlacks, _⟩
      · exact absurd hopen hclosed.1
      · rcases hu.get?_cases hb with hb | ⟨heq, _⟩
        · exact (hlacks.isNext hb hmile).2
        · rw [Option.some.inj heq]
          exact ReleaseAttempt.le_refl b
  · rcases hu.get?_cases ha with ha | ⟨rfl, _⟩
    · exact h.started ha
    · rcases hw _ rfl with ⟨⟨b, hb, hrev⟩, _⟩ | ⟨_, hstarted⟩
      · rw [← hrev.startingDate_eq, ← hrev.id_eq]
        exact h.started hb
      · exact hstarted

/-- If no attempt of the milestone is in progress, one that is started later can be the next. -/
theorem Exclusive.lacks (h : s.Exclusive times ids)
    (idle : ∀ b, s.latestAttempt a.milestone = some b → b.status ≠ .inProgress)
    (ht : ∀ t ∈ times, t.le a.startingDate = true) (hi : ∀ i ∈ ids, i.bits < a.id.bits)
    (hopen : a.status = .inProgress ∧ a.endDate = none) : s.Lacks a := by
  refine ⟨?_, hopen, fun {id b} hb hmile => ⟨?_, ?_⟩⟩
  · cases hb : s.attempts.get? a.id with
    | none => rfl
    | some b =>
        have hlt := hi _ (h.started hb).2
        rw [h.keyed _ _ hb] at hlt
        exact absurd hlt (BitVec.lt_irrefl _)
  · have hover : b.status ≠ .inProgress := fun hb' => by
      have hlast := latestAttempt_eq_some h.keyed hb fun id' c hc hcm => h.last hb hb' hc hcm
      exact idle b (hmile ▸ hlast) hb'
    exact ⟨hover, (h.ended hb).mpr hover⟩
  · rw [ReleaseAttempt.le_iff]
    refine ⟨ht _ (h.started hb).1, fun _ => ?_⟩
    simp only [ResourceId.le, decide_eq_true_eq]
    exact Nat.le_of_lt (BitVec.lt_def.mp (hi _ (h.started hb).2))

end Exclusive

end Store

end Foreman
