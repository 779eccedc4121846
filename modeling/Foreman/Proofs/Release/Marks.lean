import Foreman.Proofs.Lists
import Foreman.Proofs.Release.Steps

/-!
The marks of milestones that are being started. A start holds the mark of its milestone from winning
it until its attempt is saved or the start is over, and at no time do two starts hold one mark.
-/

namespace Foreman

namespace Release

def StartPhase.HoldsMark : StartPhase → Prop
  | .checkingLatest _ | .savingAttempt _ _ => True
  | _ => False

end Release

open Release

namespace ReleaseDesk

@[simp] theorem starting_withStart (d : ReleaseDesk) (k : Nat) (p : StartPhase) :
    (d.withStart k p).starting = d.starting := rfl

@[simp] theorem store_withStart (d : ReleaseDesk) (k : Nat) (p : StartPhase) :
    (d.withStart k p).store = d.store := rfl

@[simp] theorem recordings_withStart (d : ReleaseDesk) (k : Nat) (p : StartPhase) :
    (d.withStart k p).recordings = d.recordings := rfl

@[simp] theorem starting_withRecording (d : ReleaseDesk) (k : Nat) (p : RecordingPhase) :
    (d.withRecording k p).starting = d.starting := rfl

@[simp] theorem store_withRecording (d : ReleaseDesk) (k : Nat) (p : RecordingPhase) :
    (d.withRecording k p).store = d.store := rfl

@[simp] theorem starts_withRecording (d : ReleaseDesk) (k : Nat) (p : RecordingPhase) :
    (d.withRecording k p).starts = d.starts := rfl

/-- Only the start with number `k` takes another phase. -/
theorem withStart_cases {d : ReleaseDesk} {k j : Nat} {p : StartPhase} {s s' : Start}
    (hs : d.starts[k]? = some s) (h : (d.withStart k p).starts[j]? = some s') :
    j = k ∧ s' = { s with phase := p } ∨ j ≠ k ∧ d.starts[j]? = some s' := by
  by_cases hj : k = j
  · subst hj
    exact .inl ⟨rfl, by simpa [withStart, hs, eq_comm] using h⟩
  · exact .inr ⟨Ne.symm hj, by simpa [withStart, List.getElem?_modify, hj] using h⟩

theorem withRecording_cases {d : ReleaseDesk} {k j : Nat} {p : RecordingPhase} {r r' : Recording}
    (hr : d.recordings[k]? = some r) (h : (d.withRecording k p).recordings[j]? = some r') :
    j = k ∧ r' = { r with phase := p } ∨ j ≠ k ∧ d.recordings[j]? = some r' := by
  by_cases hj : k = j
  · subst hj
    exact .inl ⟨rfl, by simpa [withRecording, hr, eq_comm] using h⟩
  · exact .inr ⟨Ne.symm hj, by simpa [withRecording, List.getElem?_modify, hj] using h⟩

theorem getElem?_withStart_self {d : ReleaseDesk} {k : Nat} {p : StartPhase} {s : Start}
    (h : d.starts[k]? = some s) : (d.withStart k p).starts[k]? = some { s with phase := p } := by
  simp [withStart, h]

theorem getElem?_withStart_of_ne (d : ReleaseDesk) {j k : Nat} (p : StartPhase) (h : j ≠ k) :
    (d.withStart k p).starts[j]? = d.starts[j]? := by
  simp [withStart, Ne.symm h]

theorem getElem?_withRecording_self {d : ReleaseDesk} {k : Nat} {p : RecordingPhase}
    {r : Recording} (h : d.recordings[k]? = some r) :
    (d.withRecording k p).recordings[k]? = some { r with phase := p } := by
  simp [withRecording, h]

theorem getElem?_withRecording_of_ne (d : ReleaseDesk) {j k : Nat} (p : RecordingPhase)
    (h : j ≠ k) : (d.withRecording k p).recordings[j]? = d.recordings[j]? := by
  simp [withRecording, Ne.symm h]

section StartStep

variable {d b : ReleaseDesk} {k : Nat} {s : Start} {e : Event} {p : StartPhase}

theorem StartStep.starts_eq (h : StartStep d k s e b p) : b.starts = d.starts := by
  cases h <;> rfl

/-- Other starts are as before. -/
theorem StartStep.starts_cases (h : StartStep d k s e b p) (hs : d.starts[k]? = some s) {j : Nat}
    {s' : Start} (hj : (b.withStart k p).starts[j]? = some s') :
    j = k ∧ s' = { s with phase := p } ∨ j ≠ k ∧ d.starts[j]? = some s' := by
  rw [← h.starts_eq] at hs ⊢
  exact withStart_cases hs hj

theorem StartStep.recordings_eq (h : StartStep d k s e b p) : b.recordings = d.recordings := by
  cases h <;> rfl

/-- A step of a start keeps the mark as it is, wins it, or lets go of it. -/
theorem StartStep.mark_cases (h : StartStep d k s e b p) :
    b.starting = d.starting ∧ (p.HoldsMark ↔ s.phase.HoldsMark) ∨
      b.starting = s.milestone :: d.starting ∧ s.milestone ∉ d.starting ∧
        ¬s.phase.HoldsMark ∧ p.HoldsMark ∨
      b.starting = d.starting.filter (· ≠ s.milestone) ∧ s.phase.HoldsMark ∧ ¬p.HoldsMark := by
  cases h with
  | mark h _ free => exact .inr (.inl ⟨rfl, free, by simp [h, StartPhase.HoldsMark], trivial⟩)
  | checkFails h => exact .inr (.inr ⟨rfl, by simp [h, StartPhase.HoldsMark], id⟩)
  | occupied h => exact .inr (.inr ⟨rfl, by simp [h, StartPhase.HoldsMark], id⟩)
  | saveFails h => exact .inr (.inr ⟨rfl, by simp [h, StartPhase.HoldsMark], id⟩)
  | enroll h => exact .inr (.inr ⟨rfl, by simp [h, StartPhase.HoldsMark], id⟩)
  | dropChecking h => exact .inr (.inr ⟨rfl, by simp [h, StartPhase.HoldsMark], id⟩)
  | dropUnsaved h => exact .inr (.inr ⟨rfl, by simp [h, StartPhase.HoldsMark], id⟩)
  | dropSaved h => exact .inr (.inr ⟨rfl, by simp [h, StartPhase.HoldsMark], id⟩)
  | dropIdle h =>
      refine .inl ⟨rfl, ?_⟩
      rcases h with h | ⟨a, call, r, h⟩ | ⟨a, h⟩ <;> simp [h, StartPhase.HoldsMark]
  | lookupFails h => exact .inl ⟨rfl, by simp [h, StartPhase.HoldsMark]⟩
  | unknown h => exact .inl ⟨rfl, by simp [h, StartPhase.HoldsMark]⟩
  | beaten h => exact .inl ⟨rfl, by simp [h, StartPhase.HoldsMark]⟩
  | proceed h => exact .inl ⟨rfl, by simp [h, StartPhase.HoldsMark]⟩
  | closeFails h => exact .inl ⟨rfl, by simp [h, StartPhase.HoldsMark]⟩
  | close h => exact .inl ⟨rfl, by simp [h, StartPhase.HoldsMark]⟩
  | accept h => exact .inl ⟨rfl, by simp [h, StartPhase.HoldsMark]⟩
  | refuse h => exact .inl ⟨rfl, by simp [h, StartPhase.HoldsMark]⟩
  | announced h => exact .inl ⟨rfl, by simp [h, StartPhase.HoldsMark]⟩
  | dropOpen h => exact .inl ⟨rfl, by simp [h, StartPhase.HoldsMark]⟩
  | dropClosed h => exact .inl ⟨rfl, by simp [h, StartPhase.HoldsMark]⟩

end StartStep

section RecordingStep

variable {d b : ReleaseDesk} {k : Nat} {r : Recording} {e : Event} {p : RecordingPhase}

theorem fst_turn (d : ReleaseDesk) (r : Recording) (now : Instant)
    (after : Option (Milestone × ReleaseResult)) :
    (d.turn r now after).1 = d ∨ (d.turn r now after).1 = d.forget r.correlation := by
  cases after
  · exact .inr rfl
  · exact .inl rfl

theorem RecordingStep.frame (h : RecordingStep d k r e b p) :
    b.starts = d.starts ∧ b.starting = d.starting ∧ b.recordings = d.recordings := by
  cases h with
  | miss | closeFails | announced =>
      rcases fst_turn d r ‹_› ‹_› with h | h <;> rw [h] <;> exact ⟨rfl, rfl, rfl⟩
  | saveRecord | saveMilestone | saveVersion => split <;> exact ⟨rfl, rfl, rfl⟩
  | lost | describe | fail | passage | find | close | findRecord | missRecord | findVersion
  | passVersion => exact ⟨rfl, rfl, rfl⟩

/-- Other recordings are as before. -/
theorem RecordingStep.recordings_cases (h : RecordingStep d k r e b p)
    (hr : d.recordings[k]? = some r) {j : Nat} {r' : Recording}
    (hj : (b.withRecording k p).recordings[j]? = some r') :
    j = k ∧ r' = { r with phase := p } ∨ j ≠ k ∧ d.recordings[j]? = some r' := by
  rw [← h.frame.2.2] at hr ⊢
  exact withRecording_cases hr hj

end RecordingStep

theorem OtherStep.starting_eq {d d' : ReleaseDesk} {e : Event} (h : OtherStep d e d') :
    d'.starting = d.starting := by
  cases h <;> rfl

/-- Other steps let starts alone, but one may begin. -/
theorem OtherStep.start_cases {d d' : ReleaseDesk} {e : Event} (h : OtherStep d e d') {j : Nat}
    {s : Start} (hs : d'.starts[j]? = some s) :
    d.starts[j]? = some s ∨ s.phase = .findingMilestone := by
  cases h with
  | beginStart =>
      rcases getElem?_concat_cases hs with hs | ⟨_, rfl⟩
      · exact .inl hs
      · exact .inr rfl
  | unmatched | unrecorded | result | failure | abandon | register | withdraw | edit =>
      exact .inl hs

/-- The milestones that are marked as starting are those of the starts that hold a mark, and no two
starts hold the same one. -/
structure Marked (d : ReleaseDesk) : Prop where
  marked : ∀ {k : Nat} {s : Start}, d.starts[k]? = some s → s.phase.HoldsMark →
    s.milestone ∈ d.starting
  alone : ∀ {k k' : Nat} {s s' : Start}, d.starts[k]? = some s → d.starts[k']? = some s' →
    s.phase.HoldsMark → s'.phase.HoldsMark → s.milestone = s'.milestone → k = k'

theorem marked_empty (process : String) (callbackBase : Option String) :
    (ReleaseDesk.empty process callbackBase).Marked :=
  ⟨fun h => by simp [ReleaseDesk.empty] at h, fun h => by simp [ReleaseDesk.empty] at h⟩

/-- If a step lets go of no mark and nobody else takes one, the marks stay as they are. -/
theorem Marked.congr {d d' : ReleaseDesk} (h : d.Marked) (starting : d'.starting = d.starting)
    (starts : ∀ {j : Nat} {s : Start}, d'.starts[j]? = some s → s.phase.HoldsMark →
      ∃ s₀ : Start, d.starts[j]? = some s₀ ∧ s₀.milestone = s.milestone ∧ s₀.phase.HoldsMark) :
    d'.Marked where
  marked hs hm := by
    obtain ⟨s₀, hs₀, hmile, hm₀⟩ := starts hs hm
    rw [starting, ← hmile]
    exact h.marked hs₀ hm₀
  alone hs hs' hm hm' heq := by
    obtain ⟨s₀, hs₀, hmile, hm₀⟩ := starts hs hm
    obtain ⟨s₁, hs₁, hmile', hm₁⟩ := starts hs' hm'
    exact h.alone hs₀ hs₁ hm₀ hm₁ (by rw [hmile, heq, hmile'])

theorem Marked.startStep {d b : ReleaseDesk} {k : Nat} {s : Start} {e : Event} {p : StartPhase}
    (h : d.Marked) (hs : d.starts[k]? = some s) (step : StartStep d k s e b p) :
    (b.withStart k p).Marked := by
  rcases step.mark_cases with ⟨heq, hiff⟩ | ⟨heq, hfree, _, _⟩ | ⟨heq, hheld, hgone⟩
  · refine h.congr heq fun hj hm => ?_
    rcases step.starts_cases hs hj with ⟨rfl, rfl⟩ | ⟨_, hj⟩
    · exact ⟨s, hs, rfl, hiff.mp hm⟩
    · exact ⟨_, hj, rfl, hm⟩
  · have foreign {j : Nat} {s' : Start} (hj : d.starts[j]? = some s') (hm : s'.phase.HoldsMark) :
        s'.milestone ≠ s.milestone := fun hmile => hfree (hmile ▸ h.marked hj hm)
    refine ⟨fun hj hm => ?_, fun hj hj' hm hm' hmile => ?_⟩
    · rw [starting_withStart, heq]
      rcases step.starts_cases hs hj with ⟨rfl, rfl⟩ | ⟨_, hj⟩
      · exact List.mem_cons_self
      · exact List.mem_cons_of_mem _ (h.marked hj hm)
    · rcases step.starts_cases hs hj with ⟨rfl, rfl⟩ | ⟨_, hd⟩
      · rcases step.starts_cases hs hj' with ⟨rfl, rfl⟩ | ⟨_, hd'⟩
        · rfl
        · exact absurd hmile.symm (foreign hd' hm')
      · rcases step.starts_cases hs hj' with ⟨rfl, rfl⟩ | ⟨_, hd'⟩
        · exact absurd hmile (foreign hd hm)
        · exact h.alone hd hd' hm hm' hmile
  · refine ⟨fun hj hm => ?_, fun hj hj' hm hm' hmile => ?_⟩
    · rcases step.starts_cases hs hj with ⟨rfl, rfl⟩ | ⟨hne, hj⟩
      · exact absurd hm hgone
      · rw [starting_withStart, heq, List.mem_filter]
        exact ⟨h.marked hj hm, by simpa using fun hmile => hne (h.alone hj hs hm hheld hmile)⟩
    · rcases step.starts_cases hs hj with ⟨rfl, rfl⟩ | ⟨_, hj⟩
      · exact absurd hm hgone
      · rcases step.starts_cases hs hj' with ⟨rfl, rfl⟩ | ⟨_, hj'⟩
        · exact absurd hm' hgone
        · exact h.alone hj hj' hm hm' hmile

theorem Marked.step {d d' : ReleaseDesk} {e : Event} (h : d.Marked) (hs : d.step e = some d') :
    d'.Marked := by
  rcases step_cases hs with ⟨k, s, b, p, hk, step, rfl⟩ | ⟨k, r, b, p, _, step, rfl⟩ | step
  · exact h.startStep hk step
  · obtain ⟨starts, starting, _⟩ := step.frame
    refine h.congr starting fun hj hm => ⟨_, ?_, rfl, hm⟩
    rw [← starts]
    exact hj
  · refine h.congr step.starting_eq fun hj hm => ?_
    rcases step.start_cases hj with hj | hnew
    · exact ⟨_, hj, rfl, hm⟩
    · simp [hnew, StartPhase.HoldsMark] at hm

end ReleaseDesk

end Foreman
