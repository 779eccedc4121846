import Foreman.Proofs.Release.Attempts
import Foreman.Proofs.Release.Marks

/-!
What is saved of attempts: a start saves its attempt twice at most, a recording once, and nobody
else saves any.
-/

namespace Foreman

open Release

namespace Release

/-- On whose behalf an attempt is saved: the start of its release, the refusal of the engine to start
it, or one of its two reports. -/
inductive Writer where
  | start
  | refusal
  | result
  | failure
deriving DecidableEq

/-- The writer of a report, by what comes after the attempt. -/
def Writer.report : Option (Milestone × ReleaseResult) → Writer
  | some _ => result
  | none => failure

/-- The attempt that is being saved, and for whom. -/
def StartPhase.saving? : StartPhase → Option (Writer × ReleaseAttempt)
  | .savingAttempt _ a => some (.start, a)
  | .savingRefusal a => some (.refusal, a)
  | _ => none

def RecordingPhase.saving? : RecordingPhase → Option (Writer × ReleaseAttempt)
  | .savingAttempt a after => some (.report after, a)
  | _ => none

end Release

namespace ReleaseDesk

/-- The attempt that the event saves, and for whom. -/
def saving? (d : ReleaseDesk) : Event → Option (Writer × ReleaseAttempt)
  | .answerStart k none _ _ | .dropStart k true => d.starts[k]?.bind (·.phase.saving?)
  | .answerRecording k none _ => d.recordings[k]?.bind (·.phase.saving?)
  | _ => none

theorem saving?_cases {d : ReleaseDesk} {e : Event} {w : Writer × ReleaseAttempt}
    (h : d.saving? e = some w) :
    (∃ (k : Nat) (s : Start), d.starts[k]? = some s ∧ s.phase.saving? = some w) ∨
      ∃ (k : Nat) (r : Recording), d.recordings[k]? = some r ∧ r.phase.saving? = some w := by
  unfold saving? at h
  split at h
  next => exact .inl ⟨_, Option.bind_eq_some_iff.mp h⟩
  next => exact .inl ⟨_, Option.bind_eq_some_iff.mp h⟩
  next => exact .inr ⟨_, Option.bind_eq_some_iff.mp h⟩
  next => simp at h

def written? (d : ReleaseDesk) (e : Event) : Option ReleaseAttempt := (d.saving? e).map (·.2)

section Store

variable {d b : ReleaseDesk} {k : Nat} {e : Event}

theorem StartStep.store_cases {s : Start} {p : StartPhase} (h : StartStep d k s e b p)
    (hs : d.starts[k]? = some s) :
    d.saving? e = none ∧ b.store = d.store ∨
      ∃ w, d.saving? e = some w ∧ s.phase.saving? = some w ∧
        b.store = d.store.saveAttempt w.2 := by
  have answer {now id} : d.saving? (.answerStart k none now id) = s.phase.saving? := by
    simp [saving?, hs]
  have drop : d.saving? (.dropStart k true) = s.phase.saving? := by
    simp [saving?, hs]
  cases h with
  | lookupFails | checkFails | saveFails | closeFails | accept | refuse | announced | dropUnsaved
  | dropOpen => exact .inl ⟨rfl, rfl⟩
  | unknown h | beaten h | mark h | occupied h | proceed h =>
      exact .inl ⟨by rw [answer, h]; rfl, rfl⟩
  | enroll h | close h => exact .inr ⟨_, by rw [answer, h]; rfl, by rw [h]; rfl, rfl⟩
  | dropSaved h | dropClosed h => exact .inr ⟨_, by rw [drop, h]; rfl, by rw [h]; rfl, rfl⟩
  | @dropChecking m landed h =>
      cases landed with
      | false => exact .inl ⟨rfl, rfl⟩
      | true => exact .inl ⟨by rw [drop, h]; rfl, rfl⟩
  | @dropIdle landed h =>
      cases landed with
      | false => exact .inl ⟨rfl, rfl⟩
      | true =>
          refine .inl ⟨?_, rfl⟩
          rcases h with h | ⟨a, call, r, h⟩ | ⟨a, h⟩ <;> rw [drop, h] <;> rfl

theorem RecordingStep.store_cases {r : Recording} {p : RecordingPhase}
    (h : RecordingStep d k r e b p) (hr : d.recordings[k]? = some r) :
    d.saving? e = none ∧ b.store.attempts = d.store.attempts ∨
      ∃ w, d.saving? e = some w ∧ r.phase.saving? = some w ∧
        b.store = d.store.saveAttempt w.2 := by
  have answer {fault now} (hw : r.phase.saving? = none) :
      d.saving? (.answerRecording k fault now) = none := by
    cases fault <;> simp [saving?, hr, hw]
  cases h with
  | @close a after now h =>
      refine .inr ⟨(.report after, a), ?_, by rw [h]; rfl, rfl⟩
      simp [saving?, hr, h, RecordingPhase.saving?]
  | lost h | describe h | fail h | passage h | find h | findRecord h | missRecord h | findVersion h
  | passVersion h => exact .inl ⟨answer (by rw [h]; rfl), rfl⟩
  | saveRecord h | saveMilestone h | saveVersion h =>
      exact .inl ⟨answer (by rw [h]; rfl), by split <;> rfl⟩
  | @miss text s after fault now h =>
      refine .inl ⟨answer (by rw [h]; rfl), ?_⟩
      rcases fst_turn d r now after with h | h
      · rw [h]
      · rw [h]
        rfl
  | @closeFails a after f now h | @announced a after now h =>
      refine .inl ⟨rfl, ?_⟩
      rcases fst_turn d r now after with h | h
      · rw [h]
      · rw [h]
        rfl

/-- What a start writes is what it was about to save. -/
theorem StartStep.written_cases {s : Start} {p : StartPhase} (h : StartStep d k s e b p)
    (hs : d.starts[k]? = some s) {a : ReleaseAttempt} (ha : d.written? e = some a) :
    ∃ w, s.phase.saving? = some (w, a) := by
  rcases h.store_cases hs with ⟨hn, _⟩ | ⟨w, hw, hp, _⟩
  · simp [written?, hn] at ha
  · obtain rfl : w.2 = a := by simpa [written?, hw] using ha
    exact ⟨w.1, hp⟩

theorem RecordingStep.written_cases {r : Recording} {p : RecordingPhase}
    (h : RecordingStep d k r e b p) (hr : d.recordings[k]? = some r) {a : ReleaseAttempt}
    (ha : d.written? e = some a) : ∃ w, r.phase.saving? = some (w, a) := by
  rcases h.store_cases hr with ⟨hn, _⟩ | ⟨w, hw, hp, _⟩
  · simp [written?, hn] at ha
  · obtain rfl : w.2 = a := by simpa [written?, hw] using ha
    exact ⟨w.1, hp⟩

theorem OtherStep.store_eq {d' : ReleaseDesk} (h : OtherStep d e d') :
    d.saving? e = none ∧ d'.store.attempts = d.store.attempts := by
  cases h <;> exact ⟨rfl, rfl⟩

end Store

/-- Every step saves the attempt that it writes, and no other. -/
theorem step_update {d d' : ReleaseDesk} {e : Event} (h : d.step e = some d') :
    d.store.Update (d.written? e) d'.store := by
  unfold written?
  rcases step_cases h with ⟨k, s, b, p, hk, step, rfl⟩ | ⟨k, r, b, p, hk, step, rfl⟩ | step
  · rcases step.store_cases hk with ⟨hw, hb⟩ | ⟨w, hw, _, hb⟩ <;> rw [hw, store_withStart, hb]
    · exact .keep rfl
    · exact .save w.2
  · rcases step.store_cases hk with ⟨hw, hb⟩ | ⟨w, hw, _, hb⟩ <;> rw [hw, store_withRecording]
    · exact .keep hb
    · rw [hb]
      exact .save w.2
  · rw [step.store_eq.1]
    exact .keep step.store_eq.2

end ReleaseDesk

end Foreman
