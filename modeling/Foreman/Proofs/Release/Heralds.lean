import Foreman.Proofs.Release.Milestones

/-!
Who tells the clients of attempts. Whoever saves an attempt tells of it afterwards, once: a start when
the engine has answered it, a recording at once. Until then it owes the news.
-/

namespace Foreman

open Release

namespace Release

/-- Those who tell the clients of an attempt, once each. -/
inductive Herald where
  | start (k : Nat)
  | recording (k : Nat)
deriving DecidableEq

def StartPhase.announced? : StartPhase → Option ReleaseAttempt
  | .announcing a => some a
  | _ => none

def RecordingPhase.announced? : RecordingPhase → Option ReleaseAttempt
  | .announcing a _ => some a
  | _ => none

/-- Whether the start has saved an attempt that it has not told of yet. -/
def StartPhase.owesNews : StartPhase → Bool
  | .asking .. | .savingRefusal _ | .announcing _ => true
  | _ => false

def RecordingPhase.owesNews : RecordingPhase → Bool
  | .announcing .. => true
  | _ => false

/-- Whether the start may have told of its attempt. -/
def StartPhase.mayHaveTold : StartPhase → Bool
  | .announcing _ | .ended _ | .dropped => true
  | _ => false

def StartPhase.isOver : StartPhase → Bool
  | .ended _ | .dropped => true
  | _ => false

def RecordingPhase.isOver : RecordingPhase → Bool
  | .ended => true
  | _ => false

end Release

namespace ReleaseDesk

/-- The attempt that the herald is telling of. -/
def announced? (d : ReleaseDesk) : Herald → Option ReleaseAttempt
  | .start k => d.starts[k]?.bind (·.phase.announced?)
  | .recording k => d.recordings[k]?.bind (·.phase.announced?)

/-- The herald has saved an attempt of the milestone and has not told of it yet. -/
def OwesNews (d : ReleaseDesk) (milestone : ResourceId) : Herald → Prop
  | .start k => ∃ s, d.starts[k]? = some s ∧ s.milestone = milestone ∧ s.phase.owesNews = true
  | .recording k =>
    ∃ r, d.recordings[k]? = some r ∧ r.milestone = milestone ∧ r.phase.owesNews = true

def MayHaveTold (d : ReleaseDesk) : Herald → Prop
  | .start k => ∃ s, d.starts[k]? = some s ∧ s.phase.mayHaveTold = true
  | .recording k => ∃ r, d.recordings[k]? = some r ∧ r.phase.writer? = none

/-- The herald that is through with telling the clients. -/
def Event.told? : Event → Option Herald
  | .startAnnounced k => some (.start k)
  | .recordingAnnounced k _ => some (.recording k)
  | _ => none

/-- Repositories do not fail, and callers wait for their starts. -/
def Event.isSmooth : Event → Bool
  | .answerStart _ fault _ _ | .answerRecording _ fault _ => fault.isNone
  | .dropStart .. => false
  | _ => true

/-- No start of the milestone and no recording for it is under way. -/
def isQuiet (d : ReleaseDesk) (milestone : ResourceId) : Bool :=
  d.starts.all (fun s => s.milestone ≠ milestone || s.phase.isOver) &&
    d.recordings.all fun r => r.milestone ≠ milestone || r.phase.isOver

/-- The status of the latest attempt to release the milestone. -/
def status? (d : ReleaseDesk) (milestone : ResourceId) : Option AttemptStatus :=
  (d.store.latestAttempt milestone).map (·.status)

section Step

variable {d b d' : ReleaseDesk} {k : Nat} {e : Event} {s : Start} {r : Recording}
  {p : StartPhase} {q : RecordingPhase} {m : ResourceId} {x : Herald} {ids : List ResourceId}

/-- How a start goes on. -/
theorem start_step (h : d.step e = some d') (hs : d.starts[k]? = some s) :
    ∃ p, d'.starts[k]? = some { s with phase := p } ∧
      (p = s.phase ∨ ∃ b, StartStep d k s e b p) := by
  rcases step_cases h with ⟨j, s', b, p, hj, step, rfl⟩ | ⟨j, r, b, q, hj, step, rfl⟩ | step
  · by_cases hk : k = j
    · subst hk
      obtain rfl : s = s' := Option.some.inj (hs.symm.trans hj)
      exact ⟨p, getElem?_withStart_self (step.starts_eq ▸ hs), .inr ⟨b, step⟩⟩
    · exact ⟨s.phase, by rw [getElem?_withStart_of_ne _ _ hk, step.starts_eq, hs], .inl rfl⟩
  · exact ⟨s.phase, by rw [starts_withRecording, step.frame.1, hs], .inl rfl⟩
  · exact ⟨s.phase, step.starts_kept hs, .inl rfl⟩

theorem recording_step (h : d.step e = some d') (hr : d.recordings[k]? = some r) :
    ∃ q, d'.recordings[k]? = some { r with phase := q } ∧
      (q = r.phase ∨ ∃ b, RecordingStep d k r e b q) := by
  rcases step_cases h with ⟨j, s, b, p, hj, step, rfl⟩ | ⟨j, r', b, q, hj, step, rfl⟩ | step
  · exact ⟨r.phase, by rw [recordings_withStart, step.recordings_eq, hr], .inl rfl⟩
  · by_cases hk : k = j
    · subst hk
      obtain rfl : r = r' := Option.some.inj (hr.symm.trans hj)
      exact ⟨q, getElem?_withRecording_self (step.frame.2.2 ▸ hr), .inr ⟨b, step⟩⟩
    · exact ⟨r.phase, by rw [getElem?_withRecording_of_ne _ _ hk, step.frame.2.2, hr], .inl rfl⟩
  · exact ⟨r.phase, step.recordings_kept hr, .inl rfl⟩

/-- A start that has saved its attempt goes on to tell of it. -/
theorem StartStep.owesNews (h : StartStep d k s e b p) (owes : s.phase.owesNews = true)
    (smooth : e.isSmooth = true) : p.owesNews = true ∨ e.told? = some (.start k) := by
  cases h with
  | close | accept | refuse => exact .inl rfl
  | announced => exact .inr rfl
  | closeFails | dropIdle | dropChecking | dropUnsaved | dropSaved | dropOpen | dropClosed =>
      simp [Event.isSmooth] at smooth
  | lookupFails h | unknown h | beaten h | mark h | checkFails h | occupied h | proceed h
  | saveFails h | enroll h => simp [h, StartPhase.owesNews] at owes

theorem RecordingStep.told (h : RecordingStep d k r e b q) (owes : r.phase.owesNews = true) :
    e.told? = some (.recording k) := by
  cases h with
  | announced => rfl
  | lost h | describe h | fail h | passage h | find h | miss h | close h | closeFails h
  | findRecord h | missRecord h | saveRecord h | saveMilestone h | findVersion h | passVersion h
  | saveVersion h => simp [h, RecordingPhase.owesNews] at owes

theorem OwesNews.step (h : d.OwesNews m x) (hs : d.step e = some d') (smooth : e.isSmooth = true) :
    d'.OwesNews m x ∨ e.told? = some x := by
  cases x with
  | start k =>
      obtain ⟨s, hk, hm, owes⟩ := h
      obtain ⟨p, hk', rfl | ⟨b, step⟩⟩ := start_step hs hk
      · exact .inl ⟨_, hk', hm, owes⟩
      · exact (step.owesNews owes smooth).imp_left fun owes' => ⟨_, hk', hm, owes'⟩
  | recording k =>
      obtain ⟨r, hk, hm, owes⟩ := h
      obtain ⟨q, hk', rfl | ⟨b, step⟩⟩ := recording_step hs hk
      · exact .inl ⟨_, hk', hm, owes⟩
      · exact .inr (step.told owes)

theorem StartStep.mayHaveTold (h : StartStep d k s e b p) (told : s.phase.mayHaveTold = true) :
    p.mayHaveTold = true := by
  cases h with
  | announced | dropIdle => rfl
  | lookupFails h | unknown h | beaten h | mark h | checkFails h | occupied h | proceed h
  | saveFails h | enroll h | closeFails h | close h | accept h | refuse h | dropChecking h
  | dropUnsaved h | dropSaved h | dropOpen h | dropClosed h =>
      simp [h, StartPhase.mayHaveTold] at told

theorem MayHaveTold.step (h : d.MayHaveTold x) (hs : d.step e = some d') : d'.MayHaveTold x := by
  cases x with
  | start k =>
      obtain ⟨s, hk, told⟩ := h
      obtain ⟨p, hk', rfl | ⟨b, step⟩⟩ := start_step hs hk
      · exact ⟨_, hk', told⟩
      · exact ⟨_, hk', step.mayHaveTold told⟩
  | recording k =>
      obtain ⟨r, hk, told⟩ := h
      obtain ⟨q, hk', rfl | ⟨b, step⟩⟩ := recording_step hs hk
      · exact ⟨_, hk', told⟩
      · refine ⟨_, hk', ?_⟩
        rcases step.writer_cases with hq | ⟨hq, -⟩
        · exact hq
        · exact hq.trans told

theorem mayHaveTold_of_announced {a : ReleaseAttempt} (h : d.announced? x = some a) :
    d.MayHaveTold x := by
  cases x with
  | start k =>
      obtain ⟨s, hs, ha⟩ := Option.bind_eq_some_iff.mp h
      refine ⟨s, hs, ?_⟩
      cases hp : s.phase <;> simp_all [StartPhase.announced?, StartPhase.mayHaveTold]
  | recording k =>
      obtain ⟨r, hr, ha⟩ := Option.bind_eq_some_iff.mp h
      refine ⟨r, hr, ?_⟩
      cases hp : r.phase <;> simp_all [RecordingPhase.announced?, RecordingPhase.writer?]

/-- A herald that owes news of the milestone tells of an attempt of it. -/
theorem OwesNews.milestone (h : d.OwesNews m x) (placed : d.Placed) {a : ReleaseAttempt}
    (ha : d.announced? x = some a) : a.milestone = m := by
  cases x with
  | start k =>
      obtain ⟨s, hs, rfl, -⟩ := h
      obtain ⟨s', hs', ha⟩ := Option.bind_eq_some_iff.mp ha
      obtain rfl : s = s' := Option.some.inj (hs.symm.trans hs')
      have known := placed.starts hs
      cases hp : s.phase <;> simp_all [StartPhase.announced?, StartPhase.Placed]
  | recording k =>
      obtain ⟨r, hr, rfl, -⟩ := h
      obtain ⟨r', hr', ha⟩ := Option.bind_eq_some_iff.mp ha
      obtain rfl : r = r' := Option.some.inj (hr.symm.trans hr')
      have known := (placed.recordings hr).held
      cases hp : r.phase <;> simp_all [RecordingPhase.announced?, RecordingPhase.attempt?]

/-- A start that saves its attempt has not told of it before, and owes the news afterwards. -/
theorem StartStep.saves (h : StartStep d k s e b p) (smooth : e.isSmooth = true)
    {w : Writer × ReleaseAttempt} (hp : s.phase.saving? = some w) (hw : d.saving? e = some w) :
    s.phase.mayHaveTold = false ∧ p.owesNews = true := by
  cases h with
  | enroll h | close h => exact ⟨by rw [h]; rfl, rfl⟩
  | saveFails | closeFails => simp [saving?] at hw
  | dropIdle | dropChecking | dropUnsaved | dropSaved | dropOpen | dropClosed =>
      simp [Event.isSmooth] at smooth
  | lookupFails h | unknown h | beaten h | mark h | checkFails h | occupied h | proceed h | accept h
  | refuse h | announced h => simp [h, StartPhase.saving?] at hp

theorem RecordingStep.saves (h : RecordingStep d k r e b q) {w : Writer × ReleaseAttempt}
    (hp : r.phase.saving? = some w) (hw : d.saving? e = some w) :
    r.phase.writer? ≠ none ∧ q.owesNews = true := by
  cases h with
  | close h => exact ⟨by simp [h, RecordingPhase.writer?], rfl⟩
  | closeFails => simp [saving?] at hw
  | lost h | describe h | fail h | passage h | find h | miss h | announced h | findRecord h
  | missRecord h | saveRecord h | saveMilestone h | findVersion h | passVersion h
  | saveVersion h => simp [h, RecordingPhase.saving?] at hp

/-- Whoever changes the latest attempt of a milestone owes the news of it, and has told nothing. -/
theorem latestAttempt_step (filed : d.Filed ids) (placed : d.Placed)
    (keyed : d'.store.AttemptsKeyed) (h : d.step e = some d') (smooth : e.isSmooth = true)
    (m : ResourceId) :
    d'.store.latestAttempt m = d.store.latestAttempt m ∨
      ∃ x, d'.OwesNews m x ∧ ¬d.MayHaveTold x := by
  by_cases saved : ∃ a ∈ d.written? e, a.milestone = m
  · obtain ⟨a, ha, rfl⟩ := saved
    obtain ⟨w, hw, rfl⟩ := Option.map_eq_some_iff.mp ha
    refine .inr ?_
    rcases step_cases h with ⟨k, s, b, p, hk, step, rfl⟩ | ⟨k, r, b, q, hk, step, rfl⟩ | step
    · obtain ⟨hn, -⟩ | ⟨w', hw', hp, -⟩ := step.store_cases hk
      · simp [hn] at hw
      · obtain rfl : w = w' := Option.some.inj (hw.symm.trans hw')
        obtain ⟨silent, owes⟩ := step.saves smooth hp hw
        refine ⟨.start k, ⟨_, getElem?_withStart_self (step.starts_eq ▸ hk),
          (placed.start_saving filed hk hp).2.symm, owes⟩, ?_⟩
        rintro ⟨s', hs', told⟩
        obtain rfl : s = s' := Option.some.inj (hk.symm.trans hs')
        simp [silent] at told
    · obtain ⟨hn, -⟩ | ⟨w', hw', hp, -⟩ := step.store_cases hk
      · simp [hn] at hw
      · obtain rfl : w = w' := Option.some.inj (hw.symm.trans hw')
        obtain ⟨coming, owes⟩ := step.saves hp hw
        refine ⟨.recording k, ⟨_, getElem?_withRecording_self (step.frame.2.2 ▸ hk),
          (placed.recording_saving filed hk hp).2.symm, owes⟩, ?_⟩
        rintro ⟨r', hr', told⟩
        obtain rfl : r = r' := Option.some.inj (hk.symm.trans hr')
        exact coming told
    · simp [step.store_eq.1] at hw
  · refine .inl (Store.latestAttempt_update keyed (step_update h) fun c hc => ?_)
    exact ⟨placed.admits filed c hc, fun hm => saved ⟨c, hc, hm⟩⟩

end Step

end ReleaseDesk

end Foreman
