import Foreman.Proofs.Release.Writes

/-!
Releases exclude each other: a milestone has at most one attempt in progress, and that attempt is its
latest. A start excludes others by its mark until its attempt is saved, and from then on by that
attempt; whatever is saved later closes an attempt.
-/

namespace Foreman

open Release

namespace Release

/-- The attempt that a start holds from making it until it is done with it. -/
def StartPhase.attempt? : StartPhase → Option ReleaseAttempt
  | .savingAttempt _ a | .asking a _ _ | .savingRefusal a => some a
  | _ => none

/-- What a start knows of its attempt: it is the next one of its milestone, or it is stored. -/
def StartPhase.Sound (s : Store) (milestone : ResourceId) : StartPhase → Prop
  | .savingAttempt _ a => a.milestone = milestone ∧ s.Lacks a
  | .asking a _ _ => s.Keeps a
  | .savingRefusal a => s.Keeps a ∧ a.IsClosed
  | _ => True

def RecordingPhase.Sound (s : Store) (attempt : ResourceId) : RecordingPhase → Prop
  | .findingAttempt _ status _ => status ≠ .inProgress
  | .savingAttempt a _ => a.id = attempt ∧ s.Keeps a ∧ a.IsClosed
  | _ => True

section Sound

variable {s s' : Store} {w : Option ReleaseAttempt}

theorem StartPhase.Sound.update {milestone : ResourceId} {p : StartPhase}
    (h : p.Sound s milestone) (hu : s.Update w s')
    (hw : ∀ c ∈ w, s.Keeps c ∧ c.IsClosed ∨ s.Lacks c ∧
      (p.HoldsMark → c.milestone ≠ milestone ∧ ∀ a ∈ p.attempt?, c.id ≠ a.id)) :
    p.Sound s' milestone := by
  have kept {a : ReleaseAttempt} (ha : s.Keeps a) : s'.Keeps a :=
    ha.update hu fun c hc => (hw c hc).imp (·.1) (·.1)
  cases p with
  | savingAttempt m a =>
      refine ⟨h.1, h.2.update hu fun c hc => (hw c hc).imp id fun hc => ?_⟩
      obtain ⟨hmile, hid⟩ := hc.2 trivial
      exact ⟨hid a rfl, h.1.symm ▸ hmile⟩
  | asking a call r => exact kept h
  | savingRefusal a => exact ⟨kept h.1, h.2⟩
  | findingMilestone | checkingLatest | announcing | ended | dropped => trivial

theorem RecordingPhase.Sound.update {attempt : ResourceId} {p : RecordingPhase}
    (h : p.Sound s attempt) (hu : s.Update w s') (hw : ∀ c ∈ w, s.Keeps c ∨ s.Lacks c) :
    p.Sound s' attempt := by
  cases p with
  | savingAttempt a after => exact ⟨h.1, h.2.1.update hu hw, h.2.2⟩
  | findingAttempt => exact h
  | findingMilestone | describing | announcing | findingRecord | savingRecord | savingMilestone
  | findingVersion | savingVersion | ended => trivial

end Sound

end Release

namespace ReleaseDesk

/-- The ids that the event generates. -/
def generated (d : ReleaseDesk) : Event → List ResourceId
  | .answerStart k none _ id =>
    match d.starts[k]? with
    | some ⟨milestone, _, .checkingLatest _⟩ => if d.isInProgress milestone then [] else [id]
    | _ => []
  | _ => []

/-- No start and no recording gets in the way of the attempts that are stored or about to be, all of
them made at one of `times` with one of `ids`. -/
structure Sound (d : ReleaseDesk) (times : List Instant) (ids : List ResourceId) : Prop where
  rows : d.store.Exclusive times ids
  marks : d.Marked
  starts : ∀ {k : Nat} {s : Start}, d.starts[k]? = some s → s.phase.Sound d.store s.milestone
  recordings : ∀ {k : Nat} {r : Recording}, d.recordings[k]? = some r →
    r.phase.Sound d.store r.attempt
  started : ∀ {k : Nat} {s : Start} {a : ReleaseAttempt}, d.starts[k]? = some s →
    s.phase.attempt? = some a → a.startingDate ∈ times ∧ a.id ∈ ids
  distinct : ∀ {k k' : Nat} {s s' : Start} {a a' : ReleaseAttempt}, d.starts[k]? = some s →
    d.starts[k']? = some s' → s.phase.attempt? = some a → s'.phase.attempt? = some a' →
    a.id = a'.id → k = k'

theorem sound_empty (process : String) (callbackBase : Option String) :
    (ReleaseDesk.empty process callbackBase).Sound [] [] where
  rows := Store.exclusive_empty
  marks := marked_empty process callbackBase
  starts h := by simp [ReleaseDesk.empty] at h
  recordings h := by simp [ReleaseDesk.empty] at h
  started h := by simp [ReleaseDesk.empty] at h
  distinct h := by simp [ReleaseDesk.empty] at h

theorem revises_refusedAttempt (a : ReleaseAttempt) (now : Instant) :
    a.Revises (refusedAttempt a now) := ⟨rfl, rfl, rfl⟩

theorem revises_closedAttempt (a : ReleaseAttempt) (text : String) (status : AttemptStatus)
    (now : Instant) : a.Revises (closedAttempt a text status now) := ⟨rfl, rfl, rfl⟩

theorem isInProgress_eq_false {d : ReleaseDesk} {milestone : ResourceId}
    (h : d.isInProgress milestone = false) :
    ∀ a, d.store.latestAttempt milestone = some a → a.status ≠ .inProgress := by
  intro a ha
  simpa [isInProgress, ha] using h

section Step

variable {d b : ReleaseDesk} {k : Nat} {e : Event} {s : Start} {p : StartPhase}
  {times : List Instant} {ids : List ResourceId}

theorem generated_proceed {m : Milestone} {now : Instant} {id : ResourceId}
    (hs : d.starts[k]? = some s) (h : s.phase = .checkingLatest m)
    (idle : d.isInProgress s.milestone = false) :
    d.generated (.answerStart k none now id) = [id] := by
  obtain ⟨milestone, token, phase⟩ := s
  subst h
  simp [generated, hs, idle]

/-- A start holds on to its attempt, or it makes a new one. -/
theorem StartStep.attempt_cases (h : StartStep d k s e b p) (hs : d.starts[k]? = some s)
    {a : ReleaseAttempt} (ha : p.attempt? = some a) :
    (∃ a₀, s.phase.attempt? = some a₀ ∧ a₀.Revises a) ∨
      e.now? = some a.startingDate ∧ d.generated e = [a.id] := by
  cases h with
  | proceed h idle =>
      obtain rfl := Option.some.inj ha
      exact .inr ⟨rfl, generated_proceed hs h idle⟩
  | enroll h =>
      obtain rfl := Option.some.inj ha
      exact .inl ⟨_, by rw [h]; rfl, .refl _⟩
  | refuse h =>
      obtain rfl := Option.some.inj ha
      exact .inl ⟨_, by rw [h]; rfl, revises_refusedAttempt ..⟩
  | lookupFails | unknown | beaten | mark | checkFails | occupied | saveFails | closeFails | close
  | accept | announced | dropIdle | dropChecking | dropUnsaved | dropSaved | dropOpen
  | dropClosed => simp [StartPhase.attempt?] at ha

/-- A start goes on knowing of its attempt what it should. -/
theorem StartStep.sound (h : StartStep d k s e b p) (hd : d.Sound times ids)
    (hs : d.starts[k]? = some s) (ht : ∀ now ∈ e.now?, ∀ t ∈ times, t.le now = true)
    (hi : ∀ id ∈ d.generated e, ∀ i ∈ ids, i.bits < id.bits) : p.Sound b.store s.milestone := by
  cases h with
  | @proceed m now id h idle =>
      rw [generated_proceed hs h idle] at hi
      exact ⟨rfl, hd.rows.lacks (isInProgress_eq_false idle) (ht now rfl)
        (hi id List.mem_cons_self) ⟨rfl, rfl⟩⟩
  | enroll h => exact Store.keeps_saved ..
  | refuse h =>
      have hkeeps := hd.starts hs
      rw [h] at hkeeps
      exact ⟨Store.Keeps.revise hkeeps (revises_refusedAttempt ..), by simp [refusedAttempt], rfl⟩
  | lookupFails | unknown | beaten | mark | checkFails | occupied | saveFails | closeFails | close
  | accept | announced | dropIdle | dropChecking | dropUnsaved | dropSaved | dropOpen
  | dropClosed => trivial

/-- What a start saves is the next attempt of the milestone that it marked, or closes one. -/
theorem Sound.start_saving (hd : d.Sound times ids) (hs : d.starts[k]? = some s)
    {w : Writer × ReleaseAttempt} (hw : s.phase.saving? = some w) :
    w.1 = .start ∧ d.store.Lacks w.2 ∧ s.phase.attempt? = some w.2 ∧ s.phase.HoldsMark ∧
      w.2.milestone = s.milestone ∨ w.1 = .refusal ∧ d.store.Keeps w.2 ∧ w.2.IsClosed := by
  have sound := hd.starts hs
  cases hp : s.phase with
  | savingAttempt m a =>
      obtain rfl : (.start, a) = w := by simpa [hp, StartPhase.saving?] using hw
      rw [hp] at sound
      exact .inl ⟨rfl, sound.2, rfl, trivial, sound.1⟩
  | savingRefusal a =>
      obtain rfl : (.refusal, a) = w := by simpa [hp, StartPhase.saving?] using hw
      rw [hp] at sound
      exact .inr ⟨rfl, sound⟩
  | findingMilestone | checkingLatest | asking | announcing | ended | dropped =>
      simp [hp, StartPhase.saving?] at hw

theorem Sound.recording_saving {r : Recording} (hd : d.Sound times ids)
    (hr : d.recordings[k]? = some r) {w : Writer × ReleaseAttempt}
    (hw : r.phase.saving? = some w) :
    w.1 ≠ .start ∧ w.2.id = r.attempt ∧ d.store.Keeps w.2 ∧ w.2.IsClosed := by
  have sound := hd.recordings hr
  cases hp : r.phase with
  | savingAttempt a after =>
      obtain rfl : (Writer.report after, a) = w := by simpa [hp, RecordingPhase.saving?] using hw
      rw [hp] at sound
      exact ⟨by cases after <;> simp [Writer.report], sound⟩
  | findingMilestone | describing | findingAttempt | announcing | findingRecord | savingRecord
  | savingMilestone | findingVersion | savingVersion | ended =>
      simp [hp, RecordingPhase.saving?] at hw

theorem Sound.saving_cases (hd : d.Sound times ids) {w : Writer} {a : ReleaseAttempt}
    (hw : d.saving? e = some (w, a)) :
    w = .start ∧ d.store.Lacks a ∨ w ≠ .start ∧ d.store.Keeps a ∧ a.IsClosed := by
  rcases saving?_cases hw with ⟨k, s, hs, hw⟩ | ⟨k, r, hr, hw⟩
  · rcases hd.start_saving hs hw with ⟨hstart, hlacks, _⟩ | ⟨hrefusal, hkeeps⟩
    · exact .inl ⟨hstart, hlacks⟩
    · obtain rfl : w = .refusal := hrefusal
      exact .inr ⟨by decide, hkeeps⟩
  · obtain ⟨hne, _, hkeeps⟩ := hd.recording_saving hr hw
    exact .inr ⟨hne, hkeeps⟩

/-- Describing a result takes a recording to its attempt, which the result closes. -/
theorem describe_sound (store : Store) (attempt : ResourceId) (m : Milestone)
    (result : ReleaseResult) (text : String) (ahead : List Passage) :
    (describe m result text ahead).Sound store attempt := by
  fun_induction describe m result text ahead with
  | case1 text ahead ih => exact ih
  | case2 text =>
      cases h : result.status <;> simp [RecordingPhase.Sound, ReleaseStatus.attemptStatus]
  | case3 text ahead => trivial

theorem nextRecord_sound (store : Store) (attempt : ResourceId) (m : Milestone) (now : Instant)
    (ahead : List BuildImport) : (nextRecord m now ahead).Sound store attempt := by
  cases ahead <;> trivial

theorem turn_sound (store : Store) (attempt : ResourceId) (d : ReleaseDesk) (r : Recording)
    (now : Instant) (after : Option (Milestone × ReleaseResult)) :
    (d.turn r now after).2.Sound store attempt := by
  cases after with
  | none => trivial
  | some p => exact nextRecord_sound ..

theorem RecordingStep.sound {r : Recording} {p : RecordingPhase}
    (h : RecordingStep d k r e b p) (hd : d.Sound times ids) (hr : d.recordings[k]? = some r) :
    p.Sound b.store r.attempt := by
  have sound := hd.recordings hr
  cases h with
  | find h ha =>
      rename_i text status after a fault now
      rw [h] at sound
      have ha := found_eq_some ha
      have hid := hd.rows.keyed _ _ ha
      have hover : status ≠ .inProgress := sound
      exact ⟨hid, Store.Keeps.revise ⟨a, by rw [hid, ha], .refl a⟩ (revises_closedAttempt ..), hover,
        by rw [closedAttempt, if_neg hover]; rfl⟩
  | describe | passage => exact describe_sound ..
  | fail => simp [RecordingPhase.Sound]
  | miss | closeFails | announced => exact turn_sound ..
  | missRecord | saveRecord => exact nextRecord_sound ..
  | lost | close | findRecord | saveMilestone | findVersion | passVersion | saveVersion => trivial

theorem Sound.startStep (hd : d.Sound times ids) (hs : d.starts[k]? = some s)
    (h : StartStep d k s e b p) (ht : ∀ now ∈ e.now?, ∀ t ∈ times, t.le now = true)
    (hi : ∀ id ∈ d.generated e, ∀ i ∈ ids, i.bits < id.bits)
    (hu : d.store.Update (d.written? e) b.store) :
    (b.withStart k p).Sound (times ++ e.now?.toList) (ids ++ d.generated e) := by
  -- A start writes a closed attempt over a stored one, or a new one under its mark.
  have write : ∀ c ∈ d.written? e, d.store.Keeps c ∧ c.IsClosed ∨ d.store.Lacks c ∧
      s.phase.attempt? = some c ∧ s.phase.HoldsMark ∧ c.milestone = s.milestone := by
    intro c hc
    obtain ⟨w, hw⟩ := h.written_cases hs hc
    exact (hd.start_saving hs hw).symm.imp (·.2) (·.2)
  -- Its attempt was known before, or it has the time and the id of this step.
  have startedBy {a : ReleaseAttempt} (ha : p.attempt? = some a) :
      a.startingDate ∈ times ++ e.now?.toList ∧ a.id ∈ ids ++ d.generated e := by
    rcases h.attempt_cases hs ha with ⟨a₀, ha₀, hrev⟩ | ⟨hnow, hid⟩
    · rw [← hrev.startingDate_eq, ← hrev.id_eq]
      exact (hd.started hs ha₀).imp (List.mem_append_left _) (List.mem_append_left _)
    · simp [hnow, hid]
  -- An id that is made in this step is above those of all other starts.
  have apart {j : Nat} {s' : Start} {a a' : ReleaseAttempt} (hj : d.starts[j]? = some s')
      (ha : p.attempt? = some a) (ha' : s'.phase.attempt? = some a') (hid : a.id = a'.id) :
      k = j := by
    rcases h.attempt_cases hs ha with ⟨a₀, ha₀, hrev⟩ | ⟨_, hnew⟩
    · exact hd.distinct hs hj ha₀ ha' (hrev.id_eq.trans hid)
    · have hlt := hi a.id (by simp [hnew]) _ (hd.started hj ha').2
      exact absurd hlt (by rw [hid]; exact BitVec.lt_irrefl _)
  refine ⟨?_, hd.marks.startStep hs h, fun hj => ?_, fun hr => ?_, fun hj ha => ?_,
    fun hj hj' ha ha' hid => ?_⟩
  · refine (hd.rows.mono (List.subset_append_left ..) (List.subset_append_left ..)).update hu ?_
    intro c hc
    refine (write c hc).imp id fun ⟨hlacks, hheld, _⟩ => ⟨hlacks, ?_⟩
    exact (hd.started hs hheld).imp (List.mem_append_left _) (List.mem_append_left _)
  · rcases h.starts_cases hs hj with ⟨rfl, rfl⟩ | ⟨hne, hd'⟩
    · exact h.sound hd hs ht hi
    · refine (hd.starts hd').update hu fun c hc => (write c hc).imp id ?_
      rintro ⟨hlacks, hheld, hmark, hmile⟩
      refine ⟨hlacks, fun hmark' => ⟨fun heq => ?_, fun a ha hid => ?_⟩⟩
      · exact hne (hd.marks.alone hd' hs hmark' hmark (heq.symm.trans hmile))
      · exact hne (hd.distinct hd' hs ha hheld hid.symm)
  · rw [recordings_withStart, h.recordings_eq] at hr
    exact (hd.recordings hr).update hu fun c hc => (write c hc).imp (·.1) (·.1)
  · rcases h.starts_cases hs hj with ⟨rfl, rfl⟩ | ⟨_, hd'⟩
    · exact startedBy ha
    · exact (hd.started hd' ha).imp (List.mem_append_left _) (List.mem_append_left _)
  · rcases h.starts_cases hs hj with ⟨rfl, rfl⟩ | ⟨_, hd₁⟩
    · rcases h.starts_cases hs hj' with ⟨rfl, rfl⟩ | ⟨_, hd₂⟩
      · rfl
      · exact apart hd₂ ha ha' hid
    · rcases h.starts_cases hs hj' with ⟨rfl, rfl⟩ | ⟨_, hd₂⟩
      · exact (apart hd₁ ha' ha hid.symm).symm
      · exact hd.distinct hd₁ hd₂ ha ha' hid

end Step

/-- Steps that leave the starts alone, but for new ones, and write nothing but closed attempts. -/
theorem Sound.congr {d d' : ReleaseDesk} {w : Option ReleaseAttempt} {times times' : List Instant}
    {ids ids' : List ResourceId} (hd : d.Sound times ids) (ht : times ⊆ times')
    (hi : ids ⊆ ids') (marks : d'.Marked) (hu : d.store.Update w d'.store)
    (hw : ∀ c ∈ w, d.store.Keeps c ∧ c.IsClosed)
    (starts : ∀ {j : Nat} {s : Start}, d'.starts[j]? = some s →
      d.starts[j]? = some s ∨ s.phase = .findingMilestone)
    (recordings : ∀ {j : Nat} {r : Recording}, d'.recordings[j]? = some r →
      r.phase.Sound d'.store r.attempt) : d'.Sound times' ids' := by
  have held {j : Nat} {s : Start} {a : ReleaseAttempt} (hj : d'.starts[j]? = some s)
      (ha : s.phase.attempt? = some a) : d.starts[j]? = some s := by
    rcases starts hj with hj | hnew
    · exact hj
    · simp [hnew, StartPhase.attempt?] at ha
  refine ⟨?_, marks, fun hj => ?_, recordings, fun hj ha => ?_, fun hj hj' ha ha' => ?_⟩
  · exact (hd.rows.mono ht hi).update hu fun c hc => .inl (hw c hc)
  · rcases starts hj with hj | hnew
    · exact (hd.starts hj).update hu fun c hc => .inl (hw c hc)
    · rw [hnew]
      trivial
  · exact (hd.started (held hj ha) ha).imp (@ht _) (@hi _)
  · exact hd.distinct (held hj ha) (held hj' ha') ha ha'

/-- Recordings may begin with other steps. -/
theorem OtherStep.recording_cases {d d' : ReleaseDesk} {e : Event} (h : OtherStep d e d')
    {j : Nat} {r : Recording} (hr : d'.recordings[j]? = some r) :
    d.recordings[j]? = some r ∨ ∃ report, r.phase = .findingMilestone report := by
  cases h with
  | result | failure =>
      rcases getElem?_concat_cases hr with hr | ⟨_, rfl⟩
      · exact .inl hr
      · exact .inr ⟨_, rfl⟩
  | beginStart | unmatched | unrecorded | abandon | register | withdraw | edit => exact .inl hr

theorem Sound.step {d d' : ReleaseDesk} {e : Event} {times : List Instant}
    {ids : List ResourceId} (hd : d.Sound times ids) (h : d.step e = some d')
    (ht : ∀ now ∈ e.now?, ∀ t ∈ times, t.le now = true)
    (hi : ∀ id ∈ d.generated e, ∀ i ∈ ids, i.bits < id.bits) :
    d'.Sound (times ++ e.now?.toList) (ids ++ d.generated e) := by
  have hu := step_update h
  have marks := hd.marks.step h
  have hts : times ⊆ times ++ e.now?.toList := List.subset_append_left ..
  have his : ids ⊆ ids ++ d.generated e := List.subset_append_left ..
  rcases step_cases h with ⟨k, s, b, p, hk, step, rfl⟩ | ⟨k, r, b, p, hk, step, rfl⟩ | step
  · exact hd.startStep hk step ht hi hu
  · have write : ∀ c ∈ d.written? e, d.store.Keeps c ∧ c.IsClosed := by
      intro c hc
      obtain ⟨w, hw⟩ := step.written_cases hk hc
      exact (hd.recording_saving hk hw).2.2
    refine hd.congr hts his marks hu write (fun hj => .inl ?_) fun hj => ?_
    · rwa [starts_withRecording, step.frame.1] at hj
    · rcases step.recordings_cases hk hj with ⟨rfl, rfl⟩ | ⟨_, hj'⟩
      · exact step.sound hd hk
      · exact (hd.recordings hj').update hu fun c hc => .inl (write c hc).1
  · have hn := step.store_eq.1
    refine hd.congr hts his marks hu (fun c hc => ?_) step.start_cases fun hj => ?_
    · simp [written?, hn] at hc
    · rcases step.recording_cases hj with hj' | ⟨report, hnew⟩
      · exact (hd.recordings hj').update hu fun c hc => by simp [written?, hn] at hc
      · rw [hnew]
        trivial

/-- The clock never goes back along the events, and the ids that they generate grow. -/
structure Orderly (d : ReleaseDesk) (es : List Event) : Prop where
  clock : (es.filterMap Event.now?).Pairwise fun t u => t.le u = true
  growing : (notes ReleaseDesk.step generated d es).Pairwise fun i j => i.bits < j.bits

theorem Orderly.of_append {d₀ d : ReleaseDesk} {es es' : List Event}
    (h : d₀.Orderly (es ++ es')) (run : Run ReleaseDesk.step d₀ es d) : d₀.Orderly es := by
  obtain ⟨clock, growing⟩ := h
  rw [notes_append generated run] at growing
  rw [List.filterMap_append] at clock
  exact ⟨(List.pairwise_append.mp clock).1, (List.pairwise_append.mp growing).1⟩

/-- The last event of an orderly run comes after all others. -/
theorem Orderly.last {d₀ d d' : ReleaseDesk} {es : List Event} {e : Event}
    (h : d₀.Orderly (es ++ [e])) (run : Run ReleaseDesk.step d₀ es d) (hs : d.step e = some d') :
    (∀ now ∈ e.now?, ∀ t ∈ es.filterMap Event.now?, t.le now = true) ∧
      ∀ id ∈ d.generated e, ∀ i ∈ notes ReleaseDesk.step generated d₀ es, i.bits < id.bits := by
  obtain ⟨clock, growing⟩ := h
  rw [notes_snoc generated run hs] at growing
  rw [List.filterMap_append] at clock
  refine ⟨fun now hnow t ht => ?_, fun id hid i hi => ?_⟩
  · exact (List.pairwise_append.mp clock).2.2 t ht now (by simpa using hnow)
  · exact (List.pairwise_append.mp growing).2.2 i hi id hid

theorem sound_of_run {process : String} {callbackBase : Option String} {es : List Event}
    {d : ReleaseDesk} (run : Run ReleaseDesk.step (.empty process callbackBase) es d)
    (orderly : (ReleaseDesk.empty process callbackBase).Orderly es) :
    d.Sound (es.filterMap Event.now?)
      (notes ReleaseDesk.step generated (.empty process callbackBase) es) := by
  induction run with
  | nil => exact sound_empty process callbackBase
  | @snoc es d d' e before last ih =>
      have htail : [e].filterMap Event.now? = e.now?.toList := by
        cases h : e.now? <;> simp [h]
      rw [notes_snoc generated before last, List.filterMap_append, htail]
      obtain ⟨ht, hi⟩ := orderly.last before last
      exact (ih (orderly.of_append before)).step last ht hi

/-- At most one attempt of a milestone is in progress, and that one is the latest of the milestone;
an attempt has an end exactly if it is not in progress. -/
theorem inProgress_unique_and_latest {process : String} {callbackBase : Option String}
    {es : List Event} {d : ReleaseDesk}
    (run : Run ReleaseDesk.step (.empty process callbackBase) es d)
    (orderly : (ReleaseDesk.empty process callbackBase).Orderly es) :
    (∀ id a, d.store.attempts.get? id = some a → a.status = .inProgress →
      d.store.latestAttempt a.milestone = some a ∧
        ∀ id' b, d.store.attempts.get? id' = some b → b.milestone = a.milestone →
          b.status = .inProgress → id' = id) ∧
      ∀ id a, d.store.attempts.get? id = some a →
        (a.endDate.isSome = true ↔ a.status ≠ .inProgress) := by
  have rows := (sound_of_run run orderly).rows
  have latest {id a} (ha : d.store.attempts.get? id = some a) (hopen : a.status = .inProgress) :
      d.store.latestAttempt a.milestone = some a :=
    Store.latestAttempt_eq_some rows.keyed ha fun _ _ hb hmile => rows.last ha hopen hb hmile
  refine ⟨fun id a ha hopen => ⟨latest ha hopen, fun id' b hb hmile hopen' => ?_⟩,
    fun id a ha => rows.ended ha⟩
  have hab : b = a := by
    have := latest hb hopen'
    rw [hmile, latest ha hopen] at this
    exact (Option.some.inj this).symm
  rw [← rows.keyed _ _ ha, ← rows.keyed _ _ hb, hab]

/-- Two starts of one milestone that overlap. -/
def overlap (now : Instant) : List Event := [
  .edit .empty (Table.empty.insert ⟨7⟩ ⟨⟨7⟩, "1.0", ⟨1⟩, none, none⟩) .empty .empty,
  .beginStart ⟨7⟩ "token",
  .beginStart ⟨7⟩ "token",
  .answerStart 0 none now ⟨20⟩,
  .answerStart 1 none now ⟨20⟩,
  .answerStart 0 none now ⟨20⟩,
  .answerStart 0 none now ⟨21⟩]

theorem overlap_runs :
    ((overlap noon).foldlM ReleaseDesk.step (.empty "release" none)).isSome = true := by decide

theorem inProgress_after_overlap :
    ∃ d : ReleaseDesk, Run ReleaseDesk.step (.empty "release" none) (overlap noon) d ∧
      ∃ a, d.store.attempts.get? ⟨20⟩ = some a ∧ a.status = .inProgress ∧
        d.store.latestAttempt a.milestone = some a := by
  have run := Run.iff_foldlM.mpr (Option.some_get overlap_runs).symm
  refine ⟨_, run, firstAttempt ⟨20⟩ ⟨7⟩ noon, by decide, rfl, ?_⟩
  exact ((inProgress_unique_and_latest run ⟨by decide, by decide⟩).1 ⟨20⟩ _ (by decide) rfl).1

end ReleaseDesk

end Foreman
