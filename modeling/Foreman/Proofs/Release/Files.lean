import Foreman.Proofs.Release.Writers

/-!
What the desk can rely on whatever the clock says: a milestone or an attempt that someone works
with is stored, the listeners and the recordings of an attempt go by its own correlation id, and
nothing that is saved over a stored attempt is in progress.
-/

namespace Foreman

open Release

namespace Store

def HasMilestone (s : Store) (id : ResourceId) : Prop := ∃ m, s.milestones.get? id = some m

def HasAttempt (s : Store) (id : ResourceId) : Prop := ∃ a, s.attempts.get? id = some a

def MilestonesKeyed (s : Store) : Prop := ∀ id m, s.milestones.get? id = some m → m.id = id

/-- Milestones and attempts that were stored still are. -/
structure Grows (s s' : Store) : Prop where
  milestones : ∀ {id}, s.HasMilestone id → s'.HasMilestone id
  attempts : ∀ {id}, s.HasAttempt id → s'.HasAttempt id

variable {s s' : Store}

theorem Grows.refl (s : Store) : s.Grows s := ⟨id, id⟩

theorem Update.hasAttempt {w : Option ReleaseAttempt} (h : s.Update w s') {id : ResourceId}
    (ha : s.HasAttempt id) : s'.HasAttempt id := by
  cases hrow : s'.attempts.get? id with
  | some a => exact ⟨a, hrow⟩
  | none =>
      obtain ⟨a, ha⟩ := ha
      rw [h.get?_eq_none hrow] at ha
      simp at ha

theorem HasMilestone.save {id : ResourceId} (h : s.HasMilestone id) (m : Milestone) :
    (s.saveMilestone m).HasMilestone id := by
  by_cases hid : m.id = id
  · exact ⟨m, hid ▸ s.milestones.get?_insert_self ..⟩
  · obtain ⟨m', hm'⟩ := h
    exact ⟨m', (s.milestones.get?_insert_of_ne hid _).trans hm'⟩

theorem MilestonesKeyed.save (h : s.MilestonesKeyed) (m : Milestone) :
    (s.saveMilestone m).MilestonesKeyed := by
  intro id m' hm'
  obtain ⟨hid, rfl⟩ | ⟨-, hm'⟩ := Table.get?_insert_cases hm'
  · exact hid
  · exact h id m' hm'

end Store

namespace Release

/-- What a start can rely on, the ids in `ids` being those generated so far. Its attempt is not
stored before it saves it, and is stored afterwards. -/
def StartPhase.Filed (s : Store) (ids : List ResourceId) : StartPhase → Prop
  | .checkingLatest m => s.HasMilestone m.id
  | .savingAttempt m a => s.HasMilestone m.id ∧ s.attempts.get? a.id = none ∧ a.id ∈ ids
  | .asking a _ r => r.correlation = .ofResource a.id ∧ s.HasAttempt a.id
  | .savingRefusal a => a.status ≠ .inProgress ∧ s.HasAttempt a.id
  | _ => True

/-- A recording saves a version of its attempt that is over. -/
def RecordingPhase.Filed (attempt : ResourceId) : RecordingPhase → Prop
  | .findingAttempt _ status _ => status ≠ .inProgress
  | .savingAttempt a _ => a.id = attempt ∧ a.status ≠ .inProgress
  | _ => True

/-- A recording goes by the id of its attempt, and finds its milestone and its attempt. -/
structure Recording.Filed (s : Store) (r : Recording) : Prop where
  correlation : r.correlation = .ofResource r.attempt
  milestone : s.HasMilestone r.milestone
  attempt : s.HasAttempt r.attempt
  phase : r.phase.Filed r.attempt

def Listener.Filed (s : Store) (id : CorrelationId) : Listener → Prop
  | .result m a | .failure m a => id = .ofResource a ∧ s.HasMilestone m ∧ s.HasAttempt a
  | .guest _ => True

section Grows

variable {s s' : Store} {ids ids' : List ResourceId}

theorem StartPhase.Filed.grow {p : StartPhase} (h : p.Filed s ids) (grows : s.Grows s')
    (hids : ids ⊆ ids')
    (absent : ∀ m a, p = .savingAttempt m a → s'.attempts.get? a.id = none) :
    p.Filed s' ids' := by
  cases p with
  | checkingLatest m => exact grows.milestones h
  | savingAttempt m a => exact ⟨grows.milestones h.1, absent m a rfl, hids h.2.2⟩
  | asking a call r => exact ⟨h.1, grows.attempts h.2⟩
  | savingRefusal a => exact ⟨h.1, grows.attempts h.2⟩
  | findingMilestone | announcing | ended | dropped => trivial

theorem Recording.Filed.grow {r : Recording} (h : r.Filed s) (grows : s.Grows s') : r.Filed s' :=
  ⟨h.correlation, grows.milestones h.milestone, grows.attempts h.attempt, h.phase⟩

theorem Listener.Filed.grow {l : Listener} {id : CorrelationId} (h : l.Filed s id)
    (grows : s.Grows s') : l.Filed s' id := by
  cases l with
  | result m a => exact ⟨h.1, grows.milestones h.2.1, grows.attempts h.2.2⟩
  | failure m a => exact ⟨h.1, grows.milestones h.2.1, grows.attempts h.2.2⟩
  | guest n => trivial

end Grows

/-- Where a recording knows its attempt to be closed it is not in progress. -/
theorem RecordingPhase.Sound.filed {s : Store} {attempt : ResourceId} {p : RecordingPhase}
    (h : p.Sound s attempt) : p.Filed attempt := by
  cases p with
  | findingAttempt text status after => exact h
  | savingAttempt a after => exact ⟨h.1, h.2.2.1⟩
  | findingMilestone | describing | announcing | findingRecord | savingRecord | savingMilestone
  | findingVersion | savingVersion | ended => trivial

end Release

namespace ReleaseDesk

/-- The ids under which an edit by others leaves no milestone of that id, though one was filed there
or is. -/
def misfiled (d : ReleaseDesk) : Event → List ResourceId
  | .edit _ milestones _ _ => (d.store.milestones.keys ++ milestones.keys).filter fun id =>
      (milestones.get? id).map (·.id) ≠ some id
  | _ => []

section Step

variable {d b d' : ReleaseDesk} {k : Nat} {e : Event} {ids ids' : List ResourceId}

theorem milestone_of_edit {versions : Table ResourceId ProductVersion}
    {milestones : Table ResourceId Milestone} {records : Table ResourceId BuildRecord}
    {artifacts : Table ResourceId Artifact}
    (kept : d.misfiled (.edit versions milestones records artifacts) = []) {id : ResourceId}
    (h : id ∈ d.store.milestones.keys ∨ id ∈ milestones.keys) :
    ∃ m, milestones.get? id = some m ∧ m.id = id := by
  have := List.filter_eq_nil_iff.mp kept id (List.mem_append.mpr h)
  simpa using this

theorem StartStep.milestones_eq {s : Start} {p : StartPhase} (h : StartStep d k s e b p) :
    b.store.milestones = d.store.milestones := by
  cases h <;> rfl

/-- A recording saves its milestone, if it saves any. -/
theorem RecordingStep.milestones_cases {r : Recording} {p : RecordingPhase}
    (h : RecordingStep d k r e b p) : b.store.milestones = d.store.milestones ∨
      ∃ m, b.store.milestones = (d.store.saveMilestone m).milestones := by
  cases h with
  | @miss text s after fault now | @closeFails a after f now | @announced a after now =>
      rcases fst_turn d r now after with h | h <;> rw [h] <;> exact .inl rfl
  | @saveMilestone m fault now =>
      split
      · exact .inr ⟨m, rfl⟩
      · exact .inl rfl
  | saveRecord | saveVersion => split <;> exact .inl rfl
  | lost | describe | fail | passage | find | close | findRecord | missRecord | findVersion
  | passVersion => exact .inl rfl

/-- No step takes away a milestone or an attempt, unless others misfile one. -/
theorem step_grows (keyed : d.store.MilestonesKeyed) (h : d.step e = some d')
    (kept : d.misfiled e = []) : d.store.Grows d'.store ∧ d'.store.MilestonesKeyed := by
  have attempts {id} (ha : d.store.HasAttempt id) : d'.store.HasAttempt id :=
    (step_update h).hasAttempt ha
  have same (heq : d'.store.milestones = d.store.milestones) :
      d.store.Grows d'.store ∧ d'.store.MilestonesKeyed := by
    refine ⟨⟨fun hm => ?_, attempts⟩, fun id m hm => ?_⟩
    · rwa [Store.HasMilestone, heq]
    · rw [heq] at hm
      exact keyed id m hm
  rcases step_cases h with ⟨k, s, b, p, _, step, rfl⟩ | ⟨k, r, b, p, _, step, rfl⟩ | step
  · exact same step.milestones_eq
  · rcases step.milestones_cases with heq | ⟨m, heq⟩
    · exact same heq
    · refine ⟨⟨fun hm => ?_, attempts⟩, fun id m' hm' => ?_⟩
      · rw [Store.HasMilestone, store_withRecording, heq]
        exact hm.save m
      · rw [store_withRecording, heq] at hm'
        exact keyed.save m id m' hm'
  · cases step with
    | @edit versions milestones records artifacts =>
        refine ⟨⟨fun {id} hm => ?_, attempts⟩, fun id m hm => ?_⟩
        · obtain ⟨m, hm⟩ := hm
          have hid := (Table.contains_iff_mem _ id).mp (by rw [Table.contains, hm]; rfl)
          obtain ⟨m', hm', _⟩ := milestone_of_edit kept (.inl hid)
          exact ⟨m', hm'⟩
        · have hid := (Table.contains_iff_mem milestones id).mp (by rw [Table.contains, hm]; rfl)
          obtain ⟨m', hm', hid'⟩ := milestone_of_edit kept (.inr hid)
          obtain rfl : m = m' := Option.some.inj (hm.symm.trans hm')
          exact hid'
    | beginStart | unmatched | unrecorded | result | failure | abandon | register | withdraw =>
        exact same rfl

end Step

/-- All that the desk relies on: rows are filed under their own ids, those of attempts among the ids
generated so far, and no two starts are about to save attempts with the same id. -/
structure Filed (d : ReleaseDesk) (ids : List ResourceId) : Prop where
  milestones : d.store.MilestonesKeyed
  attempts : ∀ {id a}, d.store.attempts.get? id = some a → a.id = id ∧ id ∈ ids
  starts : ∀ {k : Nat} {s : Start}, d.starts[k]? = some s → s.phase.Filed d.store ids
  apart : ∀ {k k' : Nat} {s s' : Start} {m m' : Milestone} {a a' : ReleaseAttempt},
    d.starts[k]? = some s → d.starts[k']? = some s' → s.phase = .savingAttempt m a →
      s'.phase = .savingAttempt m' a' → a.id = a'.id → k = k'
  listening : ∀ {id t g}, d.correlator.registration? id t = some g → g.listener.Filed d.store id
  recordings : ∀ {k : Nat} {r : Recording}, d.recordings[k]? = some r → r.Filed d.store

theorem filed_empty (process : String) (callbackBase : Option String) :
    (ReleaseDesk.empty process callbackBase).Filed [] where
  milestones _ _ h := by simp [ReleaseDesk.empty, Store.empty] at h
  attempts h := by simp [ReleaseDesk.empty, Store.empty] at h
  starts h := by simp [ReleaseDesk.empty] at h
  apart h := by simp [ReleaseDesk.empty] at h
  listening h := by simp [ReleaseDesk.empty, Correlator.empty, Correlator.registration?] at h
  recordings h := by simp [ReleaseDesk.empty] at h

section Filed

variable {d b d' : ReleaseDesk} {k : Nat} {e : Event} {s : Start} {p : StartPhase}
  {ids ids' : List ResourceId}

/-- A start writes an attempt that is not stored and in progress, or one that is stored and over. -/
theorem Filed.start_saving (hd : d.Filed ids) (hs : d.starts[k]? = some s)
    {w : Writer × ReleaseAttempt} (hw : s.phase.saving? = some w) :
    (∃ m, s.phase = .savingAttempt m w.2 ∧ d.store.attempts.get? w.2.id = none ∧ w.2.id ∈ ids) ∨
      s.phase = .savingRefusal w.2 ∧ w.2.status ≠ .inProgress ∧ d.store.HasAttempt w.2.id := by
  have filed := hd.starts hs
  cases hp : s.phase with
  | savingAttempt m a =>
      obtain rfl : (.start, a) = w := by simpa [hp, StartPhase.saving?] using hw
      rw [hp] at filed
      exact .inl ⟨m, rfl, filed.2⟩
  | savingRefusal a =>
      obtain rfl : (.refusal, a) = w := by simpa [hp, StartPhase.saving?] using hw
      rw [hp] at filed
      exact .inr ⟨rfl, filed⟩
  | findingMilestone | checkingLatest | asking | announcing | ended | dropped =>
      simp [hp, StartPhase.saving?] at hw

theorem Filed.recording_saving {r : Recording} (hd : d.Filed ids) (hr : d.recordings[k]? = some r)
    {w : Writer × ReleaseAttempt} (hw : r.phase.saving? = some w) :
    w.2.id = r.attempt ∧ w.2.status ≠ .inProgress ∧ d.store.HasAttempt w.2.id := by
  have filed := hd.recordings hr
  cases hp : r.phase with
  | savingAttempt a after =>
      obtain rfl : (Writer.report after, a) = w := by simpa [hp, RecordingPhase.saving?] using hw
      have hphase := filed.phase
      rw [hp] at hphase
      exact ⟨hphase.1, hphase.2, hphase.1.symm ▸ filed.attempt⟩
  | findingMilestone | describing | findingAttempt | announcing | findingRecord | savingRecord
  | savingMilestone | findingVersion | savingVersion | ended =>
      simp [hp, RecordingPhase.saving?] at hw

theorem Filed.mem_ids (hd : d.Filed ids) {id : ResourceId} (h : d.store.HasAttempt id) :
    id ∈ ids := by
  obtain ⟨a, ha⟩ := h
  exact (hd.attempts ha).2

/-- A start goes on relying on what it should. -/
theorem StartStep.filed (h : StartStep d k s e b p) (hd : d.Filed ids) (hs : d.starts[k]? = some s)
    (hi : ∀ id ∈ d.generated e, id ∉ ids) : p.Filed b.store (ids ++ d.generated e) := by
  have filed := hd.starts hs
  cases h with
  | @mark m now id h hm free =>
      exact ⟨m, (hd.milestones _ _ hm).symm ▸ hm⟩
  | @proceed m now id h idle =>
      rw [h] at filed
      rw [generated_proceed hs h idle] at hi ⊢
      refine ⟨filed, ?_, List.mem_append_right _ List.mem_cons_self⟩
      cases hrow : d.store.attempts.get? id with
      | none => exact hrow
      | some a => exact absurd (hd.attempts hrow).2 (hi id List.mem_cons_self)
  | @enroll m a now id h => exact ⟨rfl, a, (Store.get?_saveAttempt ..).trans (if_pos rfl)⟩
  | refuse h =>
      rw [h] at filed
      exact ⟨by simp [refusedAttempt], filed.2⟩
  | lookupFails | unknown | beaten | checkFails | occupied | saveFails | closeFails | close | accept
  | announced | dropIdle | dropChecking | dropUnsaved | dropSaved | dropOpen | dropClosed => trivial

/-- The attempt that a start is about to save has just been made. -/
theorem StartStep.saving_of (h : StartStep d k s e b p) (hs : d.starts[k]? = some s)
    {m : Milestone} {a : ReleaseAttempt} (hp : p = .savingAttempt m a) :
    d.generated e = [a.id] ∧ b.store = d.store := by
  cases h with
  | proceed h idle =>
      obtain ⟨-, rfl⟩ := StartPhase.savingAttempt.inj hp
      exact ⟨generated_proceed hs h idle, rfl⟩
  | lookupFails | unknown | beaten | mark | checkFails | occupied | saveFails | enroll | closeFails
  | close | accept | refuse | announced | dropIdle | dropChecking | dropUnsaved | dropSaved
  | dropOpen | dropClosed => simp at hp

theorem filed_of_mem_listeners {store : Store} {m a : ResourceId} {t : EventType} {l : Listener}
    (hl : (t, l) ∈ listeners m a) (hm : store.HasMilestone m) (ha : store.HasAttempt a) :
    l.Filed store (.ofResource a) := by
  simp only [listeners, List.mem_cons, Prod.mk.injEq, List.not_mem_nil, or_false] at hl
  rcases hl with ⟨_, rfl⟩ | ⟨_, rfl⟩
  · exact ⟨rfl, hm, ha⟩
  · exact ⟨rfl, hm, ha⟩

theorem Filed.startStep (hd : d.Filed ids) (hs : d.starts[k]? = some s) (h : StartStep d k s e b p)
    (hi : ∀ id ∈ d.generated e, id ∉ ids) (hu : d.store.Update (d.written? e) b.store)
    (grows : d.store.Grows b.store) (keyed : b.store.MilestonesKeyed) :
    (b.withStart k p).Filed (ids ++ d.generated e) := by
  have write {c : ReleaseAttempt} (hc : d.written? e = some c) :
      (∃ m, s.phase = .savingAttempt m c ∧ c.id ∈ ids) ∨ d.store.HasAttempt c.id := by
    obtain ⟨w, hw⟩ := h.written_cases hs hc
    rcases hd.start_saving hs hw with ⟨m, hp, _, hid⟩ | ⟨_, _, hstored⟩
    · exact .inl ⟨m, hp, hid⟩
    · exact .inr hstored
  -- Another start is about to save its attempt, and it is not this one that was saved.
  have absent {j : Nat} {s' : Start} {m : Milestone} {a : ReleaseAttempt} (hne : j ≠ k)
      (hj : d.starts[j]? = some s') (hp : s'.phase = .savingAttempt m a) :
      b.store.attempts.get? a.id = none := by
    have filed := hd.starts hj
    rw [hp] at filed
    cases hrow : b.store.attempts.get? a.id with
    | none => rfl
    | some c =>
        rcases hu.get?_cases hrow with hrow | ⟨hc, hid⟩
        · exact absurd (filed.2.1.symm.trans hrow) (by simp)
        · rcases write hc with ⟨m', hp', _⟩ | ⟨c', hc'⟩
          · exact absurd (hd.apart hj hs hp hp' hid.symm) hne
          · rw [hid, filed.2.1] at hc'
            simp at hc'
  refine ⟨keyed, fun ha => ?_, fun hj => ?_, fun hj hj' hp hp' hid => ?_, fun hg => ?_,
    fun hr => ?_⟩
  · rcases hu.get?_cases ha with ha | ⟨hc, rfl⟩
    · exact (hd.attempts ha).imp id (List.mem_append_left _)
    · rcases write hc with ⟨_, _, hid⟩ | hstored
      · exact ⟨rfl, List.mem_append_left _ hid⟩
      · exact ⟨rfl, List.mem_append_left _ (hd.mem_ids hstored)⟩
  · rcases h.starts_cases hs hj with ⟨rfl, rfl⟩ | ⟨hne, hj⟩
    · exact h.filed hd hs hi
    · exact (hd.starts hj).grow grows (List.subset_append_left ..) fun m a => absent hne hj
  · -- An attempt that has just been made has an id of its own.
    have made {j : Nat} {s' : Start} {m m' : Milestone} {a a' : ReleaseAttempt}
        (hp : p = .savingAttempt m a) (hj : d.starts[j]? = some s')
        (hp' : s'.phase = .savingAttempt m' a') : a.id ≠ a'.id := by
      intro hid
      have filed := hd.starts hj
      rw [hp'] at filed
      rw [(h.saving_of hs hp).1] at hi
      exact hi a.id List.mem_cons_self (hid ▸ filed.2.2)
    rcases h.starts_cases hs hj with ⟨rfl, rfl⟩ | ⟨_, hd₁⟩
    · rcases h.starts_cases hs hj' with ⟨rfl, rfl⟩ | ⟨_, hd₂⟩
      · rfl
      · exact absurd hid (made hp hd₂ hp')
    · rcases h.starts_cases hs hj' with ⟨rfl, rfl⟩ | ⟨_, hd₂⟩
      · exact absurd hid.symm (made hp' hd₁ hp)
      · exact hd.apart hd₁ hd₂ hp hp' hid
  · rcases h.registration_cases hg with hg | ⟨m, a, hp, hstore, rfl, hl⟩
    · exact (hd.listening hg).grow grows
    · have filed := hd.starts hs
      rw [hp] at filed
      refine filed_of_mem_listeners hl (grows.milestones filed.1) ⟨a, ?_⟩
      rw [store_withStart, hstore, Store.get?_saveAttempt, if_pos rfl]
  · rw [recordings_withStart, h.recordings_eq] at hr
    exact (hd.recordings hr).grow grows

/-- Steps that leave the starts alone, but for new ones, and save nothing but stored attempts. -/
theorem Filed.congr {w : Option ReleaseAttempt} (hd : d.Filed ids) (hids : ids ⊆ ids')
    (hu : d.store.Update w d'.store) (hw : ∀ c ∈ w, d.store.HasAttempt c.id)
    (grows : d.store.Grows d'.store) (keyed : d'.store.MilestonesKeyed)
    (starts : ∀ {j : Nat} {s : Start}, d'.starts[j]? = some s →
      d.starts[j]? = some s ∨ s.phase = .findingMilestone)
    (listening : ∀ {id t g}, d'.correlator.registration? id t = some g →
      g.listener.Filed d'.store id)
    (recordings : ∀ {j : Nat} {r : Recording}, d'.recordings[j]? = some r → r.Filed d'.store) :
    d'.Filed ids' := by
  have held {j : Nat} {s : Start} {m : Milestone} {a : ReleaseAttempt}
      (hj : d'.starts[j]? = some s) (hp : s.phase = .savingAttempt m a) :
      d.starts[j]? = some s := by
    rcases starts hj with hj | hnew
    · exact hj
    · simp [hp] at hnew
  refine ⟨keyed, fun ha => ?_, fun {j s} hj => ?_, fun hj hj' hp hp' => ?_, listening, recordings⟩
  · rcases hu.get?_cases ha with ha | ⟨rfl, rfl⟩
    · exact (hd.attempts ha).imp id (@hids _)
    · exact ⟨rfl, hids (hd.mem_ids (hw _ rfl))⟩
  · rcases starts hj with hj | hnew
    · refine (hd.starts hj).grow grows hids fun m a hp => ?_
      have filed := hd.starts hj
      rw [hp] at filed
      cases hrow : d'.store.attempts.get? a.id with
      | none => rfl
      | some c =>
          rcases hu.get?_cases hrow with hrow | ⟨rfl, hid⟩
          · exact absurd (filed.2.1.symm.trans hrow) (by simp)
          · obtain ⟨c', hc'⟩ := hw c rfl
            rw [hid, filed.2.1] at hc'
            simp at hc'
    · rw [hnew]
      trivial
  · exact hd.apart (held hj hp) (held hj' hp') hp hp'

/-- A recording goes on saving only a version of its attempt that is over. -/
theorem RecordingStep.filed {r : Recording} {p : RecordingPhase} (h : RecordingStep d k r e b p)
    (hd : d.Filed ids) (hr : d.recordings[k]? = some r) : p.Filed r.attempt := by
  have filed := (hd.recordings hr).phase
  cases h with
  | @find text status after a fault now h ha =>
      rw [h] at filed
      exact ⟨(hd.attempts (found_eq_some ha)).1, filed⟩
  | describe | passage => exact (describe_sound .empty ..).filed
  | fail => simp [RecordingPhase.Filed]
  | miss | closeFails | announced => exact (turn_sound .empty ..).filed
  | missRecord | saveRecord => exact (nextRecord_sound .empty ..).filed
  | lost | close | findRecord | saveMilestone | findVersion | passVersion | saveVersion => trivial

theorem Filed.recordingStep {r : Recording} {p : RecordingPhase} (hd : d.Filed ids)
    (hr : d.recordings[k]? = some r) (h : RecordingStep d k r e b p)
    (hu : d.store.Update (d.written? e) b.store) (grows : d.store.Grows b.store)
    (keyed : b.store.MilestonesKeyed) (hids : ids ⊆ ids') : (b.withRecording k p).Filed ids' := by
  have write : ∀ c ∈ d.written? e, d.store.HasAttempt c.id := by
    intro c hc
    obtain ⟨w, hw⟩ := h.written_cases hr hc
    exact (hd.recording_saving hr hw).2.2
  refine hd.congr hids hu write grows keyed (fun hj => .inl ?_) (fun hg => ?_) fun hj => ?_
  · rwa [starts_withRecording, h.frame.1] at hj
  · exact (hd.listening (h.registration_of hg)).grow grows
  · rcases h.recordings_cases hr hj with ⟨rfl, rfl⟩ | ⟨_, hj⟩
    · have filed := (hd.recordings hr).grow grows
      exact ⟨filed.correlation, filed.milestone, filed.attempt, h.filed hd hr⟩
    · exact (hd.recordings hj).grow grows

/-- The listener that a recording begins for knows its milestone and its attempt. -/
theorem OtherStep.begun_filed (h : OtherStep d e d') (hd : d.Filed ids) {j : Nat} {r : Recording}
    (hr : d'.recordings[j]? = some r) : d.recordings[j]? = some r ∨ r.Filed d.store := by
  cases h with
  | @result id name payload t g m a result he hg hl _ =>
      rcases getElem?_concat_cases hr with hr | ⟨_, rfl⟩
      · exact .inl hr
      · obtain ⟨rfl, hm, ha⟩ : (Listener.result m a).Filed d.store id := hl ▸ hd.listening hg
        exact .inr ⟨rfl, hm, ha, trivial⟩
  | @failure id name payload t g m a he hg hl =>
      rcases getElem?_concat_cases hr with hr | ⟨_, rfl⟩
      · exact .inl hr
      · obtain ⟨rfl, hm, ha⟩ : (Listener.failure m a).Filed d.store id := hl ▸ hd.listening hg
        exact .inr ⟨rfl, hm, ha, trivial⟩
  | beginStart | unmatched | unrecorded | abandon | register | withdraw | edit => exact .inl hr

theorem Filed.otherStep (hd : d.Filed ids) (h : OtherStep d e d')
    (hu : d.store.Update (d.written? e) d'.store) (grows : d.store.Grows d'.store)
    (keyed : d'.store.MilestonesKeyed) (hids : ids ⊆ ids') : d'.Filed ids' := by
  have hn : d.written? e = none := by rw [written?, h.store_eq.1]; rfl
  refine hd.congr hids hu (fun c hc => ?_) grows keyed h.start_cases (fun {id t g} hg => ?_)
    fun hj => ?_
  · simp [hn] at hc
  · rcases h.begin_cases with ⟨_, hlistening⟩ | ⟨_, _, _, _, _, _, _, _, _, _, _, hlistening⟩
    · rcases hlistening hg with hg | ⟨n, hguest⟩
      · exact (hd.listening hg).grow grows
      · rw [hguest]
        trivial
    · exact (hd.listening (hlistening hg).1).grow grows
  · rcases h.begun_filed hd hj with hj | filed
    · exact (hd.recordings hj).grow grows
    · exact filed.grow grows

theorem Filed.step (hd : d.Filed ids) (h : d.step e = some d') (kept : d.misfiled e = [])
    (hi : ∀ id ∈ d.generated e, id ∉ ids) : d'.Filed (ids ++ d.generated e) := by
  have hu := step_update h
  obtain ⟨grows, keyed⟩ := step_grows hd.milestones h kept
  rcases step_cases h with ⟨k, s, b, p, hk, step, rfl⟩ | ⟨k, r, b, p, hk, step, rfl⟩ | step
  · exact hd.startStep hk step hi hu grows keyed
  · exact hd.recordingStep hk step hu grows keyed (List.subset_append_left ..)
  · exact hd.otherStep step hu grows keyed (List.subset_append_left ..)

end Filed

end ReleaseDesk

end Foreman
