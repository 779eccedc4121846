import Foreman.Proofs.Release.Attendance

/-!
Whose attempts they are. A start saves an attempt of its own milestone, and a listener or a recording
knows its attempt as one of the milestone that it was started for. So whatever is saved for one
milestone, the latest attempts of the others stay as they are.
-/

namespace Foreman

open Release

namespace Store

variable {s s' : Store} {w : Option ReleaseAttempt} {a : ReleaseAttempt} {id m : ResourceId}

def HasAttemptOf (s : Store) (milestone id : ResourceId) : Prop :=
  ∃ a, s.attempts.get? id = some a ∧ a.milestone = milestone

/-- The attempt is a new one, or a version of one that stays with its milestone. -/
def Admits (s : Store) (a : ReleaseAttempt) : Prop :=
  s.attempts.get? a.id = none ∨ s.HasAttemptOf a.milestone a.id

theorem HasAttemptOf.update (h : s.HasAttemptOf m id) (hu : s.Update w s')
    (hw : ∀ c ∈ w, s.Admits c) : s'.HasAttemptOf m id := by
  obtain ⟨a, ha, hm⟩ := h
  cases hu with
  | keep same => exact ⟨a, by rw [same, ha], hm⟩
  | save c =>
      by_cases hid : c.id = id
      · refine ⟨c, by rw [get?_saveAttempt, if_pos hid], ?_⟩
        rcases hw c rfl with absent | ⟨a', ha', hm'⟩
        · rw [hid, ha] at absent
          simp at absent
        · obtain rfl : a = a' := Option.some.inj (ha.symm.trans (hid ▸ ha'))
          rw [← hm', hm]
      · exact ⟨a, by rw [get?_saveAttempt, if_neg hid, ha], hm⟩

/-- The latest attempt is a matter of the attempts of its milestone. -/
theorem latestAttempt_congr (keyed : s'.AttemptsKeyed)
    (same : ∀ id a, a.milestone = m →
      (s'.attempts.get? id = some a ↔ s.attempts.get? id = some a)) :
    s'.latestAttempt m = s.latestAttempt m := by
  cases h : s.latestAttempt m with
  | none =>
      rw [latestAttempt_eq_none] at h ⊢
      intro id a ha hm
      exact h id a ((same id a hm).mp ha) hm
  | some a =>
      obtain ⟨⟨id, ha⟩, rfl, last⟩ := latestAttempt_spec h
      refine latestAttempt_eq_some keyed ((same id a rfl).mpr ha) fun id' b hb hm => ?_
      exact last id' b ((same id' b hm).mp hb) hm

theorem latestAttempt_update (keyed : s'.AttemptsKeyed) (hu : s.Update w s')
    (hw : ∀ c ∈ w, s.Admits c ∧ c.milestone ≠ m) : s'.latestAttempt m = s.latestAttempt m := by
  refine latestAttempt_congr keyed fun id a hm => ?_
  cases hu with
  | keep same => rw [same]
  | save c =>
      obtain ⟨admitted, other⟩ := hw c rfl
      rw [get?_saveAttempt]
      split
      next hid =>
        constructor
        · intro h
          obtain rfl := Option.some.inj h
          exact absurd hm other
        · intro ha
          rcases admitted with absent | ⟨a', ha', hm'⟩
          · rw [hid, ha] at absent
            simp at absent
          · obtain rfl : a = a' := Option.some.inj (ha.symm.trans (hid ▸ ha'))
            exact absurd (hm'.symm.trans hm) other
      next => rfl

end Store

namespace Release

/-- A start of the milestone works with its row and with an attempt of it. -/
def StartPhase.Placed (s : Store) (milestone : ResourceId) : StartPhase → Prop
  | .checkingLatest m => m.id = milestone
  | .savingAttempt m a => m.id = milestone ∧ a.milestone = milestone
  | .asking a _ _ | .savingRefusal a => a.milestone = milestone ∧ s.HasAttemptOf milestone a.id
  | .announcing a => a.milestone = milestone
  | _ => True

/-- The attempt that the recording holds. -/
def RecordingPhase.attempt? : RecordingPhase → Option ReleaseAttempt
  | .savingAttempt a _ | .announcing a _ => some a
  | _ => none

structure Recording.Placed (s : Store) (r : Recording) : Prop where
  attempt : s.HasAttemptOf r.milestone r.attempt
  held : ∀ a ∈ r.phase.attempt?, a.milestone = r.milestone

def Listener.Placed (s : Store) : Listener → Prop
  | .result m a | .failure m a => s.HasAttemptOf m a
  | .guest _ => True

variable {s s' : Store}

theorem StartPhase.Placed.grow {m : ResourceId} {p : StartPhase} (h : p.Placed s m)
    (grow : ∀ {m id}, s.HasAttemptOf m id → s'.HasAttemptOf m id) : p.Placed s' m := by
  cases p with
  | asking a call r => exact ⟨h.1, grow h.2⟩
  | savingRefusal a => exact ⟨h.1, grow h.2⟩
  | checkingLatest | savingAttempt | announcing => exact h
  | findingMilestone | ended | dropped => trivial

theorem Listener.Placed.grow {l : Listener} (h : l.Placed s)
    (grow : ∀ {m id}, s.HasAttemptOf m id → s'.HasAttemptOf m id) : l.Placed s' := by
  cases l with
  | result m a | failure m a => exact grow h
  | guest n => trivial

end Release

namespace ReleaseDesk

/-- Starts, listeners and recordings know their attempts as attempts of their milestones. -/
structure Placed (d : ReleaseDesk) : Prop where
  starts : ∀ {k : Nat} {s : Start}, d.starts[k]? = some s → s.phase.Placed d.store s.milestone
  listening : ∀ {id t g}, d.correlator.registration? id t = some g → g.listener.Placed d.store
  recordings : ∀ {k : Nat} {r : Recording}, d.recordings[k]? = some r → r.Placed d.store

theorem placed_empty (process : String) (callbackBase : Option String) :
    (ReleaseDesk.empty process callbackBase).Placed where
  starts h := by simp [ReleaseDesk.empty] at h
  listening h := by simp [ReleaseDesk.empty, Correlator.empty, Correlator.registration?] at h
  recordings h := by simp [ReleaseDesk.empty] at h

section Step

variable {d b d' : ReleaseDesk} {k : Nat} {e : Event} {s : Start} {r : Recording}
  {p : StartPhase} {q : RecordingPhase} {ids : List ResourceId} {w : Writer × ReleaseAttempt}

/-- A start saves an attempt of its milestone. -/
theorem Placed.start_saving (hd : d.Placed) (filed : d.Filed ids) (hs : d.starts[k]? = some s)
    (hw : s.phase.saving? = some w) : d.store.Admits w.2 ∧ w.2.milestone = s.milestone := by
  have placed := hd.starts hs
  rcases filed.start_saving hs hw with ⟨m, hp, absent, -⟩ | ⟨hp, -, -⟩
  · rw [hp] at placed
    exact ⟨.inl absent, placed.2⟩
  · rw [hp] at placed
    exact ⟨.inr (placed.1 ▸ placed.2), placed.1⟩

theorem attempt?_of_saving? (hw : q.saving? = some w) : q.attempt? = some w.2 := by
  cases q with
  | savingAttempt a after =>
      obtain rfl := Option.some.inj hw
      rfl
  | findingMilestone | describing | findingAttempt | announcing | findingRecord | savingRecord
  | savingMilestone | findingVersion | savingVersion | ended =>
      simp [RecordingPhase.saving?] at hw

theorem Placed.recording_saving (hd : d.Placed) (filed : d.Filed ids)
    (hr : d.recordings[k]? = some r) (hw : r.phase.saving? = some w) :
    d.store.Admits w.2 ∧ w.2.milestone = r.milestone := by
  have placed := hd.recordings hr
  have hid := (filed.recording_saving hr hw).1
  have hm := placed.held _ (attempt?_of_saving? hw)
  refine ⟨.inr ?_, hm⟩
  rw [hm, hid]
  exact placed.attempt

theorem Placed.admits (hd : d.Placed) (filed : d.Filed ids) :
    ∀ a ∈ d.written? e, d.store.Admits a := by
  intro a ha
  obtain ⟨w, hw, rfl⟩ := Option.map_eq_some_iff.mp ha
  rcases saving?_cases hw with ⟨k, s, hs, hp⟩ | ⟨k, r, hr, hp⟩
  · exact (hd.start_saving filed hs hp).1
  · exact (hd.recording_saving filed hr hp).1

theorem StartStep.placed (h : StartStep d k s e b p) (hd : d.Placed) (filed : d.Filed ids)
    (hs : d.starts[k]? = some s)
    (grow : ∀ {m id}, d.store.HasAttemptOf m id → b.store.HasAttemptOf m id) :
    p.Placed b.store s.milestone := by
  have placed := hd.starts hs
  cases h with
  | mark h hm => exact filed.milestones _ _ hm
  | proceed h =>
      rw [h] at placed
      exact ⟨placed, rfl⟩
  | @enroll m a now id h =>
      rw [h] at placed
      exact ⟨placed.2, a, (Store.get?_saveAttempt ..).trans (if_pos rfl), placed.2⟩
  | refuse h =>
      rw [h] at placed
      exact ⟨placed.1, grow placed.2⟩
  | close h | accept h =>
      rw [h] at placed
      exact placed.1
  | lookupFails | unknown | beaten | checkFails | occupied | saveFails | closeFails | announced
  | dropIdle | dropChecking | dropUnsaved | dropSaved | dropOpen | dropClosed => trivial

theorem attempt?_describe (m : Milestone) (result : ReleaseResult) (text : String)
    (ahead : List Passage) : (describe m result text ahead).attempt? = none := by
  fun_induction describe m result text ahead with
  | case1 text ahead ih => exact ih
  | case2 | case3 => rfl

theorem attempt?_nextRecord (m : Milestone) (now : Instant) (ahead : List BuildImport) :
    (nextRecord m now ahead).attempt? = none := by
  cases ahead <;> rfl

theorem attempt?_turn (d : ReleaseDesk) (r : Recording) (now : Instant)
    (after : Option (Milestone × ReleaseResult)) : (d.turn r now after).2.attempt? = none := by
  cases after with
  | none => rfl
  | some x => exact attempt?_nextRecord ..

/-- A recording finds its attempt, or goes on holding it, or holds none. -/
theorem RecordingStep.attempt?_cases (h : RecordingStep d k r e b q) : q.attempt? = none ∨
    q.attempt? = r.phase.attempt? ∨
    ∃ a text status now, d.store.attempts.get? r.attempt = some a ∧
      q.attempt? = some (closedAttempt a text status now) := by
  cases h with
  | find h ha => exact .inr (.inr ⟨_, _, _, _, found_eq_some ha, rfl⟩)
  | close h => exact .inr (.inl (by rw [h]; rfl))
  | describe | passage => exact .inl (attempt?_describe ..)
  | miss | closeFails | announced => exact .inl (attempt?_turn ..)
  | missRecord | saveRecord => exact .inl (attempt?_nextRecord ..)
  | lost | fail | findRecord | saveMilestone | findVersion | passVersion | saveVersion =>
      exact .inl rfl

theorem RecordingStep.placed (h : RecordingStep d k r e b q) (hd : r.Placed d.store) :
    ∀ a ∈ q.attempt?, a.milestone = r.milestone := by
  intro a ha
  rcases h.attempt?_cases with hq | hq | ⟨a', text, status, now, ha', hq⟩
  · simp [hq] at ha
  · exact hd.held a (hq ▸ ha)
  · obtain rfl := Option.some.inj (hq.symm.trans ha)
    obtain ⟨row, hrow, hm⟩ := hd.attempt
    obtain rfl : row = a' := Option.some.inj (hrow.symm.trans ha')
    exact hm

theorem placed_of_mem_listeners {store : Store} {m a : ResourceId} {t : EventType} {l : Listener}
    (hl : (t, l) ∈ listeners m a) (ha : store.HasAttemptOf m a) : l.Placed store := by
  simp only [listeners, List.mem_cons, Prod.mk.injEq, List.not_mem_nil, or_false] at hl
  rcases hl with ⟨-, rfl⟩ | ⟨-, rfl⟩
  · exact ha
  · exact ha

/-- The listener that a recording begins for knows the attempt as one of its milestone. -/
theorem OtherStep.begun_placed (h : OtherStep d e d') (hd : d.Placed) {j : Nat}
    (hr : d'.recordings[j]? = some r) : d.recordings[j]? = some r ∨ r.Placed d.store := by
  have begun {id t g m a report} (hg : d.correlator.registration? id t = some g)
      (hl : g.listener.Placed d.store → d.store.HasAttemptOf m a) :
      (⟨id, m, a, .findingMilestone report⟩ : Recording).Placed d.store :=
    ⟨hl (hd.listening hg), fun _ h => by simp [RecordingPhase.attempt?] at h⟩
  cases h with
  | result he hg hl =>
      rcases getElem?_concat_cases hr with hr | ⟨-, rfl⟩
      · exact .inl hr
      · exact .inr (begun hg fun placed => by rwa [hl] at placed)
  | failure he hg hl =>
      rcases getElem?_concat_cases hr with hr | ⟨-, rfl⟩
      · exact .inl hr
      · exact .inr (begun hg fun placed => by rwa [hl] at placed)
  | beginStart | unmatched | unrecorded | abandon | register | withdraw | edit => exact .inl hr

theorem Placed.startStep (hd : d.Placed) (filed : d.Filed ids) (hs : d.starts[k]? = some s)
    (h : StartStep d k s e b p)
    (grow : ∀ {m id}, d.store.HasAttemptOf m id → b.store.HasAttemptOf m id) :
    (b.withStart k p).Placed where
  starts hj := by
    rcases h.starts_cases hs hj with ⟨rfl, rfl⟩ | ⟨-, hj⟩
    · exact h.placed hd filed hs grow
    · exact (hd.starts hj).grow grow
  listening hg := by
    rcases h.registration_cases hg with hg | ⟨m, a, hp, hstore, rfl, hl⟩
    · exact (hd.listening hg).grow grow
    · have placed := hd.starts hs
      rw [hp] at placed
      refine placed_of_mem_listeners hl ⟨a, ?_, placed.2.trans placed.1.symm⟩
      rw [store_withStart, hstore, Store.get?_saveAttempt, if_pos rfl]
  recordings hr := by
    rw [recordings_withStart, h.recordings_eq] at hr
    have placed := hd.recordings hr
    exact ⟨grow placed.attempt, placed.held⟩

theorem Placed.recordingStep (hd : d.Placed) (hr : d.recordings[k]? = some r)
    (h : RecordingStep d k r e b q)
    (grow : ∀ {m id}, d.store.HasAttemptOf m id → b.store.HasAttemptOf m id) :
    (b.withRecording k q).Placed where
  starts hj := by
    rw [starts_withRecording, h.frame.1] at hj
    exact (hd.starts hj).grow grow
  listening hg := (hd.listening (h.registration_of hg)).grow grow
  recordings hj := by
    rcases h.recordings_cases hr hj with ⟨rfl, rfl⟩ | ⟨-, hj⟩
    · exact ⟨grow (hd.recordings hr).attempt, h.placed (hd.recordings hr)⟩
    · have placed := hd.recordings hj
      exact ⟨grow placed.attempt, placed.held⟩

theorem Placed.otherStep (hd : d.Placed) (h : OtherStep d e d')
    (grow : ∀ {m id}, d.store.HasAttemptOf m id → d'.store.HasAttemptOf m id) : d'.Placed where
  starts hj := by
    rcases h.start_cases hj with hj | hnew
    · exact (hd.starts hj).grow grow
    · rw [hnew]
      trivial
  listening hg := by
    rcases h.begin_cases with ⟨-, listening⟩ | ⟨_, _, _, _, _, _, _, _, _, _, _, listening⟩
    · rcases listening hg with hg | ⟨n, hguest⟩
      · exact (hd.listening hg).grow grow
      · rw [hguest]
        trivial
    · exact (hd.listening (listening hg).1).grow grow
  recordings hj := by
    rcases h.begun_placed hd hj with hj | placed
    · have placed := hd.recordings hj
      exact ⟨grow placed.attempt, placed.held⟩
    · exact ⟨grow placed.attempt, placed.held⟩

theorem Placed.step (hd : d.Placed) (filed : d.Filed ids) (h : d.step e = some d') :
    d'.Placed := by
  have hu := step_update h
  have grow {m id} (ha : d.store.HasAttemptOf m id) : d'.store.HasAttemptOf m id :=
    ha.update hu (hd.admits filed)
  rcases step_cases h with ⟨k, s, b, p, hk, step, rfl⟩ | ⟨k, r, b, q, hk, step, rfl⟩ | step
  · exact hd.startStep filed hk step grow
  · exact hd.recordingStep hk step grow
  · exact hd.otherStep step grow

end Step

theorem placed_of_run {process : String} {callbackBase : Option String} {es : List Event}
    {d : ReleaseDesk} (run : Run ReleaseDesk.step (.empty process callbackBase) es d)
    (fresh : (notes ReleaseDesk.step generated (.empty process callbackBase) es).Nodup)
    (kept : notes ReleaseDesk.step misfiled (.empty process callbackBase) es = []) : d.Placed := by
  induction run with
  | nil => exact placed_empty process callbackBase
  | snoc before last ih =>
      rw [notes_snoc _ before last] at fresh kept
      have fresh := (List.nodup_append.mp fresh).1
      have kept := (List.append_eq_nil_iff.mp kept).1
      exact (ih fresh kept).step (filed_of_run before fresh kept) last

end ReleaseDesk

end Foreman
