import Foreman.Proofs.Identity
import Foreman.Proofs.Release.Files

/-!
An attempt in progress is attended: its start is about to close it after a refusal, or a report on
it is being recorded, or the engine may still report a failure. That report needs no readable
payload, so nothing that the engine does takes the last way to close the attempt. Someone has to
give up its process, or a repository has to fail.
-/

namespace Foreman

open Release

namespace Store

def IsOpen (s : Store) (x : ResourceId) : Prop :=
  ∃ a, s.attempts.get? x = some a ∧ a.status = .inProgress

theorem IsOpen.congr {s s' : Store} {x : ResourceId}
    (h : s'.attempts.get? x = s.attempts.get? x) (hopen : s'.IsOpen x) : s.IsOpen x := by
  rwa [IsOpen, h] at hopen

theorem isOpen_saveAttempt_self {s : Store} {a : ReleaseAttempt} :
    (s.saveAttempt a).IsOpen a.id ↔ a.status = .inProgress := by
  simp [IsOpen, get?_saveAttempt]

end Store

namespace Release

/-- What may go wrong on behalf of an attempt. -/
inductive Mishap where
  /-- Someone outside gives up its process. -/
  | abandoned
  /-- A repository fails to do what the start or a recording asks for. -/
  | failed
  /-- The caller gives up the start while the attempt is being saved. -/
  | cutOff
deriving DecidableEq

end Release

namespace ReleaseDesk

def savesFor (x : ResourceId) (d : ReleaseDesk) (k : Nat) : Bool :=
  (d.starts[k]?.bind (·.phase.saving?)).any (·.2.id = x)

def mishaps (x : ResourceId) (d : ReleaseDesk) : Event → List Mishap
  | .abandon id => if id = .ofResource x then [.abandoned] else []
  | .answerStart k (some _) _ _ => if d.savesFor x k then [.failed] else []
  | .dropStart k _ => if d.savesFor x k then [.cutOff] else []
  | .answerRecording k (some _) _ => if d.recordings[k]?.any (·.attempt = x) then [.failed] else []
  | _ => []

/-- The process that a guest starts, or whose start is refused to a guest. -/
def Event.guest? : Event → Option CorrelationId
  | .register id _ _ _ | .withdraw id _ => some id
  | _ => none

/-- Someone is going to close the attempt `x`, or will when the engine reports a failure. -/
inductive Attended (x : ResourceId) (d : ReleaseDesk) : Prop
  | refusal {k : Nat} {s : Start} {a : ReleaseAttempt} (hs : d.starts[k]? = some s)
      (hp : s.phase = .savingRefusal a) (hx : a.id = x)
  | recording {k : Nat} {r : Recording} (hr : d.recordings[k]? = some r) (hx : r.attempt = x)
      (hw : r.phase.writer? ≠ none)
  | listener {g : Registration Listener} {m : ResourceId}
      (hg : d.correlator.registration? (.ofResource x) .importError = some g)
      (hl : g.listener = .failure m x)

/-- An attempt in progress is attended, and recordings that are done with theirs have closed it. -/
structure Cares (x : ResourceId) (d : ReleaseDesk) : Prop where
  attended : d.store.IsOpen x → Attended x d
  closed : ∀ {k : Nat} {r : Recording}, d.recordings[k]? = some r → r.attempt = x →
    r.phase.writer? = none → ¬d.store.IsOpen x

theorem cares_empty (x : ResourceId) (process : String) (callbackBase : Option String) :
    Cares x (.empty process callbackBase) where
  attended h := by simp [Store.IsOpen, ReleaseDesk.empty, Store.empty] at h
  closed h := by simp [ReleaseDesk.empty] at h

section Step

variable {x : ResourceId} {d b d' : ReleaseDesk} {k : Nat} {e : Event} {s : Start} {p : StartPhase}
  {ids : List ResourceId}

/-- Whoever attends to the attempt goes on doing so if the step leaves them alone. -/
theorem Attended.congr (h : Attended x d)
    (starts : ∀ {j : Nat} {s : Start} {a : ReleaseAttempt}, d.starts[j]? = some s →
      s.phase = .savingRefusal a → a.id = x → d'.starts[j]? = some s)
    (recordings : ∀ {j : Nat} {r : Recording}, d.recordings[j]? = some r → r.attempt = x →
      r.phase.writer? ≠ none → d'.recordings[j]? = some r)
    (listener : d'.correlator.registration? (.ofResource x) .importError =
      d.correlator.registration? (.ofResource x) .importError) : Attended x d' := by
  cases h with
  | refusal hs hp hx => exact .refusal (starts hs hp hx) hp hx
  | recording hr hx hw => exact .recording (recordings hr hx hw) hx hw
  | listener hg hl => exact .listener (listener.trans hg) hl

/-- An attempt that is stored never gets in progress again. -/
theorem isOpen_of_step (hd : d.Filed ids) (h : d.step e = some d') (stored : d.store.HasAttempt x)
    (hopen : d'.store.IsOpen x) : d.store.IsOpen x := by
  obtain ⟨a, ha, hstatus⟩ := hopen
  rcases (step_update h).get?_cases ha with ha | ⟨hw, rfl⟩
  · exact ⟨a, ha, hstatus⟩
  · obtain ⟨⟨w, a⟩, hsave, rfl⟩ := Option.map_eq_some_iff.mp hw
    rcases saving?_cases hsave with ⟨k, s, hs, hsaving⟩ | ⟨k, r, hr, hsaving⟩
    · rcases hd.start_saving hs hsaving with ⟨_, _, hnone, _⟩ | ⟨_, hover, _⟩
      · obtain ⟨row, hrow⟩ := stored
        exact absurd (hnone.symm.trans hrow) (by simp)
      · exact absurd hstatus hover
    · exact absurd hstatus (hd.recording_saving hr hsaving).2.1

/-! ### Starts -/

/-- A start has nothing to do with attempts that are not its own. -/
theorem StartStep.foreign (h : StartStep d k s e b p)
    (filed : s.phase.Filed d.store ids) (hx : ∀ a, s.phase.attempt? = some a → a.id ≠ x) :
    b.store.attempts.get? x = d.store.attempts.get? x ∧
      b.correlator.registration? (.ofResource x) .importError =
        d.correlator.registration? (.ofResource x) .importError := by
  have save {a : ReleaseAttempt} (ha : a.id ≠ x) :
      (d.store.saveAttempt a).attempts.get? x = d.store.attempts.get? x := by
    rw [Store.get?_saveAttempt, if_neg ha]
  have apart {a : ReleaseAttempt} (ha : a.id ≠ x) :
      CorrelationId.ofResource a.id ≠ .ofResource x :=
    fun hid => ha (CorrelationId.ofResource_injective hid)
  cases h with
  | @enroll m a now id h =>
      have ha : a.id ≠ x := hx a (by rw [h]; rfl)
      refine ⟨save ha, ?_⟩
      exact (Correlator.registration?_register ..).trans (if_neg (apart ha))
  | @refuse a call r f now h =>
      have ha : a.id ≠ x := hx a (by rw [h]; rfl)
      rw [h] at filed
      refine ⟨rfl, (Correlator.registration?_withdraw ..).trans (if_neg ?_)⟩
      rw [filed.1]
      exact apart ha
  | close h | dropSaved h | dropClosed h => exact ⟨save (hx _ (by rw [h]; rfl)), rfl⟩
  | lookupFails | unknown | beaten | mark | checkFails | occupied | proceed | saveFails | closeFails
  | accept | announced | dropIdle | dropChecking | dropUnsaved | dropOpen => exact ⟨rfl, rfl⟩

/-- Unless something goes wrong, a start hands its attempt to the listeners, goes to close it, has
it closed, or leaves it to the listeners. -/
theorem StartStep.own_cases (h : StartStep d k s e b p) (hs : d.starts[k]? = some s)
    (filed : s.phase.Filed d.store ids) {a : ReleaseAttempt} (ha : s.phase.attempt? = some a)
    (fine : mishaps a.id d e = []) :
    (∃ g m, b.correlator.registration? (.ofResource a.id) .importError = some g ∧
        g.listener = .failure m a.id) ∨
      (∃ a', p = .savingRefusal a' ∧ a'.id = a.id) ∨ ¬b.store.IsOpen a.id ∨
      b = d ∧ ∀ a', s.phase ≠ .savingRefusal a' := by
  have saves (hp : s.phase = .savingRefusal a ∨ ∃ m, s.phase = .savingAttempt m a) :
      d.savesFor a.id k = true := by
    rcases hp with hp | ⟨m, hp⟩ <;> simp [savesFor, hs, hp, StartPhase.saving?]
  cases h with
  | @enroll m a' now id h =>
      obtain rfl : a' = a := by simpa [h, StartPhase.attempt?] using ha
      refine .inl ⟨⟨d.correlator.calls, .failure m.id a'.id⟩, m.id, ?_, rfl⟩
      exact (Correlator.registration?_register ..).trans (if_pos rfl)
  | @refuse a' call r f now h =>
      obtain rfl : a' = a := by simpa [h, StartPhase.attempt?] using ha
      exact .inr (.inl ⟨_, rfl, rfl⟩)
  | @close a' now id h =>
      obtain rfl : a' = a := by simpa [h, StartPhase.attempt?] using ha
      rw [h] at filed
      exact .inr (.inr (.inl fun hopen => filed.1 (Store.isOpen_saveAttempt_self.mp hopen)))
  | @accept a' call r now h => exact .inr (.inr (.inr ⟨rfl, by simp [h]⟩))
  | dropIdle h =>
      refine .inr (.inr (.inr ⟨rfl, fun a' => ?_⟩))
      rcases h with h | ⟨a', call, r, h⟩ | ⟨a', h⟩ <;> simp [h]
  | @saveFails m a' f now id h | @dropUnsaved m a' h | @dropSaved m a' h =>
      obtain rfl : a' = a := by simpa [h, StartPhase.attempt?] using ha
      simp [mishaps, saves (.inr ⟨m, h⟩)] at fine
  | @closeFails a' f now id h | @dropOpen a' h | @dropClosed a' h =>
      obtain rfl : a' = a := by simpa [h, StartPhase.attempt?] using ha
      simp [mishaps, saves (.inl h)] at fine
  | lookupFails h | unknown h | beaten h | mark h | checkFails h | occupied h | proceed h
  | announced h | dropChecking h => simp [h, StartPhase.attempt?] at ha

theorem Cares.startStep (h : Cares x d) (hd : d.Filed ids) (hs : d.starts[k]? = some s)
    (step : StartStep d k s e b p) (hstep : d.step e = some (b.withStart k p))
    (fine : mishaps x d e = []) : Cares x (b.withStart k p) := by
  have hb : b.starts[k]? = some s := by rw [step.starts_eq, hs]
  -- Whoever else attends to the attempt is not concerned.
  have others (hopen : d.store.IsOpen x) (hself : ∀ a, s.phase = .savingRefusal a → a.id ≠ x)
      (hg : b.correlator.registration? (.ofResource x) .importError =
        d.correlator.registration? (.ofResource x) .importError) :
      Attended x (b.withStart k p) := by
    refine (h.attended hopen).congr (fun {j s' a} hj hp hx => ?_) (fun hr _ _ => ?_) hg
    · have hne : j ≠ k := by
        rintro rfl
        obtain rfl : s = s' := Option.some.inj (hs.symm.trans hj)
        exact hself a hp hx
      rw [getElem?_withStart_of_ne _ _ hne, step.starts_eq, hj]
    · rw [recordings_withStart, step.recordings_eq, hr]
  refine ⟨fun hopen => ?_, fun hr hx hw hopen => ?_⟩
  · by_cases own : ∃ a, s.phase.attempt? = some a ∧ a.id = x
    · obtain ⟨a, ha, rfl⟩ := own
      rcases step.own_cases hs (hd.starts hs) ha fine with ⟨g, m, hg, hl⟩ | ⟨a', rfl, hx⟩ | hover |
        ⟨rfl, hself⟩
      · exact .listener hg hl
      · exact .refusal (getElem?_withStart_self hb) rfl hx
      · exact absurd hopen hover
      · exact others hopen (fun a' hp => absurd hp (hself a')) rfl
    · have foreign : ∀ a, s.phase.attempt? = some a → a.id ≠ x := fun a ha hx => own ⟨a, ha, hx⟩
      obtain ⟨hrow, hg⟩ := step.foreign (hd.starts hs) foreign
      exact others (hopen.congr hrow) (fun a hp => foreign a (by rw [hp]; rfl)) hg
  · rw [recordings_withStart, step.recordings_eq] at hr
    have stored : d.store.HasAttempt x := hx ▸ (hd.recordings hr).attempt
    exact h.closed hr hx hw (isOpen_of_step hd hstep stored hopen)

/-! ### Recordings -/

theorem saving?_of_writer? {p : RecordingPhase} (h : p.writer? = none) : p.saving? = none := by
  cases p with
  | savingAttempt a after => simp [RecordingPhase.writer?] at h
  | findingMilestone | describing | findingAttempt | announcing | findingRecord | savingRecord
  | savingMilestone | findingVersion | savingVersion | ended => rfl

/-- Unless something goes wrong, a recording closes its attempt before it is done with it. -/
theorem RecordingStep.closes {r : Recording} {p : RecordingPhase} (h : RecordingStep d k r e b p)
    (hd : d.Filed ids) (hr : d.recordings[k]? = some r) (fine : mishaps r.attempt d e = [])
    (before : r.phase.writer? = none → ¬d.store.IsOpen r.attempt) (done : p.writer? = none) :
    ¬b.store.IsOpen r.attempt := by
  have filed := hd.recordings hr
  have works {fault : Option StorageFault} {now : Instant}
      (fine : mishaps r.attempt d (.answerRecording k fault now) = []) : fault = none := by
    cases fault with
    | none => rfl
    | some f => simp [mishaps, hr] at fine
  by_cases hw : r.phase.writer? = none
  · rcases h.store_cases hr with ⟨_, hrows⟩ | ⟨w, _, hsaving, _⟩
    · exact fun hopen => before hw (hopen.congr (congrArg (·.get? r.attempt) hrows))
    · simp [saving?_of_writer? hw] at hsaving
  · cases h with
    | @lost report fault now h hm =>
        obtain ⟨m, hstored⟩ := filed.milestone
        rw [works fine, found_none, hstored] at hm
        simp at hm
    | @miss text status after fault now h ha =>
        obtain ⟨a, hstored⟩ := filed.attempt
        rw [works fine, found_none, hstored] at ha
        simp at ha
    | @close a after now h =>
        have hphase := filed.phase
        rw [h] at hphase
        rw [← hphase.1]
        exact fun hopen => hphase.2 (Store.isOpen_saveAttempt_self.mp hopen)
    | closeFails => simpa using works fine
    | describe | passage => simp [writer?_describe] at done
    | fail | find => simp [RecordingPhase.writer?] at done
    | announced h | findRecord h | missRecord h | saveRecord h | saveMilestone h | findVersion h
    | passVersion h | saveVersion h => simp [h, RecordingPhase.writer?] at hw

/-- A recording has nothing to do with attempts that are not its own. -/
theorem RecordingStep.foreign {r : Recording} {p : RecordingPhase} (h : RecordingStep d k r e b p)
    (hd : d.Filed ids) (hr : d.recordings[k]? = some r) (hx : r.attempt ≠ x) :
    b.store.attempts.get? x = d.store.attempts.get? x ∧
      b.correlator.registration? (.ofResource x) .importError =
        d.correlator.registration? (.ofResource x) .importError := by
  have forget (d : ReleaseDesk) : (d.forget r.correlation).correlator.registration?
      (.ofResource x) .importError = d.correlator.registration? (.ofResource x) .importError := by
    refine (Correlator.registration?_abandon ..).trans (if_neg ?_)
    rw [(hd.recordings hr).correlation]
    exact fun hid => hx (CorrelationId.ofResource_injective hid)
  constructor
  · rcases h.store_cases hr with ⟨_, hrows⟩ | ⟨w, _, hsaving, hstore⟩
    · rw [hrows]
    · have hid := (hd.recording_saving hr hsaving).1
      rw [hstore, Store.get?_saveAttempt, if_neg (hid ▸ hx)]
  · cases h with
    | @miss text status after fault now | @closeFails a after f now | @announced a after now =>
        rcases fst_turn d r now after with h | h <;> rw [h]
        exact forget d
    | lost | passVersion => exact forget d
    | saveRecord | saveMilestone => split <;> rfl
    | saveVersion =>
        rw [forget]
        split <;> rfl
    | describe | fail | passage | find | close | findRecord | missRecord | findVersion => rfl

theorem Cares.recordingStep {r : Recording} {p : RecordingPhase} (h : Cares x d) (hd : d.Filed ids)
    (hr : d.recordings[k]? = some r) (step : RecordingStep d k r e b p)
    (hstep : d.step e = some (b.withRecording k p)) (fine : mishaps x d e = []) :
    Cares x (b.withRecording k p) := by
  obtain ⟨hstarts, _, hrecordings⟩ := step.frame
  have hb : b.recordings[k]? = some r := by rw [hrecordings, hr]
  have closed (hx : r.attempt = x) (done : p.writer? = none) : ¬b.store.IsOpen x := by
    subst hx
    exact step.closes hd hr fine (h.closed hr rfl) done
  have old {j : Nat} {r' : Recording} (hj : d.recordings[j]? = some r') (hx : r'.attempt = x)
      (hopen : (b.withRecording k p).store.IsOpen x) : d.store.IsOpen x :=
    isOpen_of_step hd hstep (hx ▸ (hd.recordings hj).attempt) hopen
  refine ⟨fun hopen => ?_, fun hj hx hw hopen => ?_⟩
  · by_cases own : r.attempt = x
    · by_cases done : p.writer? = none
      · exact absurd hopen (closed own done)
      · exact .recording (getElem?_withRecording_self hb) own done
    · obtain ⟨hrow, hg⟩ := step.foreign hd hr own
      refine (h.attended (hopen.congr hrow)).congr (fun hj _ _ => ?_) (fun {j r'} hj hx _ => ?_) hg
      · rw [starts_withRecording, hstarts, hj]
      · have hne : j ≠ k := by
          rintro rfl
          obtain rfl : r = r' := Option.some.inj (hr.symm.trans hj)
          exact own hx
        rw [getElem?_withRecording_of_ne _ _ hne, hrecordings, hj]
  · rcases step.recordings_cases hr hj with ⟨rfl, rfl⟩ | ⟨_, hj⟩
    · exact closed hx hw hopen
    · exact h.closed hj hx hw (old hj hx hopen)

/-! ### Everything else -/

/-- A failure that is reported on the attempt `x` begins a recording, whatever its payload is. -/
theorem dispatchNamed_failure {id : CorrelationId} {name : String} {t : EventType}
    {g : Registration Listener} {m : ResourceId} (payload : Json)
    (he : EventType.read name = .ok t) (hg : d.correlator.registration? id t = some g)
    (hl : g.listener = .failure m x) :
    (d.dispatchNamed id name payload).2 =
      (d.consume id t).beginRecording id m x (.failure payload) := by
  simp [dispatchNamed, dispatch, he, hg, hl, consume]

/-- Others leave the listeners of the attempt `x` alone, apart from the event that they wait for. -/
theorem OtherStep.registration_eq (h : OtherStep d e d') (alone : e.guest? ≠ some (.ofResource x))
    (fine : mishaps x d e = [])
    (quiet : ∀ {id name payload}, e = .dispatch id name payload →
      EventType.read name = .ok .importError → id ≠ .ofResource x) :
    d'.correlator.registration? (.ofResource x) .importError =
      d.correlator.registration? (.ofResource x) .importError := by
  have other {id : CorrelationId} (h : some id ≠ some (.ofResource x)) : id ≠ .ofResource x :=
    fun hid => h (congrArg some hid)
  have consumed {id : CorrelationId} {name : String} {payload : Json} {t : EventType}
      (he : EventType.read name = .ok t) (hevent : e = .dispatch id name payload) :
      (d.consume id t).correlator.registration? (.ofResource x) .importError =
        d.correlator.registration? (.ofResource x) .importError := by
    refine (Correlator.registration?_consume ..).trans (if_neg ?_)
    rintro ⟨hid, rfl⟩
    exact quiet hevent he hid
  cases h with
  | unrecorded he | result he | failure he => exact consumed he rfl
  | @abandon id =>
      refine (Correlator.registration?_abandon ..).trans (if_neg fun hid => ?_)
      simp [mishaps, hid] at fine
  | register => exact (Correlator.registration?_register ..).trans (if_neg (other alone))
  | withdraw => exact (Correlator.registration?_withdraw ..).trans (if_neg (other alone))
  | beginStart | unmatched | edit => rfl

theorem OtherStep.starts_kept (h : OtherStep d e d') {j : Nat} (hs : d.starts[j]? = some s) :
    d'.starts[j]? = some s := by
  cases h with
  | beginStart => exact (List.getElem?_append_left (List.getElem?_eq_some_iff.mp hs).1).trans hs
  | unmatched | unrecorded | result | failure | abandon | register | withdraw | edit => exact hs

theorem OtherStep.recordings_kept (h : OtherStep d e d') {j : Nat} {r : Recording}
    (hr : d.recordings[j]? = some r) : d'.recordings[j]? = some r := by
  cases h with
  | result | failure =>
      exact (List.getElem?_append_left (List.getElem?_eq_some_iff.mp hr).1).trans hr
  | beginStart | unmatched | unrecorded | abandon | register | withdraw | edit => exact hr

theorem Cares.otherStep (h : Cares x d) (step : OtherStep d e d') (hstep : d.step e = some d')
    (alone : e.guest? ≠ some (.ofResource x)) (fine : mishaps x d e = []) : Cares x d' := by
  have rows : d'.store.attempts.get? x = d.store.attempts.get? x := by rw [step.store_eq.2]
  refine ⟨fun hopen => ?_, fun hj hx hw hopen => ?_⟩
  · have attended := h.attended (hopen.congr rows)
    by_cases reported : ∃ name payload, e = .dispatch (.ofResource x) name payload ∧
        EventType.read name = .ok .importError
    · -- The failure that the listener waits for is recorded; others go on as they were.
      obtain ⟨name, payload, rfl, he⟩ := reported
      cases attended with
      | refusal hs hp hx => exact .refusal (step.starts_kept hs) hp hx
      | recording hr hx hw => exact .recording (step.recordings_kept hr) hx hw
      | listener hg hl =>
          obtain rfl : (d.dispatchNamed (.ofResource x) name payload).2 = d' :=
            Option.some.inj hstep
          rw [dispatchNamed_failure payload he hg hl]
          exact .recording (k := d.recordings.length) (by simp [beginRecording, consume]; rfl) rfl
            (by simp [RecordingPhase.writer?])
    · refine attended.congr (fun hs _ _ => step.starts_kept hs)
        (fun hr _ _ => step.recordings_kept hr) (step.registration_eq alone fine ?_)
      rintro id name payload hevent he rfl
      exact reported ⟨name, payload, hevent, he⟩
  · rcases step.recording_cases hj with hj | ⟨report, hnew⟩
    · exact h.closed hj hx hw (hopen.congr rows)
    · cases report <;> simp [hnew, RecordingPhase.writer?] at hw

theorem Cares.step (h : Cares x d) (hd : d.Filed ids) (hs : d.step e = some d')
    (alone : e.guest? ≠ some (.ofResource x)) (fine : mishaps x d e = []) : Cares x d' := by
  rcases step_cases hs with ⟨k, s, b, p, hk, step, rfl⟩ | ⟨k, r, b, p, hk, step, rfl⟩ | step
  · exact h.startStep hd hk step hs fine
  · exact h.recordingStep hd hk step hs fine
  · exact h.otherStep step hs alone fine

end Step

section Run

variable {process : String} {callbackBase : Option String} {x : ResourceId} {es : List Event}
  {d : ReleaseDesk}

/-- If no id is generated twice and others misfile no milestone, all is filed as it should be. -/
theorem filed_of_run (run : Run ReleaseDesk.step (.empty process callbackBase) es d)
    (fresh : (notes ReleaseDesk.step generated (.empty process callbackBase) es).Nodup)
    (kept : notes ReleaseDesk.step misfiled (.empty process callbackBase) es = []) :
    d.Filed (notes ReleaseDesk.step generated (.empty process callbackBase) es) := by
  induction run with
  | nil => exact filed_empty process callbackBase
  | @snoc es d d' e before last ih =>
      rw [notes_snoc _ before last] at fresh kept ⊢
      obtain ⟨kept, hkept⟩ := List.append_eq_nil_iff.mp kept
      obtain ⟨fresh, _, apart⟩ := List.nodup_append.mp fresh
      exact (ih fresh kept).step last hkept fun id hid hmem => apart id hmem id hid rfl

theorem cares_of_run (run : Run ReleaseDesk.step (.empty process callbackBase) es d)
    (fresh : (notes ReleaseDesk.step generated (.empty process callbackBase) es).Nodup)
    (kept : notes ReleaseDesk.step misfiled (.empty process callbackBase) es = [])
    (alone : ∀ e ∈ es, e.guest? ≠ some (.ofResource x))
    (fine : notes ReleaseDesk.step (mishaps x) (.empty process callbackBase) es = []) :
    Cares x d := by
  induction run with
  | nil => exact cares_empty x process callbackBase
  | @snoc es d d' e before last ih =>
      rw [notes_snoc _ before last] at fresh kept fine
      have kept := (List.append_eq_nil_iff.mp kept).1
      have fresh := (List.nodup_append.mp fresh).1
      obtain ⟨fine, hfine⟩ := List.append_eq_nil_iff.mp fine
      have cares := ih fresh kept (fun e he => alone e (List.mem_append_left _ he)) fine
      exact cares.step (filed_of_run before fresh kept) last
        (alone e (List.mem_append_right _ List.mem_cons_self)) hfine

/-- No attempt is left in progress for good. Its process is pending, or one of its reports is being
recorded, or its start is still under way, as long as nothing goes wrong on its behalf and no guest
starts a process under its correlation id. Ids are not generated twice, and others only save
milestones, each under its own id. -/
theorem inProgress_attended {a : ReleaseAttempt}
    (run : Run ReleaseDesk.step (.empty process callbackBase) es d)
    (fresh : (notes ReleaseDesk.step generated (.empty process callbackBase) es).Nodup)
    (kept : notes ReleaseDesk.step misfiled (.empty process callbackBase) es = [])
    (alone : ∀ e ∈ es, e.guest? ≠ some (.ofResource x))
    (fine : notes ReleaseDesk.step (mishaps x) (.empty process callbackBase) es = [])
    (ha : d.store.attempts.get? x = some a) (hopen : a.status = .inProgress) :
    d.correlator.isPending (.ofResource x) = true ∨
      (∃ r ∈ d.recordings, r.correlation = .ofResource x ∧ r.attempt = x ∧ r.phase ≠ .ended) ∨
      ∃ s ∈ d.starts, ∃ a', s.phase.attempt? = some a' ∧ a'.id = x := by
  have filed := filed_of_run run fresh kept
  cases (cares_of_run run fresh kept alone fine).attended ⟨a, ha, hopen⟩ with
  | refusal hs hp hx => exact .inr (.inr ⟨_, List.mem_of_getElem? hs, _, by rw [hp]; rfl, hx⟩)
  | recording hr hx hw =>
      have hid := (filed.recordings hr).correlation
      refine .inr (.inl ⟨_, List.mem_of_getElem? hr, hx ▸ hid, hx, ?_⟩)
      intro hended
      exact hw (by rw [hended]; rfl)
  | listener hg _ =>
      obtain ⟨p, hp, _⟩ := Option.bind_eq_some_iff.mp hg
      exact .inl (by rw [Correlator.isPending, Table.contains, hp]; rfl)

/-- A start whose caller gives up while the engine hangs, and then a report that cannot be read. -/
def hanging (now : Instant) : List Event := [
  .edit .empty (Table.empty.insert ⟨7⟩ ⟨⟨7⟩, "1.0", ⟨1⟩, none, none⟩) .empty .empty,
  .beginStart ⟨7⟩ "token",
  .answerStart 0 none now ⟨20⟩,
  .answerStart 0 none now ⟨20⟩,
  .answerStart 0 none now ⟨20⟩,
  .dropStart 0 false,
  .dispatch (.ofResource ⟨20⟩) "IMPORT_SUCCESS" .null]

theorem hanging_runs :
    ((hanging noon).foldlM ReleaseDesk.step (.empty "release" none)).isSome = true := by
  decide +kernel

def hung : ReleaseDesk :=
  ((hanging noon).foldlM ReleaseDesk.step (.empty "release" none)).get hanging_runs

/-- Nobody is at work on the attempt any more, but its failure can still be reported. -/
theorem pending_while_hanging :
    Run ReleaseDesk.step (.empty "release" none) (hanging noon) hung ∧
      hung.store.attempts.get? ⟨20⟩ = some (firstAttempt ⟨20⟩ ⟨7⟩ noon) ∧
      hung.correlator.isPending (.ofResource ⟨20⟩) = true := by
  have run : Run ReleaseDesk.step (.empty "release" none) (hanging noon) hung :=
    Run.iff_foldlM.mpr (Option.some_get hanging_runs).symm
  have ha : hung.store.attempts.get? ⟨20⟩ = some (firstAttempt ⟨20⟩ ⟨7⟩ noon) := by
    decide +kernel
  refine ⟨run, ha, ?_⟩
  rcases inProgress_attended (x := ⟨20⟩) run (by decide +kernel) (by decide +kernel)
      (by decide +kernel) (by decide +kernel) ha rfl with hpending | ⟨r, hr, _⟩ | ⟨s, hs, a, hp, _⟩
  · exact hpending
  · have idle : hung.recordings.length = 0 := by decide +kernel
    rw [List.length_eq_zero_iff.mp idle] at hr
    simp at hr
  · have done : hung.starts.all (·.phase.attempt? = none) = true := by decide +kernel
    have := List.all_eq_true.mp done s hs
    simp [hp] at this

end Run

end ReleaseDesk

end Foreman
