import Foreman.Proofs.Release.Errands
import Foreman.Proofs.Release.Milestones

/-!
Reports that are delivered and dealt with. The recordings of several reports may take their steps in
any order, or one report may be dealt with before the next one comes. As long as the repositories
do what they are asked to, every recording comes to its end, since each step leaves it fewer calls
to make.
-/

namespace Foreman

open Release

namespace Release

/-- How many answers a recording waits for at most. -/
def RecordingPhase.calls : RecordingPhase → Nat
  | .findingMilestone (.result r) => (passages r).length + 2 * r.builds.length + 8
  | .findingMilestone (.failure _) => 7
  | .describing _ r _ ahead => ahead.length + 2 * r.builds.length + 7
  | .findingAttempt _ _ after => 6 + (after.elim 0 fun x => 2 * x.2.builds.length)
  | .savingAttempt _ after => 5 + (after.elim 0 fun x => 2 * x.2.builds.length)
  | .announcing _ after => 4 + (after.elim 0 fun x => 2 * x.2.builds.length)
  | .findingRecord _ _ ahead => 5 + 2 * ahead.length
  | .savingRecord _ _ ahead => 4 + 2 * ahead.length
  | .savingMilestone _ => 3
  | .findingVersion _ => 2
  | .savingVersion _ => 1
  | .ended => 0

theorem RecordingPhase.calls_eq_zero {p : RecordingPhase} (h : p.calls = 0) : p = .ended := by
  cases p with
  | findingMilestone report => cases report <;> simp [calls] at h
  | ended => rfl
  | describing | findingAttempt | savingAttempt | announcing | findingRecord | savingRecord
  | savingMilestone | findingVersion | savingVersion => simp [calls] at h

/-- The recording is over, or there is a call for it to make. -/
def RecordingPhase.IsLive : RecordingPhase → Prop
  | .describing _ _ _ ahead => ahead ≠ []
  | _ => True

end Release

namespace ReleaseDesk

/-- A report on an attempt, as it is delivered. -/
structure Delivery where
  attempt : ReleaseAttempt
  name : String
  payload : Json

def Delivery.event (x : Delivery) : Event :=
  .dispatch (.ofResource x.attempt.id) x.name x.payload

def Event.isDispatch : Event → Bool
  | dispatch _ _ _ => true
  | _ => false

/-- The recording that goes on by the event. -/
def Event.recording? : Event → Option Nat
  | answerRecording k _ _ | recordingAnnounced k _ => some k
  | _ => none

/-- The event takes the recording with number `k` one step further, and no repository fails. -/
def Event.Serves (e : Event) (k : Nat) : Prop := e.recording? = some k ∧ e.fault? = none

instance (n : Nat) (e : Event) : Decidable (∃ k ≥ n, e.Serves k) :=
  decidable_of_iff (e.recording?.any (n ≤ ·) = true ∧ e.fault?.isNone = true) <| by
    cases h : e.recording? <;> simp [Event.Serves, h]

/-- The run from `d` to `d'` delivers each of the reports once and goes on with their recordings, in
whatever order, until all of them are over. Nothing else happens. -/
structure Delivers (d : ReleaseDesk) (l : List Delivery) (es : List Event) (d' : ReleaseDesk) :
    Prop where
  run : Run ReleaseDesk.step d es d'
  once : (es.filter Event.isDispatch).Perm (l.map Delivery.event)
  serving : ∀ e ∈ es, e.isDispatch = true ∨ ∃ k ≥ d.recordings.length, e.Serves k
  ended : ∀ k ≥ d.recordings.length, ∀ r, d'.recordings[k]? = some r → r.phase = .ended

/-- The reports are delivered in this order, each once the one before it is dealt with. -/
inductive OneByOne : ReleaseDesk → List Delivery → List Event → ReleaseDesk → Prop
  | nil {d} : OneByOne d [] [] d
  | cons {d t d' x l es es'} (first : Delivers d [x] es t) (rest : OneByOne t l es' d') :
      OneByOne d (x :: l) (es ++ es') d'

section Step

variable {d b d' : ReleaseDesk} {k : Nat} {e : Event} {r : Recording} {p : RecordingPhase}

/-! ### Recordings that are over -/

theorem RecordingStep.not_ended (h : RecordingStep d k r e b p) : r.phase ≠ .ended := by
  cases h <;> simp [*]

/-- No recording goes away, and those that are over stay as they are. -/
theorem ended_of_step (h : d.step e = some d') (hr : d.recordings[k]? = some r)
    (hp : r.phase = .ended) : d'.recordings[k]? = some r := by
  rcases step_cases h with ⟨j, s, b, q, _, step, rfl⟩ | ⟨j, r', b, q, hj, step, rfl⟩ | step
  · rw [recordings_withStart, step.recordings_eq]
    exact hr
  · have hne : k ≠ j := by
      rintro rfl
      obtain rfl := Option.some.inj (hr.symm.trans hj)
      exact step.not_ended hp
    rw [getElem?_withRecording_of_ne _ _ hne, step.frame.2.2]
    exact hr
  · exact step.recordings_kept hr

theorem recordings_length_le (h : d.step e = some d') :
    d.recordings.length ≤ d'.recordings.length := by
  rcases step_cases h with ⟨j, s, b, q, _, step, rfl⟩ | ⟨j, r', b, q, hj, step, rfl⟩ | step
  · rw [recordings_withStart, step.recordings_eq]
  · rw [withRecording, List.length_modify, step.frame.2.2]
  · cases step with
    | result | failure => simp [beginRecording, consume]
    | beginStart | unmatched | unrecorded | abandon | register | withdraw | edit => rfl

theorem ended_of_run {es : List Event} (run : Run ReleaseDesk.step d es d')
    (hr : d.recordings[k]? = some r) (hp : r.phase = .ended) : d'.recordings[k]? = some r :=
  run.invariant (I := fun t => t.recordings[k]? = some r) hr
    fun _ _ _ ih step => ended_of_step step ih hp

theorem recordings_length_le_of_run {es : List Event} (run : Run ReleaseDesk.step d es d') :
    d.recordings.length ≤ d'.recordings.length :=
  run.invariant (I := fun t => d.recordings.length ≤ t.recordings.length) le_rfl
    fun _ _ _ ih step => ih.trans (recordings_length_le step)

theorem Event.Serves.moves (serves : e.Serves k) (h : d.step e = some d') :
    RecordingMoves d k e d' := by
  cases e with
  | answerRecording j fault now =>
      obtain rfl := Option.some.inj serves.1
      exact answerRecording_moves h
  | recordingAnnounced j now =>
      obtain rfl := Option.some.inj serves.1
      exact recordingAnnounced_moves h
  | beginStart | answerStart | answerAsking | startAnnounced | dropStart | dispatch | abandon
  | register | withdraw | edit => simp [Event.Serves, Event.recording?] at serves

theorem Event.Serves.not_dispatch (serves : e.Serves k) : ¬e.isDispatch = true := by
  cases e <;> simp [Event.Serves, Event.recording?, Event.isDispatch] at serves ⊢

theorem Event.other (dispatch : e.isDispatch = true) (h : d.step e = some d') :
    OtherStep d e d' := by
  cases e with
  | dispatch id name payload => exact Option.some.inj h ▸ dispatch_other d id name payload
  | beginStart | answerStart | answerAsking | startAnnounced | dropStart | answerRecording
  | recordingAnnounced | abandon | register | withdraw | edit => simp [isDispatch] at dispatch

/-! ### Recordings that come to an end -/

theorem calls_describe_le (m : Milestone) (result : ReleaseResult) (text : String)
    (ahead : List Passage) : (describe m result text ahead).calls ≤
      ahead.length + 2 * result.builds.length + 7 := by
  fun_induction describe m result text ahead with
  | case1 text ahead ih => exact ih.trans (by simp only [List.length_cons]; omega)
  | case2 text => simp only [RecordingPhase.calls, Option.elim_some, List.length_nil]; omega
  | case3 text ahead => exact le_rfl

theorem isLive_describe (m : Milestone) (result : ReleaseResult) (text : String)
    (ahead : List Passage) : (describe m result text ahead).IsLive := by
  fun_induction describe m result text ahead with
  | case1 text ahead ih => exact ih
  | case2 text => trivial
  | case3 text ahead close nil => exact nil

theorem calls_nextRecord_le (m : Milestone) (now : Instant) (ahead : List BuildImport) :
    (nextRecord m now ahead).calls ≤ 3 + 2 * ahead.length := by
  cases ahead with
  | nil => exact le_rfl
  | cons b ahead => simp only [nextRecord, RecordingPhase.calls, List.length_cons]; omega

theorem isLive_nextRecord (m : Milestone) (now : Instant) (ahead : List BuildImport) :
    (nextRecord m now ahead).IsLive := by
  cases ahead <;> trivial

theorem calls_turn_le (d : ReleaseDesk) (r : Recording) (now : Instant)
    (after : Option (Milestone × ReleaseResult)) :
    (d.turn r now after).2.calls ≤ 3 + (after.elim 0 fun x => 2 * x.2.builds.length) := by
  cases after with
  | none => exact Nat.zero_le _
  | some x => exact calls_nextRecord_le ..

theorem isLive_turn (d : ReleaseDesk) (r : Recording) (now : Instant)
    (after : Option (Milestone × ReleaseResult)) : (d.turn r now after).2.IsLive := by
  cases after with
  | none => trivial
  | some x => exact isLive_nextRecord ..

/-- A step of a recording leaves it a call to make, if it is not over, and fewer than before. -/
theorem RecordingStep.calls_lt (h : RecordingStep d k r e b p) :
    p.IsLive ∧ p.calls < r.phase.calls := by
  cases h with
  | @lost report fault now h =>
      refine ⟨trivial, ?_⟩
      rw [h]
      cases report <;> simp [RecordingPhase.calls]
  | @describe result m fault now h =>
      refine ⟨isLive_describe .., (calls_describe_le ..).trans_lt ?_⟩
      simp [h, RecordingPhase.calls]
  | @passage m result text p ahead fault now h =>
      refine ⟨isLive_describe .., (calls_describe_le ..).trans_lt ?_⟩
      simp only [h, RecordingPhase.calls, List.length_cons]
      omega
  | @miss text s after fault now h =>
      refine ⟨isLive_turn .., (calls_turn_le ..).trans_lt ?_⟩
      simp only [h, RecordingPhase.calls]
      omega
  | closeFails h | announced h =>
      refine ⟨isLive_turn .., (calls_turn_le ..).trans_lt ?_⟩
      simp only [h, RecordingPhase.calls]
      omega
  | missRecord h | saveRecord h =>
      refine ⟨isLive_nextRecord .., (calls_nextRecord_le ..).trans_lt ?_⟩
      simp only [h, RecordingPhase.calls]
      omega
  | fail h | find h | close h | findRecord h | saveMilestone h | findVersion h | passVersion h
  | saveVersion h =>
      refine ⟨trivial, ?_⟩
      simp [h, RecordingPhase.calls]

/-- A recording that is not over can take another step without a repository failing. -/
theorem exists_serves (now : Instant) (hr : d.recordings[k]? = some r) (live : r.phase.IsLive)
    (hp : r.phase ≠ .ended) : ∃ e d', e.Serves k ∧ d.step e = some d' := by
  have answers (h : (d.answerRecording k none now).isSome = true) :
      ∃ e d', Event.Serves e k ∧ d.step e = some d' := by
    obtain ⟨d', hd'⟩ := Option.isSome_iff_exists.mp h
    exact ⟨.answerRecording k none now, d', ⟨rfl, rfl⟩, hd'⟩
  cases hphase : r.phase with
  | findingMilestone report =>
      refine answers ?_
      cases hm : d.store.milestones.get? r.milestone <;> cases report <;>
        simp [answerRecording, hr, hphase, hm]
  | describing m result text ahead =>
      rw [hphase] at live
      obtain ⟨p, ahead, rfl⟩ := List.exists_cons_of_ne_nil live
      exact answers (by simp [answerRecording, hr, hphase])
  | findingAttempt text s after =>
      refine answers ?_
      cases ha : d.store.attempts.get? r.attempt <;> simp [answerRecording, hr, hphase, ha]
  | savingAttempt a after => exact answers (by simp [answerRecording, hr, hphase])
  | announcing a after =>
      refine ⟨.recordingAnnounced k now, ?_⟩
      cases after <;> simp [step, recordingAnnounced, hr, hphase, afterAttempt, Event.Serves,
        Event.recording?, Event.fault?]
  | findingRecord m b ahead =>
      refine answers ?_
      cases hrow : d.store.records.get? b.record <;> simp [answerRecording, hr, hphase, hrow]
  | savingRecord m row ahead => exact answers (by simp [answerRecording, hr, hphase])
  | savingMilestone m => exact answers (by simp [answerRecording, hr, hphase])
  | findingVersion id =>
      refine answers ?_
      cases hv : d.store.versions.get? id with
      | none => simp [answerRecording, hr, hphase, hv]
      | some v =>
          by_cases current : v.currentMilestone = some r.milestone <;>
            simp [answerRecording, hr, hphase, hv, current]
  | savingVersion v => exact answers (by simp [answerRecording, hr, hphase])
  | ended => exact absurd hphase hp

/-- However far a recording has got, it can be taken to its end. -/
theorem exists_ending (now : Instant) (hr : d.recordings[k]? = some r) (live : r.phase.IsLive) :
    ∃ es d' r', Run ReleaseDesk.step d es d' ∧ (∀ e ∈ es, e.Serves k) ∧
      d'.recordings.length = d.recordings.length ∧ d'.recordings[k]? = some r' ∧
      r'.phase = .ended := by
  induction hn : r.phase.calls using Nat.strong_induction_on generalizing d r with
  | _ n ih =>
      by_cases hp : r.phase = .ended
      · exact ⟨[], d, r, .nil, by simp, rfl, hr, hp⟩
      · obtain ⟨e, t, serves, hstep⟩ := exists_serves now hr live hp
        obtain ⟨r', b, p, hr', move, rfl⟩ := serves.moves hstep
        obtain rfl := Option.some.inj (hr.symm.trans hr')
        obtain ⟨live, fewer⟩ := move.calls_lt
        have hb : b.recordings = d.recordings := move.frame.2.2
        obtain ⟨es, d', r', run, all, length, hk, hended⟩ := ih _ (hn ▸ fewer)
          (getElem?_withRecording_self (hb.symm ▸ hr)) live rfl
        refine ⟨[e] ++ es, d', r', (Run.nil.snoc hstep).trans run, ?_, ?_, hk, hended⟩
        · rintro e' (_ | ⟨_, he⟩)
          · exact serves
          · exact all e' he
        · rw [length, withRecording, List.length_modify, hb]

end Step

section Existence

/-- Each report can be dealt with by itself. -/
theorem exists_delivers (now : Instant) (d : ReleaseDesk) (x : Delivery) :
    ∃ es d', Delivers d [x] es d' := by
  obtain ⟨t, hstep⟩ : ∃ t, d.step x.event = some t := ⟨_, rfl⟩
  have first : Run ReleaseDesk.step d [x.event] t := Run.nil.snoc hstep
  have dispatch : x.event.isDispatch = true := rfl
  rcases (Event.other dispatch hstep).begin_cases with
    ⟨same, -⟩ | ⟨id, -, -, m, a, -, report, -, -, -, begun, -⟩
  · refine ⟨[x.event], t, first, .refl _, by simp [dispatch], fun k hk r hr => ?_⟩
    rw [same, List.getElem?_eq_none hk] at hr
    simp at hr
  · -- The recording that has begun is taken to its end.
    have hr : t.recordings[d.recordings.length]? = some ⟨id, m, a, .findingMilestone report⟩ := by
      rw [begun, List.getElem?_concat_length]
    obtain ⟨es, d', r', run, all, length, hk, hended⟩ := exists_ending now hr trivial
    refine ⟨[x.event] ++ es, d', first.trans run, ?_, ?_, fun k hk' r hr => ?_⟩
    · rw [List.filter_append, List.filter_eq_nil_iff.mpr fun e he => (all e he).not_dispatch]
      exact .refl _
    · rintro e (_ | ⟨_, he⟩)
      · exact .inl dispatch
      · exact .inr ⟨_, le_rfl, all e he⟩
    · have hlt := (List.getElem?_eq_some_iff.mp hr).1
      rw [length, begun, List.length_append, List.length_singleton] at hlt
      obtain rfl : k = d.recordings.length := by omega
      obtain rfl := Option.some.inj (hk.symm.trans hr)
      exact hended

/-- The reports can be delivered one by one in any order. -/
theorem exists_oneByOne (now : Instant) (d : ReleaseDesk) (l : List Delivery) :
    ∃ es d', OneByOne d l es d' := by
  induction l generalizing d with
  | nil => exact ⟨[], d, .nil⟩
  | cons x l ih =>
      obtain ⟨es, t, first⟩ := exists_delivers now d x
      obtain ⟨es', d', rest⟩ := ih t
      exact ⟨es ++ es', d', .cons first rest⟩

theorem Delivers.trans {d t d' : ReleaseDesk} {l l' : List Delivery} {es es' : List Event}
    (h : Delivers d l es t) (h' : Delivers t l' es' d') :
    Delivers d (l ++ l') (es ++ es') d' where
  run := h.run.trans h'.run
  once := by
    rw [List.filter_append, List.map_append]
    exact h.once.append h'.once
  serving e he := by
    rcases List.mem_append.mp he with he | he
    · exact h.serving e he
    · refine (h'.serving e he).imp_right fun ⟨k, hk, serves⟩ => ⟨k, ?_, serves⟩
      exact (recordings_length_le_of_run h.run).trans hk
  ended k hk r hr := by
    by_cases hlt : k < t.recordings.length
    · have hp := h.ended k hk _ (List.getElem?_eq_getElem hlt)
      have kept := ended_of_run h'.run (List.getElem?_eq_getElem hlt) hp
      obtain rfl := Option.some.inj (kept.symm.trans hr)
      exact hp
    · exact h'.ended k (Nat.le_of_not_lt hlt) r hr

theorem OneByOne.delivers {d d' : ReleaseDesk} {l : List Delivery} {es : List Event}
    (h : OneByOne d l es d') : Delivers d l es d' := by
  induction h with
  | @nil d =>
      exact ⟨.nil, .nil, by simp, fun k hk r hr => absurd (List.getElem?_eq_none hk) (by simp [hr])⟩
  | cons first _ ih => exact first.trans ih

end Existence

end ReleaseDesk
end Foreman
