import Foreman.Proofs.Run
import Foreman.Release.Desk

/-!
What may happen at the release desk. Starts and recordings go on by the answers they get, callers
give up, events are delivered, and others work with the same correlator and the same rows. Every
event has one of the effects that `StartStep`, `RecordingStep` and `OtherStep` list.
-/

namespace Foreman

open Release

namespace ReleaseDesk

inductive Event where
  | beginStart (milestone : ResourceId) (accessToken : String)
  | answerStart (k : Nat) (fault : Option StorageFault) (now : Instant) (id : ResourceId)
  | answerAsking (k : Nat) (answer : Except EngineFault Unit) (now : Instant)
  | startAnnounced (k : Nat)
  | dropStart (k : Nat) (landed : Bool)
  | answerRecording (k : Nat) (fault : Option StorageFault) (now : Instant)
  | recordingAnnounced (k : Nat) (now : Instant)
  | dispatch (id : CorrelationId) (name : String) (payload : Json)
  /-- Someone outside gives up a process. -/
  | abandon (id : CorrelationId)
  /-- A guest starts a process. -/
  | register (id : CorrelationId) (process : String) (now : Instant)
    (guests : List (EventType × Nat))
  /-- The start of a guest's process is refused. -/
  | withdraw (id : CorrelationId) (call : Nat)
  /-- Others save rows, but no attempts. -/
  | edit (versions : Table ResourceId ProductVersion) (milestones : Table ResourceId Milestone)
    (records : Table ResourceId BuildRecord) (artifacts : Table ResourceId Artifact)

/-- When the event happens, if it looks at the clock. -/
def Event.now? : Event → Option Instant
  | answerStart _ _ now _ | answerAsking _ _ now | answerRecording _ _ now
  | recordingAnnounced _ now | register _ _ now _ => some now
  | _ => none

def step (d : ReleaseDesk) : Event → Option ReleaseDesk
  | .beginStart milestone accessToken => some (d.beginStart milestone accessToken)
  | .answerStart k fault now id => d.answerStart k fault now id
  | .answerAsking k answer now => d.answerAsking k answer now
  | .startAnnounced k => d.startAnnounced k
  | .dropStart k landed => d.dropStart k landed
  | .answerRecording k fault now => d.answerRecording k fault now
  | .recordingAnnounced k now => d.recordingAnnounced k now
  | .dispatch id name payload => some (d.dispatchNamed id name payload).2
  | .abandon id => some { d with correlator := d.correlator.abandon id }
  | .register id process now guests =>
    some { d with
      correlator := d.correlator.register id process now
        (guests.map fun g => (g.1, .guest g.2)) }
  | .withdraw id call => some { d with correlator := d.correlator.withdraw id call }
  | .edit versions milestones records artifacts =>
    some { d with store := { d.store with versions, milestones, records, artifacts } }

def saveAttempt (d : ReleaseDesk) (a : ReleaseAttempt) : ReleaseDesk :=
  { d with store := d.store.saveAttempt a }

/-! ### Starts -/

/-- The desk once a start has its attempt saved: others are let in, and the listeners wait. -/
def enroll (d : ReleaseDesk) (milestone : ResourceId) (m : Milestone) (a : ReleaseAttempt)
    (now : Instant) : ReleaseDesk :=
  { (d.saveAttempt a).unmark milestone with
    correlator := d.correlator.register (.ofResource a.id) d.process now (listeners m.id a.id) }

/-- The steps of the start `s` with number `k`: the event, the desk apart from the phase of the
start, and the new phase. -/
inductive StartStep (d : ReleaseDesk) (k : Nat) (s : Start) :
    Event → ReleaseDesk → StartPhase → Prop
  | lookupFails {f now id} (h : s.phase = .findingMilestone) :
      StartStep d k s (.answerStart k (some f) now id) d (.ended (.error f.toFault))
  | unknown {now id} (h : s.phase = .findingMilestone)
      (hm : d.store.milestones.get? s.milestone = none) :
      StartStep d k s (.answerStart k none now id) d
        (.ended (.error (.notFound ("milestone " ++ s.milestone.text))))
  | beaten {m now id} (h : s.phase = .findingMilestone)
      (hm : d.store.milestones.get? s.milestone = some m) (marked : s.milestone ∈ d.starting) :
      StartStep d k s (.answerStart k none now id) d (.ended (.error (conflict s.milestone)))
  | mark {m now id} (h : s.phase = .findingMilestone)
      (hm : d.store.milestones.get? s.milestone = some m) (free : s.milestone ∉ d.starting) :
      StartStep d k s (.answerStart k none now id) (d.mark s.milestone) (.checkingLatest m)
  | checkFails {m f now id} (h : s.phase = .checkingLatest m) :
      StartStep d k s (.answerStart k (some f) now id) (d.unmark s.milestone)
        (.ended (.error f.toFault))
  | occupied {m now id} (h : s.phase = .checkingLatest m)
      (busy : d.isInProgress s.milestone = true) :
      StartStep d k s (.answerStart k none now id) (d.unmark s.milestone)
        (.ended (.error (conflict s.milestone)))
  | proceed {m now id} (h : s.phase = .checkingLatest m)
      (idle : d.isInProgress s.milestone = false) :
      StartStep d k s (.answerStart k none now id) d
        (.savingAttempt m (firstAttempt id s.milestone now))
  | saveFails {m a f now id} (h : s.phase = .savingAttempt m a) :
      StartStep d k s (.answerStart k (some f) now id) (d.unmark s.milestone)
        (.ended (.error f.toFault))
  | enroll {m a now id} (h : s.phase = .savingAttempt m a) :
      StartStep d k s (.answerStart k none now id) (d.enroll s.milestone m a now)
        (.asking a d.correlator.calls (d.request m s.accessToken a))
  | closeFails {a f now id} (h : s.phase = .savingRefusal a) :
      StartStep d k s (.answerStart k (some f) now id) d (.ended (.error f.toFault))
  | close {a now id} (h : s.phase = .savingRefusal a) :
      StartStep d k s (.answerStart k none now id) (d.saveAttempt a) (.announcing a)
  | accept {a call r now} (h : s.phase = .asking a call r) :
      StartStep d k s (.answerAsking k (.ok ()) now) d (.announcing a)
  | refuse {a call r f now} (h : s.phase = .asking a call r) :
      StartStep d k s (.answerAsking k (.error f) now)
        { d with correlator := d.correlator.withdraw r.correlation call }
        (.savingRefusal (refusedAttempt a now))
  | announced {a} (h : s.phase = .announcing a) :
      StartStep d k s (.startAnnounced k) d (.ended (.ok a))
  | dropIdle {landed} (h : s.phase = .findingMilestone ∨ (∃ a call r, s.phase = .asking a call r) ∨
      ∃ a, s.phase = .announcing a) :
      StartStep d k s (.dropStart k landed) d .dropped
  | dropChecking {m landed} (h : s.phase = .checkingLatest m) :
      StartStep d k s (.dropStart k landed) (d.unmark s.milestone) .dropped
  | dropUnsaved {m a} (h : s.phase = .savingAttempt m a) :
      StartStep d k s (.dropStart k false) (d.unmark s.milestone) .dropped
  | dropSaved {m a} (h : s.phase = .savingAttempt m a) :
      StartStep d k s (.dropStart k true) ((d.saveAttempt a).unmark s.milestone) .dropped
  | dropOpen {a} (h : s.phase = .savingRefusal a) :
      StartStep d k s (.dropStart k false) d .dropped
  | dropClosed {a} (h : s.phase = .savingRefusal a) :
      StartStep d k s (.dropStart k true) (d.saveAttempt a) .dropped

/-- Whether the event is a step of the start with number `k`. -/
def StartMoves (d : ReleaseDesk) (k : Nat) (e : Event) (d' : ReleaseDesk) : Prop :=
  ∃ s b p, d.starts[k]? = some s ∧ StartStep d k s e b p ∧ d' = b.withStart k p

theorem answerStart_moves {d d' : ReleaseDesk} {k : Nat} {fault : Option StorageFault}
    {now : Instant} {id : ResourceId} (h : d.answerStart k fault now id = some d') :
    StartMoves d k (.answerStart k fault now id) d' := by
  simp only [answerStart, Option.bind_eq_bind, Option.bind_eq_some_iff] at h
  obtain ⟨s, hs, h⟩ := h
  cases hp : s.phase with
  | findingMilestone =>
      cases fault with
      | some f =>
          simp only [hp, Option.some.injEq] at h
          exact ⟨s, _, _, hs, .lookupFails hp, h.symm⟩
      | none =>
          cases hm : d.store.milestones.get? s.milestone with
          | none =>
              simp only [hp, hm, Option.some.injEq] at h
              exact ⟨s, _, _, hs, .unknown hp hm, h.symm⟩
          | some m =>
              by_cases marked : s.milestone ∈ d.starting
              · simp only [hp, hm, marked, if_true, Option.some.injEq] at h
                exact ⟨s, _, _, hs, .beaten hp hm marked, h.symm⟩
              · simp only [hp, hm, marked, if_false, Option.some.injEq] at h
                exact ⟨s, _, _, hs, .mark hp hm marked, h.symm⟩
  | checkingLatest m =>
      cases fault with
      | some f =>
          simp only [hp, Option.some.injEq] at h
          exact ⟨s, _, _, hs, .checkFails hp, h.symm⟩
      | none =>
          cases busy : d.isInProgress s.milestone with
          | true =>
              simp only [hp, busy, if_true, Option.some.injEq] at h
              exact ⟨s, _, _, hs, .occupied hp busy, h.symm⟩
          | false =>
              simp only [hp, busy, Bool.false_eq_true, if_false, Option.some.injEq] at h
              exact ⟨s, _, _, hs, .proceed hp busy, h.symm⟩
  | savingAttempt m a =>
      cases fault with
      | some f =>
          simp only [hp, Option.some.injEq] at h
          exact ⟨s, _, _, hs, .saveFails hp, h.symm⟩
      | none =>
          simp only [hp, Option.some.injEq] at h
          exact ⟨s, _, _, hs, .enroll hp, h.symm⟩
  | savingRefusal a =>
      cases fault with
      | some f =>
          simp only [hp, Option.some.injEq] at h
          exact ⟨s, _, _, hs, .closeFails hp, h.symm⟩
      | none =>
          simp only [hp, Option.some.injEq] at h
          exact ⟨s, _, _, hs, .close hp, h.symm⟩
  | asking a call r => simp [hp] at h
  | announcing a => simp [hp] at h
  | ended outcome => simp [hp] at h
  | dropped => simp [hp] at h

theorem answerAsking_moves {d d' : ReleaseDesk} {k : Nat} {answer : Except EngineFault Unit}
    {now : Instant} (h : d.answerAsking k answer now = some d') :
    StartMoves d k (.answerAsking k answer now) d' := by
  simp only [answerAsking, Option.bind_eq_bind, Option.bind_eq_some_iff] at h
  obtain ⟨s, hs, h⟩ := h
  split at h
  next hp => exact ⟨s, _, _, hs, .accept hp, (Option.some.inj h).symm⟩
  next hp => exact ⟨s, _, _, hs, .refuse hp, (Option.some.inj h).symm⟩
  next => simp at h

theorem startAnnounced_moves {d d' : ReleaseDesk} {k : Nat} (h : d.startAnnounced k = some d') :
    StartMoves d k (.startAnnounced k) d' := by
  simp only [startAnnounced, Option.bind_eq_bind, Option.bind_eq_some_iff] at h
  obtain ⟨s, hs, h⟩ := h
  split at h
  next a hp => exact ⟨s, _, _, hs, .announced hp, (Option.some.inj h).symm⟩
  next => simp at h

theorem dropStart_moves {d d' : ReleaseDesk} {k : Nat} {landed : Bool}
    (h : d.dropStart k landed = some d') : StartMoves d k (.dropStart k landed) d' := by
  simp only [dropStart, Option.bind_eq_bind, Option.bind_eq_some_iff] at h
  obtain ⟨s, hs, h⟩ := h
  split at h
  next => simp at h
  next => simp at h
  next m hp => exact ⟨s, _, _, hs, .dropChecking hp, (Option.some.inj h).symm⟩
  next m a hp =>
    cases landed with
    | true => exact ⟨s, _, _, hs, .dropSaved hp, (Option.some.inj h).symm⟩
    | false => exact ⟨s, _, _, hs, .dropUnsaved hp, (Option.some.inj h).symm⟩
  next a hp =>
    cases landed with
    | true => exact ⟨s, _, _, hs, .dropClosed hp, (Option.some.inj h).symm⟩
    | false => exact ⟨s, _, _, hs, .dropOpen hp, (Option.some.inj h).symm⟩
  next hp => exact ⟨s, _, _, hs, .dropIdle (.inl hp), (Option.some.inj h).symm⟩
  next a call r hp =>
    exact ⟨s, _, _, hs, .dropIdle (.inr (.inl ⟨a, call, r, hp⟩)), (Option.some.inj h).symm⟩
  next a hp =>
    exact ⟨s, _, _, hs, .dropIdle (.inr (.inr ⟨a, hp⟩)), (Option.some.inj h).symm⟩

/-! ### Recordings -/

def forget (d : ReleaseDesk) (id : CorrelationId) : ReleaseDesk :=
  { d with correlator := d.correlator.abandon id }

/-- Once its attempt is dealt with, a recording goes on with the builds or is over: the desk apart
from the phase of the recording, and that phase. -/
def turn (d : ReleaseDesk) (r : Recording) (now : Instant) :
    Option (Milestone × ReleaseResult) → ReleaseDesk × RecordingPhase
  | some (m, result) => (d, nextRecord m now result.builds)
  | none => (d.forget r.correlation, .ended)

/-- What a lookup gives that may fail. -/
def found {α : Type} (fault : Option StorageFault) (row : Option α) : Option α :=
  if fault.isNone then row else none

theorem found_none {α : Type} (row : Option α) : found none row = row := rfl

theorem found_eq_some {α : Type} {fault : Option StorageFault} {row : Option α} {a : α}
    (h : found fault row = some a) : row = some a := by
  unfold found at h
  split at h
  · exact h
  · simp at h

/-- The steps of the recording `r` with number `k`: the event, the desk apart from the phase of the
recording, and the new phase. -/
inductive RecordingStep (d : ReleaseDesk) (k : Nat) (r : Recording) :
    Event → ReleaseDesk → RecordingPhase → Prop
  | lost {report fault now} (h : r.phase = .findingMilestone report)
      (hm : found fault (d.store.milestones.get? r.milestone) = none) :
      RecordingStep d k r (.answerRecording k fault now) (d.forget r.correlation) .ended
  | describe {result m fault now} (h : r.phase = .findingMilestone (.result result))
      (hm : found fault (d.store.milestones.get? r.milestone) = some m) :
      RecordingStep d k r (.answerRecording k fault now) d
        (describe m result (heading result) (passages result))
  | fail {payload m fault now} (h : r.phase = .findingMilestone (.failure payload))
      (hm : found fault (d.store.milestones.get? r.milestone) = some m) :
      RecordingStep d k r (.answerRecording k fault now) d
        (.findingAttempt (failureText payload) .systemError none)
  | passage {m result text p ahead fault now} (h : r.phase = .describing m result text (p :: ahead)) :
      RecordingStep d k r (.answerRecording k fault now) d
        (ReleaseDesk.describe m result
          (text ++ p.text (fun id => found fault (d.store.records.get? id))
            (fun id => found fault (d.store.artifacts.get? id))) ahead)
  | find {text s after a fault now} (h : r.phase = .findingAttempt text s after)
      (ha : found fault (d.store.attempts.get? r.attempt) = some a) :
      RecordingStep d k r (.answerRecording k fault now) d
        (.savingAttempt (closedAttempt a text s now) after)
  | miss {text s after fault now} (h : r.phase = .findingAttempt text s after)
      (ha : found fault (d.store.attempts.get? r.attempt) = none) :
      RecordingStep d k r (.answerRecording k fault now) (d.turn r now after).1
        (d.turn r now after).2
  | close {a after now} (h : r.phase = .savingAttempt a after) :
      RecordingStep d k r (.answerRecording k none now) (d.saveAttempt a) (.announcing a after)
  | closeFails {a after f now} (h : r.phase = .savingAttempt a after) :
      RecordingStep d k r (.answerRecording k (some f) now) (d.turn r now after).1
        (d.turn r now after).2
  | announced {a after now} (h : r.phase = .announcing a after) :
      RecordingStep d k r (.recordingAnnounced k now) (d.turn r now after).1
        (d.turn r now after).2
  | findRecord {m b ahead row fault now} (h : r.phase = .findingRecord m b ahead)
      (hr : found fault (d.store.records.get? b.record) = some row) :
      RecordingStep d k r (.answerRecording k fault now) d
        (.savingRecord m (importedRecord row b) ahead)
  | missRecord {m b ahead fault now} (h : r.phase = .findingRecord m b ahead)
      (hr : found fault (d.store.records.get? b.record) = none) :
      RecordingStep d k r (.answerRecording k fault now) d (nextRecord m now ahead)
  | saveRecord {m row ahead fault now} (h : r.phase = .savingRecord m row ahead) :
      RecordingStep d k r (.answerRecording k fault now)
        (if fault.isNone then { d with store := d.store.saveRecord row } else d)
        (nextRecord m now ahead)
  | saveMilestone {m fault now} (h : r.phase = .savingMilestone m) :
      RecordingStep d k r (.answerRecording k fault now)
        (if fault.isNone then { d with store := d.store.saveMilestone m } else d)
        (.findingVersion m.productVersion)
  | findVersion {id v fault now} (h : r.phase = .findingVersion id)
      (hv : found fault (d.store.versions.get? id) = some v)
      (current : v.currentMilestone = some r.milestone) :
      RecordingStep d k r (.answerRecording k fault now) d
        (.savingVersion { v with currentMilestone := none })
  | passVersion {id fault now} (h : r.phase = .findingVersion id)
      (other : ∀ v, found fault (d.store.versions.get? id) = some v →
        v.currentMilestone ≠ some r.milestone) :
      RecordingStep d k r (.answerRecording k fault now) (d.forget r.correlation) .ended
  | saveVersion {v fault now} (h : r.phase = .savingVersion v) :
      RecordingStep d k r (.answerRecording k fault now)
        ((if fault.isNone then { d with store := d.store.saveVersion v } else d).forget
          r.correlation) .ended

/-- Whether the event is a step of the recording with number `k`. -/
def RecordingMoves (d : ReleaseDesk) (k : Nat) (e : Event) (d' : ReleaseDesk) : Prop :=
  ∃ r b p, d.recordings[k]? = some r ∧ RecordingStep d k r e b p ∧ d' = b.withRecording k p

theorem afterAttempt_eq (d : ReleaseDesk) (k : Nat) (r : Recording) (now : Instant)
    (after : Option (Milestone × ReleaseResult)) :
    d.afterAttempt k r now after = (d.turn r now after).1.withRecording k (d.turn r now after).2 := by
  cases after <;> rfl

theorem answerRecording_moves {d d' : ReleaseDesk} {k : Nat} {fault : Option StorageFault}
    {now : Instant} (h : d.answerRecording k fault now = some d') :
    RecordingMoves d k (.answerRecording k fault now) d' := by
  simp only [answerRecording, Option.bind_eq_bind, Option.bind_eq_some_iff] at h
  obtain ⟨r, hr, h⟩ := h
  split at h
  next report hp =>
    split at h
    next hm => exact ⟨r, _, _, hr, .lost hp hm, (Option.some.inj h).symm⟩
    next m result hm => exact ⟨r, _, _, hr, .describe hp hm, (Option.some.inj h).symm⟩
    next m payload hm => exact ⟨r, _, _, hr, .fail hp hm, (Option.some.inj h).symm⟩
  next m result text p ahead hp => exact ⟨r, _, _, hr, .passage hp, (Option.some.inj h).symm⟩
  next text s after hp =>
    split at h
    next a ha => exact ⟨r, _, _, hr, .find hp ha, (Option.some.inj h).symm⟩
    next ha =>
      exact ⟨r, _, _, hr, .miss hp ha, by rw [← afterAttempt_eq, ← Option.some.inj h]⟩
  next a after hp =>
    cases fault with
    | none => exact ⟨r, _, _, hr, .close hp, (Option.some.inj h).symm⟩
    | some f =>
      exact ⟨r, _, _, hr, .closeFails hp, by rw [← afterAttempt_eq, ← Option.some.inj h]⟩
  next m b ahead hp =>
    split at h
    next row hrow => exact ⟨r, _, _, hr, .findRecord hp hrow, (Option.some.inj h).symm⟩
    next hrow => exact ⟨r, _, _, hr, .missRecord hp hrow, (Option.some.inj h).symm⟩
  next m row ahead hp => exact ⟨r, _, _, hr, .saveRecord hp, (Option.some.inj h).symm⟩
  next m hp => exact ⟨r, _, _, hr, .saveMilestone hp, (Option.some.inj h).symm⟩
  next id hp =>
    split at h
    next v hv =>
      split at h
      next current =>
        exact ⟨r, _, _, hr, .findVersion hp hv current, (Option.some.inj h).symm⟩
      next other =>
        refine ⟨r, _, _, hr, .passVersion hp ?_, (Option.some.inj h).symm⟩
        intro v' hv'
        obtain rfl : v = v' := Option.some.inj (hv.symm.trans hv')
        exact other
    next hv =>
      refine ⟨r, _, _, hr, .passVersion hp ?_, (Option.some.inj h).symm⟩
      intro v hv'
      exact absurd (hv.symm.trans hv') (by simp)
  next v hp => exact ⟨r, _, _, hr, .saveVersion hp, (Option.some.inj h).symm⟩
  next => simp at h

theorem recordingAnnounced_moves {d d' : ReleaseDesk} {k : Nat} {now : Instant}
    (h : d.recordingAnnounced k now = some d') :
    RecordingMoves d k (.recordingAnnounced k now) d' := by
  simp only [recordingAnnounced, Option.bind_eq_bind, Option.bind_eq_some_iff] at h
  obtain ⟨r, hr, h⟩ := h
  split at h
  next a after hp =>
    exact ⟨r, _, _, hr, .announced hp, by rw [← afterAttempt_eq, ← Option.some.inj h]⟩
  next => simp at h

/-! ### Everything else -/

def consume (d : ReleaseDesk) (id : CorrelationId) (e : EventType) : ReleaseDesk :=
  { d with correlator := d.correlator.consume id e }

/-- The steps that neither a start nor a recording takes. -/
inductive OtherStep (d : ReleaseDesk) : Event → ReleaseDesk → Prop
  | beginStart {m token} : OtherStep d (.beginStart m token) (d.beginStart m token)
  | unmatched {id name payload} : OtherStep d (.dispatch id name payload) d
  /-- The event is for a guest, or its payload is no result. -/
  | unrecorded {id name payload e g} (he : EventType.read name = .ok e)
      (hg : d.correlator.registration? id e = some g) :
      OtherStep d (.dispatch id name payload) (d.consume id e)
  | result {id name payload e g m a result} (he : EventType.read name = .ok e)
      (hg : d.correlator.registration? id e = some g) (hl : g.listener = .result m a)
      (hr : (Wire.decode payload : Except Json.Fault ReleaseResult) = .ok result) :
      OtherStep d (.dispatch id name payload)
        ((d.consume id e).beginRecording id m a (.result result))
  | failure {id name payload e g m a} (he : EventType.read name = .ok e)
      (hg : d.correlator.registration? id e = some g) (hl : g.listener = .failure m a) :
      OtherStep d (.dispatch id name payload)
        ((d.consume id e).beginRecording id m a (.failure payload))
  | abandon {id} : OtherStep d (.abandon id) (d.forget id)
  | register {id process now guests} :
      OtherStep d (.register id process now guests)
        { d with
          correlator := d.correlator.register id process now
            (guests.map fun g => (g.1, .guest g.2)) }
  | withdraw {id call} :
      OtherStep d (.withdraw id call)
        { d with correlator := d.correlator.withdraw id call }
  | edit {versions milestones records artifacts} :
      OtherStep d (.edit versions milestones records artifacts)
        { d with store := { d.store with versions, milestones, records, artifacts } }

theorem dispatch_other (d : ReleaseDesk) (id : CorrelationId) (name : String) (payload : Json) :
    OtherStep d (.dispatch id name payload) (d.dispatchNamed id name payload).2 := by
  unfold dispatchNamed
  split
  next e he =>
    unfold dispatch
    split
    next => exact .unmatched
    next g hg =>
      dsimp only
      split
      next m a hl =>
        split
        next result hr => exact .result he hg hl hr
        next => exact .unrecorded he hg
      next m a hl => exact .failure he hg hl
      next => exact .unrecorded he hg
  next => exact .unmatched

/-- Every step is one of a start, one of a recording, or one of the others. -/
theorem step_cases {d d' : ReleaseDesk} {e : Event} (h : d.step e = some d') :
    (∃ k, StartMoves d k e d') ∨ (∃ k, RecordingMoves d k e d') ∨ OtherStep d e d' := by
  cases e with
  | answerStart k fault now id => exact .inl ⟨k, answerStart_moves h⟩
  | answerAsking k answer now => exact .inl ⟨k, answerAsking_moves h⟩
  | startAnnounced k => exact .inl ⟨k, startAnnounced_moves h⟩
  | dropStart k landed => exact .inl ⟨k, dropStart_moves h⟩
  | answerRecording k fault now => exact .inr (.inl ⟨k, answerRecording_moves h⟩)
  | recordingAnnounced k now => exact .inr (.inl ⟨k, recordingAnnounced_moves h⟩)
  | beginStart m token => exact .inr (.inr (Option.some.inj h ▸ .beginStart))
  | dispatch id name payload =>
      exact .inr (.inr (Option.some.inj h ▸ dispatch_other d id name payload))
  | abandon id => exact .inr (.inr (Option.some.inj h ▸ .abandon))
  | register id process now guests => exact .inr (.inr (Option.some.inj h ▸ .register))
  | withdraw id call => exact .inr (.inr (Option.some.inj h ▸ .withdraw))
  | edit versions milestones records artifacts =>
      exact .inr (.inr (Option.some.inj h ▸ .edit))

end ReleaseDesk

end Foreman
