import Foreman.Http.Respond
import Foreman.Proofs.Correlator.Flat
import Foreman.Proofs.Release.Success

/-!
Requests that are carried out one at a time. The service answers most of them at once. The start of
a release goes on step by step as the repositories and the engine answer it, and the report of a
process until it is recorded; the clients are told on the way. Every request comes to an answer.
-/

namespace Foreman

open Http Release

namespace Correlator

variable {L : Type} {c : Correlator L}

theorem Tight.consume (h : c.Tight) (id : CorrelationId) (e : EventType) :
    (c.consume id e).Tight := by
  unfold Correlator.consume
  split
  · exact h.keep _ _
  · exact h

theorem Tight.abandon (h : c.Tight) (id : CorrelationId) : (c.abandon id).Tight := by
  have := h.giveUp id
  rwa [giveUp_eq] at this

/-- To look for a listener that is not there changes nothing. A process that had no listeners at
all would be forgotten on the way. -/
theorem Tight.consume_eq_self (h : c.Tight) {id : CorrelationId} {e : EventType}
    (absent : c.registration? id e = none) : c.consume id e = c := by
  unfold Correlator.consume
  cases hp : c.processes.get? id with
  | none => rfl
  | some p =>
      have same : p.listeners.erase e = p.listeners :=
        Table.erase_eq_self (by simpa [registration?, hp] using absent)
      simp [same, Correlator.keep, h.listeners hp, Table.insert_eq_self hp]

end Correlator

namespace ReleaseDesk

section Tight

variable {d b d' : ReleaseDesk} {k : Nat} {e : Event}

theorem StartStep.tight {s : Start} {p : StartPhase} (h : StartStep d k s e b p)
    (hd : d.correlator.Tight) : b.correlator.Tight := by
  cases h with
  | enroll => exact hd.register (.ofResource _) _ _ (listeners _ _)
  | refuse => exact hd.withdraw ..
  | lookupFails | unknown | beaten | mark | checkFails | occupied | proceed | saveFails | closeFails
  | close | accept | announced | dropIdle | dropChecking | dropUnsaved | dropSaved | dropOpen
  | dropClosed => exact hd

theorem RecordingStep.tight {r : Recording} {p : RecordingPhase} (h : RecordingStep d k r e b p)
    (hd : d.correlator.Tight) : b.correlator.Tight := by
  cases h with
  | lost | passVersion => exact hd.abandon _
  | @miss text s after fault now | @closeFails a after f now | @announced a after now =>
      rcases fst_turn d r now after with h | h <;> rw [h]
      · exact hd
      · exact hd.abandon _
  | saveVersion => split <;> exact hd.abandon _
  | saveRecord | saveMilestone => split <;> exact hd
  | describe | fail | passage | find | close | findRecord | missRecord | findVersion => exact hd

theorem OtherStep.tight (h : OtherStep d e d') (hd : d.correlator.Tight) :
    d'.correlator.Tight := by
  cases h with
  | unrecorded | result | failure => exact hd.consume ..
  | abandon => exact hd.abandon _
  | register => exact hd.register ..
  | withdraw => exact hd.withdraw ..
  | beginStart | unmatched | edit => exact hd

theorem tight_of_run {process : String} {callbackBase : Option String} {es : List Event}
    (run : Run ReleaseDesk.step (.empty process callbackBase) es d) : d.correlator.Tight := by
  have empty : (ReleaseDesk.empty process callbackBase).correlator.Tight :=
    ⟨fun hp => by simp [ReleaseDesk.empty, Correlator.empty] at hp⟩
  refine run.invariant (I := fun d => d.correlator.Tight) empty fun d e d' hd h => ?_
  rcases step_cases h with ⟨k, s, b, p, -, step, rfl⟩ | ⟨k, r, b, p, -, step, rfl⟩ | step
  · exact step.tight hd
  · exact step.tight hd
  · exact step.tight hd

end Tight

/-! ### Starts by themselves -/

/-- The start that goes on by the event. -/
def Event.start? : Event → Option Nat
  | answerStart k _ _ _ | answerAsking k _ _ | startAnnounced k => some k
  | _ => none

/-- The event takes the start with number `k` one step further, and no repository fails. -/
def Event.Furthers (e : Event) (k : Nat) : Prop := e.start? = some k ∧ e.fault? = none

end ReleaseDesk

/-- How many answers a start has to wait for, at most. -/
def Release.StartPhase.calls : StartPhase → Nat
  | .findingMilestone => 6
  | .checkingLatest _ => 5
  | .savingAttempt _ _ => 4
  | .asking _ _ _ => 3
  | .savingRefusal _ => 2
  | .announcing _ => 1
  | .ended _ | .dropped => 0

namespace ReleaseDesk

section Start

variable {d b d' : ReleaseDesk} {k : Nat} {e : Event} {s : Start} {p : StartPhase}

theorem Event.Furthers.moves (h : e.Furthers k) (hs : d.step e = some d') :
    StartMoves d k e d' := by
  cases e with
  | answerStart j fault now id =>
      obtain rfl := Option.some.inj h.1
      exact answerStart_moves hs
  | answerAsking j answer now =>
      obtain rfl := Option.some.inj h.1
      exact answerAsking_moves hs
  | startAnnounced j =>
      obtain rfl := Option.some.inj h.1
      exact startAnnounced_moves hs
  | beginStart | dropStart | answerRecording | recordingAnnounced | dispatch | abandon | register
  | withdraw | edit => simp [Furthers, start?] at h

/-- A start that goes on is not dropped, and has fewer answers to wait for than before. -/
theorem StartStep.calls_lt (h : StartStep d k s e b p) (own : e.Furthers k) :
    p ≠ .dropped ∧ p.calls < s.phase.calls := by
  cases h with
  | dropIdle | dropChecking | dropUnsaved | dropSaved | dropOpen | dropClosed =>
      simp [Event.Furthers, Event.start?] at own
  | lookupFails h | unknown h | beaten h | mark h | checkFails h | occupied h | proceed h
  | saveFails h | enroll h | closeFails h | close h | accept h | refuse h | announced h =>
      simp [h, StartPhase.calls]

/-- A start that is not over can go on without a repository failing. -/
theorem exists_furthers (hs : d.starts[k]? = some s) (live : s.phase.calls ≠ 0) :
    ∃ e d', Event.Furthers e k ∧ d.step e = some d' := by
  have answers (h : (d.answerStart k none noon ⟨0⟩).isSome = true) :
      ∃ e d', Event.Furthers e k ∧ d.step e = some d' := by
    obtain ⟨d', hd'⟩ := Option.isSome_iff_exists.mp h
    exact ⟨.answerStart k none noon ⟨0⟩, d', ⟨rfl, rfl⟩, hd'⟩
  cases hp : s.phase with
  | findingMilestone =>
      refine answers ?_
      cases hm : d.store.milestones.get? s.milestone with
      | none => simp [answerStart, hs, hp, hm]
      | some m => by_cases marked : s.milestone ∈ d.starting <;>
          simp [answerStart, hs, hp, hm, marked]
  | checkingLatest m =>
      refine answers ?_
      cases busy : d.isInProgress s.milestone <;> simp [answerStart, hs, hp, busy]
  | savingAttempt m a | savingRefusal a => exact answers (by simp [answerStart, hs, hp])
  | asking a call r =>
      exact ⟨.answerAsking k (.ok ()) noon, d.withStart k (.announcing a), ⟨rfl, rfl⟩,
        by simp [step, answerAsking, hs, hp]⟩
  | announcing a =>
      exact ⟨.startAnnounced k, d.withStart k (.ended (.ok a)), ⟨rfl, rfl⟩,
        by simp [step, startAnnounced, hs, hp]⟩
  | ended | dropped => simp [hp, StartPhase.calls] at live

theorem exists_outcome (hs : d.starts[k]? = some s) (kept : s.phase ≠ .dropped) :
    ∃ es d' s' outcome, Run ReleaseDesk.step d es d' ∧ (∀ e ∈ es, e.Furthers k) ∧
      d'.starts[k]? = some s' ∧ s'.phase = .ended outcome := by
  induction hn : s.phase.calls using Nat.strong_induction_on generalizing d s with
  | _ n ih =>
      by_cases done : s.phase.calls = 0
      · cases hp : s.phase with
        | ended outcome => exact ⟨[], d, s, outcome, .nil, by simp, hs, hp⟩
        | dropped => exact absurd hp kept
        | findingMilestone | checkingLatest | savingAttempt | asking | savingRefusal | announcing =>
            simp [hp, StartPhase.calls] at done
      · obtain ⟨e, t, own, hstep⟩ := exists_furthers hs done
        obtain ⟨s', b, p, hs', move, rfl⟩ := own.moves hstep
        obtain rfl := Option.some.inj (hs.symm.trans hs')
        obtain ⟨kept, fewer⟩ := move.calls_lt own
        obtain ⟨es, d', s', outcome, run, all, hk, ended⟩ := ih _ (hn ▸ fewer)
          (getElem?_withStart_self (move.starts_eq.symm ▸ hs)) kept rfl
        refine ⟨[e] ++ es, d', s', outcome, (Run.nil.snoc hstep).trans run, ?_, hk, ended⟩
        rintro e' (_ | ⟨_, he⟩)
        · exact own
        · exact all e' he

end Start

end ReleaseDesk

namespace Service

variable {C : Type} [Recipient C]

/-- The desk takes a step, and the clients are told of the attempt if that is what it was. -/
def act (send : Notification → Notifier.Send C) (s : Service C) (e : ReleaseDesk.Event) :
    Option (Service C) :=
  (s.desk.step e).map fun desk =>
    (s.desk.announcements e).foldl (publishAttempt send) { s with desk }

/-- How the service answers a request that it carries out with nothing else going on meanwhile: the
response and the service afterwards. The repositories work; the engine answers as it likes. -/
inductive Answers (send : Notification → Notifier.Send C) (s : Service C) (r : Request) :
    Response → Service C → Prop
  | done {now response t} (h : s.receive now r = (.done response, t)) :
      Answers send s r (finish r response) t
  | started {now k t es u start outcome} (h : s.receive now r = (.starting k, t))
      (run : Run (act send) t es u) (own : ∀ e ∈ es, e.Furthers k)
      (hs : u.desk.starts[k]? = some start) (ended : start.phase = .ended outcome) :
      Answers send s r (finish r (releaseResponse outcome)) u
  | delivered {now x t es u} (h : s.receive now r = (.delivering x, t))
      (run : Run (act send) t es u) (own : ∀ e ∈ es, ∃ k, x = .recording k ∧ e.Serves k)
      (ended : ∀ k, x = .recording k → ∃ rec, u.desk.recordings[k]? = some rec ∧
        rec.phase = .ended) :
      Answers send s r (finish r (deliveryResponse true)) u

/-! ### What is received -/

end Service

theorem ReleaseDesk.dispatchNamed_unmatched {d : ReleaseDesk} {id : CorrelationId} {name : String}
    {payload : Json} (h : (d.dispatchNamed id name payload).1 = .unmatched) :
    (d.dispatchNamed id name payload).2 = d := by
  unfold dispatchNamed at h ⊢
  split at h
  next e he =>
    unfold dispatch at h ⊢
    cases hg : d.correlator.registration? id e with
    | none => rfl
    | some g =>
        simp only [hg] at h
        cases hl : g.listener with
        | result m a =>
            cases hr : (Wire.decode payload : Except Json.Fault ReleaseResult) <;>
              simp [hl, hr] at h
        | failure m a => simp [hl] at h
        | guest n => simp [hl] at h
  next => rfl

/-- The number of a recording is that of the one that has just begun. -/
theorem ReleaseDesk.dispatchNamed_recording {d : ReleaseDesk} {id : CorrelationId} {name : String}
    {payload : Json} {k : Nat} (h : (d.dispatchNamed id name payload).1 = .recording k) :
    ∃ r report, (d.dispatchNamed id name payload).2.recordings[k]? = some r ∧
      r.phase = .findingMilestone report := by
  unfold dispatchNamed at h ⊢
  split at h
  next e he =>
    unfold dispatch at h ⊢
    cases hg : d.correlator.registration? id e with
    | none => simp [hg] at h
    | some g =>
        simp only [hg] at h
        cases hl : g.listener with
        | result m a =>
            cases hr : (Wire.decode payload : Except Json.Fault ReleaseResult) with
            | ok result =>
                obtain rfl : d.recordings.length = k := by simpa [hl, hr] using h
                simp [hl, beginRecording]
            | error => simp [hl, hr] at h
        | failure m a =>
            obtain rfl : d.recordings.length = k := by simpa [hl] using h
            simp [hl, beginRecording]
        | guest n => simp [hl] at h
  next => simp at h

namespace Service

variable {C : Type}

section Receive

variable {s t : Service C} {now : Instant} {c : Command} {r : Request} {p : Progress}

theorem perform_cases (h : s.perform now c = (p, t)) :
    (∃ response, p = .done response ∧
      (t = s ∨ response.status = 202 ∧ response ≠ deliveryResponse false)) ∨
    (∃ m token, p = .starting s.desk.starts.length ∧
      t = { s with desk := s.desk.beginStart m token }) ∨
    ∃ id name payload x, p = .delivering x ∧ (s.desk.dispatchNamed id name payload).1 = x ∧
      t = { s with desk := (s.desk.dispatchNamed id name payload).2 } := by
  cases c with
  | health | readiness | listBuilds | listRecords | releaseState =>
      obtain ⟨rfl, rfl⟩ := Prod.mk.inj h
      exact .inl ⟨_, rfl, .inl rfl⟩
  | submitBuild configuration url =>
      have h : (Progress.done (s.submitBuild configuration url now).1,
        (s.submitBuild configuration url now).2) = (p, t) := h
      obtain ⟨rfl, rfl⟩ := Prod.mk.inj h
      refine .inl ⟨_, rfl, ?_⟩
      rw [submitBuild]
      split
      next => exact .inl rfl
      next coordinator hc =>
        cases coordinator.submit configuration url now with
        | error f => exact .inl rfl
        | ok c => exact .inr ⟨rfl, by simp [Response.accepted, deliveryResponse, buildView]⟩
  | startRelease m token =>
      obtain ⟨rfl, rfl⟩ := Prod.mk.inj h
      exact .inr (.inl ⟨m, token, rfl, rfl⟩)
  | deliver id name payload =>
      rw [perform] at h
      generalize hd : s.desk.dispatchNamed id name payload = y at h
      obtain ⟨x, desk⟩ := y
      have hx : (s.desk.dispatchNamed id name payload).1 = x := by rw [hd]
      obtain rfl : (s.desk.dispatchNamed id name payload).2 = desk := by rw [hd]
      obtain ⟨rfl, rfl⟩ := Prod.mk.inj h
      cases x with
      | unmatched =>
          refine .inl ⟨_, rfl, .inl ?_⟩
          rw [ReleaseDesk.dispatchNamed_unmatched hx]
      | unreadable =>
          exact .inl ⟨_, rfl, .inr ⟨rfl, by simp [Response.accepted, deliveryResponse]⟩⟩
      | recording | guest => exact .inr (.inr ⟨id, name, payload, _, rfl, hx, rfl⟩)

/-- A request is answered at once and changes nothing, unless it is accepted; or it begins the start
of a release, or the desk delivers its event. -/
theorem receive_cases (h : s.receive now r = (p, t)) :
    (∃ response, p = .done response ∧
      (t = s ∨ response.status = 202 ∧ response ≠ deliveryResponse false)) ∨
    (∃ m token, p = .starting s.desk.starts.length ∧
      t = { s with desk := s.desk.beginStart m token }) ∨
    ∃ id name payload x, p = .delivering x ∧ (s.desk.dispatchNamed id name payload).1 = x ∧
      t = { s with desk := (s.desk.dispatchNamed id name payload).2 } := by
  unfold receive at h
  split at h
  next c hc => exact perform_cases h
  next response hr =>
    obtain ⟨rfl, rfl⟩ := Prod.mk.inj h
    exact .inl ⟨response, rfl, .inl rfl⟩

end Receive

section Answers

variable [Recipient C] {send : Notification → Notifier.Send C} {s t : Service C}
  {e : ReleaseDesk.Event} {es : List ReleaseDesk.Event} {r : Request}

theorem desk_foldl_publishAttempt (l : List ReleaseAttempt) (s : Service C) :
    (l.foldl (publishAttempt send) s).desk = s.desk := by
  induction l generalizing s with
  | nil => rfl
  | cons a l ih => exact ih _

theorem desk_act (h : s.act send e = some t) : s.desk.step e = some t.desk := by
  obtain ⟨desk, hd, rfl⟩ := Option.map_eq_some_iff.mp h
  rw [desk_foldl_publishAttempt]
  exact hd

/-- A step at which the clients are told of nothing concerns the desk alone. -/
theorem act_eq_some_of_quiet (quiet : e.told? = none) :
    s.act send e = some t ↔ ∃ desk, s.desk.step e = some desk ∧ t = { s with desk } := by
  have none : s.desk.announcements e = [] := by
    rw [ReleaseDesk.announcements, quiet]
    rfl
  rw [act, none, Option.map_eq_some_iff]
  simp only [List.foldl_nil, eq_comm]

/-- What the desk can do the service can do. -/
theorem exists_act {d : ReleaseDesk} (run : Run ReleaseDesk.step s.desk es d) :
    ∃ t, Run (act send) s es t ∧ t.desk = d := by
  induction run with
  | nil => exact ⟨s, .nil, rfl⟩
  | @snoc es d d' e before last ih =>
      obtain ⟨t, run, rfl⟩ := ih
      refine ⟨(t.desk.announcements e).foldl (publishAttempt send) { t with desk := d' },
        run.snoc ?_, desk_foldl_publishAttempt ..⟩
      rw [act, last, Option.map_some]

/-- Every request comes to an answer. -/
theorem exists_answer (send : Notification → Notifier.Send C) (s : Service C) (r : Request)
    (now : Instant) : ∃ response t, s.Answers send r response t := by
  obtain ⟨p, t, h⟩ : ∃ p t, s.receive now r = (p, t) := ⟨_, _, rfl⟩
  rcases receive_cases h with ⟨response, rfl, -⟩ | ⟨m, token, rfl, rfl⟩ |
    ⟨id, name, payload, x, rfl, hx, rfl⟩
  · exact ⟨_, t, .done h⟩
  · have hs : (s.desk.beginStart m token).starts[s.desk.starts.length]? =
        some ⟨m, token, .findingMilestone⟩ := List.getElem?_concat_length ..
    obtain ⟨es, d, start, outcome, run, own, hk, ended⟩ := ReleaseDesk.exists_outcome hs (by simp)
    obtain ⟨u, run, rfl⟩ := exists_act (s := { s with desk := s.desk.beginStart m token }) run
    exact ⟨_, u, .started h run own hk ended⟩
  · cases x with
    | recording k =>
        obtain ⟨rec, report, hr, hp⟩ := ReleaseDesk.dispatchNamed_recording hx
        obtain ⟨es, d, rec', run, own, -, hk, ended⟩ :=
          ReleaseDesk.exists_ending noon hr (by rw [hp]; trivial)
        obtain ⟨u, run, rfl⟩ := exists_act
          (s := { s with desk := (s.desk.dispatchNamed id name payload).2 }) run
        refine ⟨_, u, .delivered h run (fun e he => ⟨k, rfl, own e he⟩) fun j hj => ?_⟩
        obtain rfl := ReleaseDesk.Dispatch.recording.inj hj
        exact ⟨rec', hk, ended⟩
    | unmatched | guest | unreadable =>
        exact ⟨_, _, .delivered h .nil (by simp) fun k hk => by simp at hk⟩

end Answers

end Service

end Foreman
