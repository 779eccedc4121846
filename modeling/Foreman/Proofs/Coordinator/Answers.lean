import Foreman.Proofs.Coordinator.SingleFlight

/-!
What a coordinator reports of a build. A failure is settled when a processor gets to it, so whoever
has a build in hand finds it over; then all that is said of the build comes from its job and the
answer of the driver, whatever else goes on meanwhile.
-/

namespace Foreman

/-- Whether the task has been put into the queue for a failure that is not settled yet. -/
def Task.isUnsettled (t : Task) : Bool := t.enqueued && !t.status.isTerminal

theorem Task.isUnsettled_settle (t : Task) (now : Instant) :
    (t.settle now).isUnsettled = false := by
  rw [isUnsettled, isTerminal_settle, Bool.not_true, Bool.and_false]

namespace BuildJob

/-- The result of the build if the driver has answered so. -/
def resultOf (j : BuildJob) (v : Answer) : BuildResult :=
  ⟨j.identity, j.configuration.name, v.status, v.details?, v.error?⟩

/-- What is kept of the build if the driver has answered so. -/
def recordOf (j : BuildJob) (v : Answer) (id : ResourceId) (endedAt : Instant) : BuildRecord where
  id
  configurationId := j.configuration.id
  configurationName := j.configuration.name
  scmRepoUrl := j.configuration.scmRepoUrl
  scmRevision := j.configuration.scmRevision
  status := v.status
  submittedAt := j.submittedAt
  endedAt
  log := v.log
  attributes := .empty

end BuildJob

/-- What a call says of a build is what the driver has answered. -/
def Duty.Tells (j : BuildJob) (v : Answer) : Duty → Prop
  | .save r => ∃ id endedAt, r = j.recordOf v id endedAt
  | .report url r => j.callbackUrl = some url ∧ r = j.resultOf v
  | .complete ok => ok = true

namespace Coordinator

def isUnsettled (c : Coordinator) (i : Nat) : Bool := (c.task? i).any Task.isUnsettled

/-- Failures wait in the queue to be settled, and completed tasks keep their results. -/
structure Settling (c : Coordinator) : Prop where
  queued : ∀ {i}, c.isUnsettled i = true → ∃ e, ⟨i, .errored e⟩ ∈ c.workshop.queue.entries
  completed : ∀ {i t r}, c.task? i = some t → t.completion = some r →
    t.isUnsettled = false ∧ r = t.result

theorem settling_empty (reports : Bool) : (Coordinator.empty reports).Settling := by
  constructor <;>
    simp [isUnsettled, task?, Workshop.task?, Coordinator.empty, Workshop.empty]

section Settling

variable {c c' : Coordinator} {a : Action} {o : Option Errand} {i p : Nat} {phase : ProcessorPhase}
  {b : Bool} {e : QueuedTask} {t : Task}

/-- A task that a processor has in hand is not in the queue any more, so it is settled. -/
theorem Settling.hand (s : c.Settling) (h : c.Sound) (hp : c.processors[p]? = some ⟨phase, b⟩)
    (he : phase.inHand? = some e) : c.isUnsettled e.task = false := by
  rw [Bool.eq_false_iff]
  intro hu
  obtain ⟨err, hentry⟩ := s.queued hu
  have hc : ProcessorPhase.carries e.task phase = true := carries_iff.mpr ⟨e, he, rfl⟩
  exact Bool.false_ne_true ((h.ledger.carries_eq_false hentry hp).symm.trans hc)

/-- Only a failure leaves a task unsettled that was not so before. -/
theorem isUnsettled_turn (h : c.Sound) {u : Option Task} (turn : Turn c i a u)
    (hu : u.any Task.isUnsettled = true) :
    c.isUnsettled i = true ∨ ∃ e, a.answer? i = some (.error e) := by
  have queued {t : Task} (hq : t.enqueued = false) : t.isUnsettled = false := by
    rw [Task.isUnsettled, hq]
    rfl
  cases turn with
  | stay => exact .inl hu
  | enroll => simp [Task.isUnsettled, Task.new] at hu
  | @run now phase t hd hp ht =>
      have hq := (h.steady.before_run hd hp ht).1
      simp [queued (t := t.publish now _) hq] at hu
  | @wait now t hd ht =>
      have fits := h.steady.fit hd ht
      simp [queued (t := t.publish now _) fits.2] at hu
  | fail ha => exact .inr ⟨_, ha⟩
  | @collect details now t =>
      have hs : (t.collect details now).status.isTerminal = true := isTerminal_endStatus details
      simp [Task.isUnsettled, hs] at hu
  | settle => simp [Task.isUnsettled_settle] at hu
  | complete _ _ _ ht =>
      left
      rw [isUnsettled, ht]
      exact hu

theorem entries_finish (h : c.Sound) (hp : c.processors[p]? = some ⟨phase, b⟩)
    (he : phase.inHand? = some e) :
    (c.finish p e).workshop.queue.entries = c.workshop.queue.entries := by
  obtain ⟨t, -, -, -, -, heq⟩ := h.finish_eq hp (carries_iff.mpr ⟨e, he, rfl⟩)
  rw [heq]
  cases b <;> rfl

/-- A failure leaves the queue when it is settled. -/
theorem failure_move (h : c.Sound) (m : Move c a c' o) {err : DriverError}
    (hi : ⟨i, .errored err⟩ ∈ c.workshop.queue.entries) :
    ⟨i, .errored err⟩ ∈ c'.workshop.queue.entries ∨ c'.isUnsettled i = false := by
  cases m with
  | refuse | enroll | run | wait | stay | started | forward | forwarded | spawn | report =>
      exact .inl hi
  | unstarted | failed | finished => exact .inl (List.mem_append_left _ hi)
  | @stop p =>
      unfold Coordinator.stop
      split <;> exact .inl hi
  | @take p e now id takers entries t hk he ht =>
      rw [he, List.mem_cons] at hi
      rcases hi with rfl | hi
      · right
        have settled : (c.workshop.settle ⟨i, .errored err⟩ now).task? i =
            (c.workshop.task? i).map (·.settle now) := by
          simp [Workshop.settle, Workshop.change, Workshop.task?]
        show ((c.workshop.settle ⟨i, .errored err⟩ now).task? i).any Task.isUnsettled = false
        rw [settled]
        cases c.workshop.task? i with
        | none => rfl
        | some t => exact t.isUnsettled_settle now
      · exact .inl hi
  | pass hp => exact .inl (by rwa [entries_finish h hp rfl])
  | reported hp => exact .inl (by rwa [entries_finish h hp rfl])

theorem failure_queued (m : Move c a c' o) {err : DriverError}
    (ha : a.answer? i = some (.error err)) :
    ⟨i, .errored err⟩ ∈ c'.workshop.queue.entries := by
  cases m with
  | @unstarted k e | @failed k e =>
      simp only [Action.answer?, Option.ite_none_right_eq_some, Option.some.injEq,
        Except.error.injEq] at ha
      obtain ⟨rfl, rfl⟩ := ha
      exact List.mem_append_right _ (List.mem_singleton_self _)
  | _ => simp [Action.answer?] at ha

theorem Settling.queued_move (s : c.Settling) (h : c.Sound) (m : Move c a c' o)
    (hu : c'.isUnsettled i = true) : ∃ e, ⟨i, .errored e⟩ ∈ c'.workshop.queue.entries := by
  rcases isUnsettled_turn h (turn_move h m i) hu with before | ⟨err, ha⟩
  · -- What was unsettled before stays in the queue, unless this step settles it.
    obtain ⟨err, hentry⟩ := s.queued before
    rcases failure_move h m hentry with hentry | hnot
    · exact ⟨err, hentry⟩
    · simp [hnot] at hu
  · exact ⟨err, failure_queued m ha⟩

theorem Settling.completed_turn (s : c.Settling) (h : c.Sound) {u : Option Task}
    (turn : Turn c i a u) (hu : u = some t) {r : BuildResult} (hr : t.completion = some r) :
    t.isUnsettled = false ∧ r = t.result := by
  -- The drive of a completed task has ended, and the task is not in the queue.
  have ended {t : Task} {phase : DrivePhase} (hd : c.drives[i]? = some ⟨i, phase⟩)
      (ht : c.task? i = some t) (hr : t.completion = some r) : phase = .ended :=
    fits_ended (h.steady.fit hd ht) (h.ledger.order ht (by simp [Task.isCompleted, hr]))
  cases turn with
  | stay => exact s.completed hu hr
  | enroll =>
      obtain rfl := Option.some.inj hu
      simp [Task.new] at hr
  | run hd hp ht =>
      obtain rfl := Option.some.inj hu
      simp [ended hd ht hr] at hp
  | wait hd ht =>
      obtain rfl := Option.some.inj hu
      simpa using ended hd ht hr
  | fail ha hd hp ht =>
      obtain rfl := Option.some.inj hu
      simp [ended hd ht hr] at hp
  | collect hd ht =>
      obtain rfl := Option.some.inj hu
      simpa using ended hd ht hr
  | @settle now _ e t he hi ht =>
      obtain rfl := Option.some.inj hu
      subst hi
      obtain ⟨t', ht', -, hn⟩ := h.ledger.due_entry he
      obtain rfl := Option.some.inj (ht.symm.trans ht')
      have hkept : (t.settle now).completion = t.completion := congrArg Prod.snd (t.kept_settle now)
      rw [hkept, hn] at hr
      cases hr
  | complete ha hand hi ht =>
      obtain rfl := Option.some.inj hu
      obtain rfl := Option.some.inj hr
      obtain ⟨⟨phase, b⟩, hp, he⟩ := Option.bind_eq_some_iff.mp hand
      have settled := s.hand h hp he
      rw [isUnsettled, hi, ht] at settled
      exact ⟨settled, rfl⟩

theorem Settling.step (s : c.Settling) (h : c.Sound) (hs : c.step a = some (c', o)) :
    c'.Settling :=
  have m := step_move h.steady hs
  ⟨s.queued_move h m, fun ht => s.completed_turn h (turn_move h m _) ht⟩

theorem Settling.run (s : c.Settling) (h : c.Sound) {as : List Action} (run : Run next c as c') :
    c'.Settling := by
  induction run with
  | nil => exact s
  | snoc before last ih =>
      obtain ⟨⟨c', o⟩, hs, rfl⟩ := Option.map_eq_some_iff.mp last
      exact ih.step (h.run before) hs

end Settling

section Telling

variable {c c' : Coordinator} {a : Action} {o : Option Errand} {i p : Nat} {phase : ProcessorPhase}
  {b : Bool} {e : QueuedTask} {t : Task} {l : List Answer}

/-- Of a task that is settled, all is known from its job and the answer. -/
theorem Course.answered (course : Course (some t) l) (hq : t.enqueued = true)
    (settled : t.isUnsettled = false) :
    ∃ v, l = [v] ∧ t.result = t.job.resultOf v ∧
      ∀ id, t.record id = t.job.recordOf v id t.updatedAt := by
  cases course with
  | fresh open' | waiting open' | running open' => simp [open'.enqueued] at hq
  | failed _ status =>
      simp [Task.isUnsettled, hq, status, TaskStatus.isTerminal, State.isTerminal] at settled
  | @settled _ _ v _ status _ _ details lastError =>
      refine ⟨v, rfl, ?_, fun id => ?_⟩
      · rw [Task.result, status, details, lastError]
        rfl
      · have hlog : t.log = v.log := by
          rw [Task.log, details, lastError]
          cases v <;> rfl
        rw [Task.record, status, hlog]
        rfl

theorem Settling.answered (s : c.Settling) (h : c.Sound) (course : Course (c.task? e.task) l)
    (hp : c.processors[p]? = some ⟨phase, b⟩) (he : phase.inHand? = some e) :
    ∃ t v, c.task? e.task = some t ∧ l = [v] ∧ t.result = t.job.resultOf v ∧
      ∀ id, t.record id = t.job.recordOf v id t.updatedAt := by
  obtain ⟨t, ht, hq, -⟩ := h.ledger.due_hand hp (carries_iff.mpr ⟨e, he, rfl⟩)
  have settled := s.hand h hp he
  rw [isUnsettled, ht] at settled
  rw [ht] at course
  obtain ⟨v, answered⟩ := course.answered hq settled
  exact ⟨t, v, ht, answered⟩

/-- What is done for the task tells what has been answered for it. -/
def Tells (c : Coordinator) (i : Nat) (l : List Answer) (d : Duty) : Prop :=
  ∃ t v, c.task? i = some t ∧ l = [v] ∧ d.Tells t.job v

/-- The failure of the build, if there was one, is settled when its record is made. -/
theorem tells_take (h : c.Sound) (s : c.Settling) {now : Instant} {id : ResourceId}
    (hs : c.step (.take now id) = some (c', some (.save p (t.record id))))
    (hp : c.processors[p]? = some ⟨.idle, b⟩)
    (processors : c'.processors = (c.withProcessor p (.saving e (t.record id))).processors)
    (ht : c'.task? e.task = some t) (course : Course (c.task? e.task) l) :
    c'.Tells e.task l (.save (t.record id)) := by
  have hp' : c'.processors[p]? = some ⟨.saving e (t.record id), b⟩ := by
    rw [processors, getElem?_withProcessor, if_pos rfl, hp]
    rfl
  have course' := course.turn h (turn_move h (step_move h.steady hs) e.task)
  obtain ⟨t', v, ht', hl, -, record⟩ := (s.step h hs).answered (h.step hs) course' hp' rfl
  obtain rfl : t = t' := Option.some.inj (ht.symm.trans ht')
  exact ⟨t, v, ht, by simpa [Action.answer?] using hl, id, t.updatedAt, record id⟩

theorem tells_report (h : c.Sound) (s : c.Settling) {r : BuildRecord} {url : String}
    (hp : c.processors[p]? = some ⟨.saving e r, b⟩) (ht : c.task? e.task = some t)
    (hu : t.job.callbackUrl = some url) (course : Course (c.task? e.task) l) :
    (c.withProcessor p (.reporting e)).Tells e.task l (.report url t.result) := by
  obtain ⟨t', v, ht', hl, result, -⟩ := s.answered h course hp rfl
  obtain rfl : t = t' := Option.some.inj (ht.symm.trans ht')
  exact ⟨t, v, ht, hl, hu, result⟩

/-- The processor has had the build in hand, and completing it keeps what it tells. -/
theorem tells_finish (h : c.Sound) (s : c.Settling) (hp : c.processors[p]? = some ⟨phase, b⟩)
    (he : phase.inHand? = some e) (course : Course (c.task? e.task) l) :
    (c.finish p e).Tells e.task l (.complete true) := by
  obtain ⟨t, v, ht, hl, -⟩ := s.answered h course hp he
  obtain ⟨t', ht', -⟩ := (turn_finish (a := .saved p) h hp he rfl).job ht
  exact ⟨t', v, ht', hl, rfl⟩

/-- Whatever is called for a task in a step tells what the driver has answered. -/
theorem tells_step (h : c.Sound) (s : c.Settling) (course : Course (c.task? i) l)
    (hs : c.step a = some (c', o)) {x : PostCall} (hx : x ∈ c.calls a) (hi : x.concerns i = true) :
    c'.Tells i l x.duty := by
  have unmoved (ho : o.toList.flatMap c'.asked = [])
      (hands : ∀ p, p < c.processors.length → c'.hand? p = c.hand? p) : False := by
    rw [calls_quiet hs ho hands] at hx
    cases hx
  have only {p j : Nat} {d : Duty} (hcalls : c.calls a = [⟨p, some j, d⟩]) :
      j = i ∧ x.duty = d := by
    rw [hcalls, List.mem_singleton] at hx
    subst hx
    exact ⟨by simpa using hi, rfl⟩
  cases step_move h.steady hs with
  | refuse | enroll | run | wait | unstarted | failed | finished | stay | started | forward
  | forwarded => exact (unmoved rfl fun _ _ => rfl).elim
  | spawn => exact (unmoved rfl fun p _ => (alike_spawn c).hand p).elim
  | @stop p => exact (unmoved rfl fun q _ => (alike_stop c p).hand q).elim
  | take hk he ht =>
      obtain ⟨b, hp⟩ := h.line.mem.mp (hk ▸ List.mem_cons_self)
      obtain ⟨rfl, hd⟩ := only (calls_take hs hp rfl)
      exact hd ▸ tells_take h s hs hp rfl ht course
  | report hp ht hr hu =>
      obtain ⟨rfl, hd⟩ := only (calls_report hs hp rfl)
      exact hd ▸ tells_report h s hp ht hu course
  | pass hp =>
      obtain ⟨rfl, hd⟩ := only (calls_finish h hs hp rfl)
      exact hd ▸ tells_finish h s hp rfl course
  | reported hp =>
      obtain ⟨rfl, hd⟩ := only (calls_finish h hs hp rfl)
      exact hd ▸ tells_finish h s hp rfl course

/-- The driver answers for a task once at most. -/
theorem Course.length_le (course : Course (some t) l) : l.length ≤ 1 := by
  cases course <;> simp

/-- From a task for which the driver has not answered, a run calls nothing for it that does not tell
what the driver has answered then. -/
theorem tells_of_run (h : c.Sound) (s : c.Settling) (ht : c.task? i = some t)
    (course : Course (some t) []) {as : List Action} (run : Run next c as c') :
    ∃ t', c'.task? i = some t' ∧ t'.job = t.job ∧ Course (some t') (answers i as) ∧
      ∀ x ∈ callsFor i c as, ∃ v, answers i as = [v] ∧ x.duty.Tells t.job v := by
  induction run with
  | nil => exact ⟨t, ht, rfl, course, fun x hx => by cases hx⟩
  | @snoc as c₁ c₂ a before last ih =>
      obtain ⟨t₁, ht₁, job₁, course₁, tells₁⟩ := ih
      have h₁ := h.run before
      obtain ⟨⟨c₂, o⟩, hs, rfl⟩ := Option.map_eq_some_iff.mp last
      have turn := turn_move h₁ (step_move h₁.steady hs) i
      obtain ⟨t₂, ht₂, job₂⟩ := turn.job ht₁
      have course₂ := (ht₁ ▸ course₁).turn h₁ turn
      rw [ht₂, ← answers_snoc] at course₂
      refine ⟨t₂, ht₂, job₂.trans job₁, course₂, fun x hx => ?_⟩
      rw [callsFor, notes_snoc calls before last, List.filter_append, List.mem_append] at hx
      -- The driver answers once at most, so what it had answered before is all that it answers.
      have settled {v : Answer} (hv : answers i as = [v]) : answers i (as ++ [a]) = [v] := by
        have hle := course₂.length_le
        rw [answers_snoc, hv] at hle ⊢
        cases ha : a.answer? i with
        | none => rfl
        | some v' => simp [ha] at hle
      rcases hx with hx | hx
      · obtain ⟨v, hv, tells⟩ := tells₁ x hx
        exact ⟨v, settled hv, tells⟩
      · obtain ⟨hx, hi⟩ := List.mem_filter.mp hx
        obtain ⟨t', v, ht', hv, tells⟩ :=
          tells_step h₁ (s.run h before) (ht₁ ▸ course₁) hs hx hi
        obtain rfl : t₂ = t' := Option.some.inj (ht₂.symm.trans ht')
        exact ⟨v, settled hv, job₁ ▸ job₂ ▸ tells⟩

/-- If all that is done for a build tells the answer, it is the record and the result of the answer
that are passed on. -/
theorem script_of_tells {reports : Bool} {j : BuildJob} {v : Answer} {r : BuildRecord}
    {result : BuildResult} (tells : ∀ x ∈ script reports j p i r result, x.duty.Tells j v) :
    ∃ id endedAt,
      script reports j p i r result =
        script reports j p i (j.recordOf v id endedAt) (j.resultOf v) := by
  rw [script_eq] at tells
  obtain ⟨id, endedAt, rfl⟩ := tells ⟨p, some i, .save r⟩ (by simp)
  refine ⟨id, endedAt, ?_⟩
  cases hu : if reports then j.callbackUrl else none with
  | none => simp [script_eq, hu]
  | some url =>
      obtain ⟨-, rfl⟩ := tells ⟨p, some i, .report url result⟩ (by simp [hu])
      rfl

/-- When a task is completed, all that is due for it has been done, and it tells the same as the
result that is handed out. -/
theorem reported_of_completed (h : c.Sound) (s : c.Settling) (ht : c.task? i = some t)
    {result : BuildResult} (hn : t.completion = some result) (course : Course (some t) l)
    {calls : List PostCall} (told : c.Told i calls)
    (tells : ∀ x ∈ calls, ∃ v, l = [v] ∧ x.duty.Tells t.job v) :
    ∃ v p id endedAt, l = [v] ∧ result = t.job.resultOf v ∧
      calls = script c.reports t.job p i (t.job.recordOf v id endedAt) (t.job.resultOf v) := by
  obtain ⟨settled, rfl⟩ := s.completed ht hn
  have hq := h.ledger.order ht (by simp [Task.isCompleted, hn])
  obtain ⟨v, rfl, result, -⟩ := course.answered hq settled
  obtain ⟨p, r, reported, -, done⟩ := told.script h ht
  obtain rfl := done.mpr (by simp [hn])
  have tells (x : PostCall) (hx : x ∈ script c.reports t.job p i r reported) :
      x.duty.Tells t.job v := by
    obtain ⟨v', hv, told⟩ := tells x hx
    obtain rfl := List.singleton_inj.mp hv
    exact told
  obtain ⟨id, endedAt, script⟩ := script_of_tells tells
  exact ⟨v, p, id, endedAt, rfl, result, script⟩

end Telling

theorem eq_enroll_of_submit {c c' : Coordinator} {configuration : BuildConfiguration}
    {url : Option String} {now : Instant} (h : c.submit configuration url now = .ok c') :
    c' = c.enroll (.new ⟨configuration, now, url⟩ now) := by
  rw [submit_eq] at h
  split at h
  next => cases h
  next => exact (Except.ok.inj h).symm

/-- All that is ever reported of a build, be it to the repository, to its callback or to whoever
waits for it, comes from the job that was submitted and the one answer of the driver. Who waits for
the build gets the result once all of this has been reported. -/
theorem reports_answer {reports : Bool} {as bs : List Action} {c c₁ c₂ : Coordinator}
    {configuration : BuildConfiguration} {url : Option String} {now : Instant}
    (before : Run next (.empty reports) as c)
    (submitted : c.submit configuration url now = .ok c₁) (after : Run next c₁ bs c₂) :
    (∀ x ∈ callsFor c.workshop.tasks.length c₁ bs, ∃ v,
      answers c.workshop.tasks.length bs = [v] ∧ x.duty.Tells ⟨configuration, now, url⟩ v) ∧
    ∀ held r, c₂.outcome? c.workshop.tasks.length held = some r → ∃ v p id endedAt,
      answers c.workshop.tasks.length bs = [v] ∧
        r = .ok (BuildJob.resultOf ⟨configuration, now, url⟩ v) ∧
        callsFor c.workshop.tasks.length c₁ bs =
          script reports ⟨configuration, now, url⟩ p c.workshop.tasks.length
            (BuildJob.recordOf ⟨configuration, now, url⟩ v id endedAt)
            (BuildJob.resultOf ⟨configuration, now, url⟩ v) := by
  have h := sound_of_run before
  have hs : c.step (.submit configuration url now) = some (c₁, none) := by
    rw [step, submitted]
    rfl
  have run := (before.snoc (congrArg (Option.map Prod.fst) hs)).trans after
  obtain rfl := eq_enroll_of_submit submitted
  have h₁ := h.step hs
  have s₁ := ((settling_empty reports).run (sound_empty reports) before).step h hs
  have ht₁ := task?_enroll c c.workshop.tasks.length (.new ⟨configuration, now, url⟩ now)
  rw [if_pos rfl] at ht₁
  obtain ⟨t, ht, job, course, tells⟩ :=
    tells_of_run h₁ s₁ ht₁ (.fresh ⟨rfl, rfl, rfl⟩ rfl rfl) after
  refine ⟨tells, fun held r hr => ?_⟩
  have h₂ := h₁.run after
  cases hn : t.completion with
  | none => simp [outcome?, ht, hn, h₂.carried ht hn] at hr
  | some result =>
      obtain rfl : Except.ok result = r := by simpa [outcome?, ht, hn] using hr
      have absent : c.task? c.workshop.tasks.length = none := by simp [task?, Workshop.task?]
      have told := (told_enroll h (told_absent h absent) _ rfl).run h₁ after
      obtain ⟨v, p, id, endedAt, hv, rfl, reported⟩ :=
        reported_of_completed h₂ (s₁.run h₁ after) ht hn course told (job ▸ tells)
      rw [List.nil_append, reports_of_run run, job] at reported
      exact ⟨v, p, id, endedAt, hv, congrArg (Except.ok <| ·.resultOf v) job, reported⟩

def library : BuildConfiguration := ⟨⟨2⟩, "lib", "git", some "v1", "make", .empty, []⟩

/-- The driver cannot start a build and runs another one in vain meanwhile. -/
def loss (now : Instant) : List Action := [
  .drive 0 now, .drive 1 now,
  .started 0 (.ok ()), .started 1 (.error ⟨"gone"⟩),
  .monitored 0 (.ok ⟨"app", some 7, false, "red"⟩) now,
  .take now ⟨30⟩, .saved 0, .reported 0,
  .take now ⟨31⟩, .saved 0]

theorem small_runs :
    ([.spawn, .submit smallBuild none noon].foldlM next (.empty true)).isSome = true := by
  decide +kernel

theorem loss_runs :
    ((loss noon).foldlM next ((Option.get _ small_runs).enroll
      (.new ⟨library, noon, some "back"⟩ noon))).isSome = true := by
  decide +kernel

theorem reports_answer_of_loss :
    ∃ c c₁ c₂ p id endedAt, Run next (.empty true) [.spawn, .submit smallBuild none noon] c ∧
      c.submit library (some "back") noon = .ok c₁ ∧ Run next c₁ (loss noon) c₂ ∧
      c₂.outcome? 1 false =
        some (.ok (BuildJob.resultOf ⟨library, noon, some "back"⟩ (.error ⟨"gone"⟩))) ∧
      callsFor 1 c₁ (loss noon) =
        script true ⟨library, noon, some "back"⟩ p 1
          (BuildJob.recordOf ⟨library, noon, some "back"⟩ (.error ⟨"gone"⟩) id endedAt)
          (BuildJob.resultOf ⟨library, noon, some "back"⟩ (.error ⟨"gone"⟩)) := by
  have before := Run.iff_foldlM.mpr (Option.some_get small_runs).symm
  have after := Run.iff_foldlM.mpr (Option.some_get loss_runs).symm
  have submitted : (Option.get _ small_runs).submit library (some "back") noon =
      .ok ((Option.get _ small_runs).enroll (.new ⟨library, noon, some "back"⟩ noon)) := by
    rw [submit_eq, if_neg (by decide +kernel)]
  have length : (Option.get _ small_runs).workshop.tasks.length = 1 := by decide +kernel
  have answered : ((Option.get _ loss_runs).outcome? 1 false).isSome = true := by decide +kernel
  have answer : answers 1 (loss noon) = [.error ⟨"gone"⟩] := rfl
  obtain ⟨-, outcome⟩ := reports_answer before submitted after
  rw [length, answer] at outcome
  obtain ⟨r, hr⟩ := Option.isSome_iff_exists.mp answered
  obtain ⟨v, p, id, endedAt, hv, rfl, reported⟩ := outcome _ _ hr
  obtain rfl := List.singleton_inj.mp hv
  exact ⟨_, _, _, p, id, endedAt, before, submitted, after, hr, reported⟩

end Coordinator

end Foreman
