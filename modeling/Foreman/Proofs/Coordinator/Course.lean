import Foreman.Proofs.Coordinator.PostProcessing

/-!
The course of a build in a coordinator. A step does one thing to a task at most, each at its place
on the way: the task waits and runs, then the driver answers, and that is what it ends with, if only
after a processor has settled a failure.
-/

namespace Foreman

/-- What the driver has answered at last: that it could not start the build, or what its monitoring
has come to. -/
abbrev Answer := Except DriverError BuildDetails

namespace Answer

/-- The status in which an answer leaves a build. -/
def status : Answer → TaskStatus
  | .ok d => if d.success then ⟨.collectResults, .completed⟩ else ⟨.collectResults, .failed⟩
  | .error _ => ⟨.build, .systemError⟩

def log : Answer → String
  | .ok d => d.log
  | .error e => e.message

def details? : Answer → Option BuildDetails
  | .ok d => some d
  | .error _ => none

def error? : Answer → Option DriverError
  | .ok _ => none
  | .error e => some e

theorem status_ok (d : BuildDetails) : status (.ok d) = Coordinator.endStatus d := by
  cases h : d.success <;> simp [status, Coordinator.endStatus, h]

theorem isTerminal_status (v : Answer) : v.status.isTerminal = true := by
  cases v with
  | ok d =>
      rw [status_ok]
      exact Coordinator.isTerminal_endStatus d
  | error e => rfl

end Answer

namespace Coordinator

/-- The answer for the drive of the task, if the action is one. -/
def Action.answer? (i : Nat) : Action → Option Answer
  | .started k (.error e) => if k = i then some (.error e) else none
  | .monitored k answer _ => if k = i then some answer else none
  | _ => none

def answers (i : Nat) (as : List Action) : List Answer := as.filterMap (Action.answer? i)

/-- What a step does to a task: what becomes of it. -/
inductive Turn (c : Coordinator) (i : Nat) : Action → Option Task → Prop
  | stay {a} (ha : a.answer? i = none) : Turn c i a (c.task? i)
  | enroll {configuration url now} (hi : c.task? i = none) :
      Turn c i (.submit configuration url now) (some (.new ⟨configuration, now, url⟩ now))
  | run {now phase t} (hd : c.drives[i]? = some ⟨i, phase⟩)
      (hp : phase = .arriving ∨ ∃ w, phase = .waiting w ∧ w.seen ≠ c.running.signals)
      (ht : c.task? i = some t)
      (free : DependencyWait.pending t.job.dependencies c.running = 0) :
      Turn c i (.drive i now) (some (t.publish now ⟨.build, .running⟩))
  | wait {now t} (hd : c.drives[i]? = some ⟨i, .arriving⟩) (ht : c.task? i = some t)
      (blocked : DependencyWait.pending t.job.dependencies c.running ≠ 0) :
      Turn c i (.drive i now) (some (t.publish now ⟨.build, .waitingForDependencies⟩))
  | fail {a e phase t} (ha : a.answer? i = some (.error e))
      (hd : c.drives[i]? = some ⟨i, phase⟩) (hp : phase = .starting ∨ phase = .monitoring)
      (ht : c.task? i = some t) : Turn c i a (some (t.fail e).1)
  | collect {details now t} (hd : c.drives[i]? = some ⟨i, .monitoring⟩) (ht : c.task? i = some t) :
      Turn c i (.monitored i (.ok details) now) (some (t.collect details now))
  | settle {now id e t} (he : e ∈ c.workshop.queue.entries) (hi : e.task = i)
      (ht : c.task? i = some t) : Turn c i (.take now id) (some (t.settle now))
  | complete {a p e t} (ha : a.answer? i = none) (hand : c.hand? p = some e) (hi : e.task = i)
      (ht : c.task? i = some t) : Turn c i a (some { t with completion := some t.result })

section Turn

variable {c c' : Coordinator} {a : Action} {o : Option Errand} {k i : Nat}

/-- A step that is about another task. -/
theorem Turn.other (ha : a.answer? i = none) (task : c'.task? i = c.task? i) :
    Turn c i a (c'.task? i) := by
  rw [task]
  exact .stay ha

/-- A step that revises the task `k`. -/
theorem Turn.revise {f : Task → Task} {t : Task} (ht : c.task? k = some t)
    (tasks : c'.workshop.tasks = (c.revise k f).workshop.tasks)
    (ha : k ≠ i → a.answer? i = none) (turn : k = i → Turn c i a (some (f t))) :
    Turn c i a (c'.task? i) := by
  have task : c'.task? i = if k = i then (c.task? i).map f else c.task? i := by
    rw [← task?_revise, task?, task?, Workshop.task?, Workshop.task?, tasks]
  by_cases hi : k = i
  · have turn := turn hi
    subst hi
    rw [task, if_pos rfl, ht]
    exact turn
  · exact .other (ha hi) (by rw [task, if_neg hi])

/-- A build whose drive still looks at its dependencies. -/
theorem Steady.before_run (h : c.Steady) {phase : DrivePhase} (hd : c.drives[k]? = some ⟨k, phase⟩)
    (hp : phase = .arriving ∨ ∃ w, phase = .waiting w ∧ w.seen ≠ c.running.signals) {t : Task}
    (ht : c.task? k = some t) : t.enqueued = false ∧ t.status ≠ ⟨.build, .running⟩ := by
  have fits := h.fit hd ht
  rcases hp with rfl | ⟨w, rfl, -⟩
  · exact ⟨fits.2, by rw [fits.1]; decide⟩
  · exact ⟨fits.2.1, by rw [fits.1]; decide⟩

theorem turn_finish (h : c.Sound) {p : Nat} {phase : ProcessorPhase} {b : Bool} {e : QueuedTask}
    (hp : c.processors[p]? = some ⟨phase, b⟩) (he : phase.inHand? = some e)
    (ha : a.answer? i = none) : Turn c i a ((c.finish p e).task? i) := by
  obtain ⟨t, ht, -, -, -, heq⟩ := h.finish_eq hp (carries_iff.mpr ⟨e, he, rfl⟩)
  rw [heq, task?_rest, task?_conclude]
  by_cases hi : e.task = i
  · rw [if_pos hi, ← hi, ht]
    exact .complete (hi ▸ ha) ((hand?_of_processor hp).trans he) rfl ht
  · rw [if_neg hi]
    exact .stay ha

/-- Every step does one of these to each task. -/
theorem turn_move (h : c.Sound) (m : Move c a c' o) (i : Nat) : Turn c i a (c'.task? i) := by
  cases m with
  | refuse | started | forward | forwarded | spawn | report => exact .stay rfl
  | stay => exact .stay rfl
  | @stop p =>
      refine .other rfl ?_
      unfold Coordinator.stop
      split <;> rfl
  | enroll =>
      rw [task?_enroll]
      split
      next hi => exact .enroll (by simp [task?, Workshop.task?, hi])
      next => exact .stay rfl
  | run hd hp ht free =>
      refine .revise ht rfl (fun _ => rfl) fun hi => ?_
      subst hi
      exact .run hd hp ht free
  | wait hd ht blocked =>
      refine .revise ht rfl (fun _ => rfl) fun hi => ?_
      subst hi
      exact .wait hd ht blocked
  | unstarted hd | failed hd =>
      obtain ⟨t, ht⟩ := h.steady.task hd
      refine .revise ht rfl (fun hi => by simp [Action.answer?, hi]) fun hi => ?_
      subst hi
      exact .fail (by simp [Action.answer?]) hd (by simp) ht
  | @finished k details now hd =>
      obtain ⟨t, ht⟩ := h.steady.task hd
      refine .revise (f := (·.collect details now)) ht rfl (fun hi => by simp [Action.answer?, hi])
        fun hi => ?_
      subst hi
      exact .collect hd ht
  | @take p e now id takers entries t hk he ht =>
      rcases task?_settle_cases c.workshop e now i with same | ⟨hi, settled⟩
      · exact .other rfl same
      · obtain ⟨t, ht, -⟩ := h.ledger.due_entry (e := e) (by simp [he])
        have hi' : c.task? i = some t := hi ▸ ht
        show Turn c i _ ((c.workshop.settle e now).task? i)
        rw [settled, show c.workshop.task? i = some t from hi']
        exact .settle (by simp [he]) hi hi'
  | pass hp => exact turn_finish h hp rfl rfl
  | reported hp => exact turn_finish h hp rfl rfl

/-- A task keeps its job in whatever is done to it. -/
theorem Turn.job {u : Option Task} (turn : Turn c i a u) {t : Task} (ht : c.task? i = some t) :
    ∃ t', u = some t' ∧ t'.job = t.job := by
  cases turn with
  | stay => exact ⟨t, ht, rfl⟩
  | enroll hi => simp [ht] at hi
  | settle _ _ hi =>
      obtain rfl := Option.some.inj (ht.symm.trans hi)
      exact ⟨_, rfl, congrArg Prod.fst (t.kept_settle _)⟩
  | run _ _ hi | wait _ hi | fail _ _ _ hi | collect _ hi | complete _ _ _ hi =>
      obtain rfl := Option.some.inj (ht.symm.trans hi)
      exact ⟨_, rfl, rfl⟩

end Turn

/-! ### Where a build stands -/

/-- The driver has not answered for the task. -/
structure Unanswered (t : Task) : Prop where
  enqueued : t.enqueued = false
  details : t.details = none
  lastError : t.lastError = none

/-- What a build publishes before it runs. -/
def IsLead (l : List TaskStatus) : Prop := l <+: [⟨.build, .waitingForDependencies⟩]

/-- How a task stands after the answers for it. -/
inductive Course : Option Task → List Answer → Prop
  | absent : Course none []
  | fresh {t} (open' : Unanswered t) (status : t.status = .initial) (published : t.published = []) :
      Course (some t) []
  | waiting {t} (open' : Unanswered t) (status : t.status = ⟨.build, .waitingForDependencies⟩)
      (published : t.published = [⟨.build, .waitingForDependencies⟩]) : Course (some t) []
  | running {t l} (open' : Unanswered t) (status : t.status = ⟨.build, .running⟩) (lead : IsLead l)
      (published : t.published = l ++ [⟨.build, .running⟩]) : Course (some t) []
  | failed {t l e} (enqueued : t.enqueued = true) (status : t.status = ⟨.build, .running⟩)
      (lead : IsLead l) (published : t.published = l ++ [⟨.build, .running⟩])
      (details : t.details = none) (lastError : t.lastError = some e) : Course (some t) [.error e]
  | settled {t l} {v : Answer} (enqueued : t.enqueued = true) (status : t.status = v.status)
      (lead : IsLead l) (published : t.published = l ++ [⟨.build, .running⟩, v.status])
      (details : t.details = v.details?) (lastError : t.lastError = v.error?) : Course (some t) [v]

section Course

variable {c c' : Coordinator} {a : Action} {o : Option Errand} {i : Nat} {t : Task}
  {l : List Answer}

theorem Unanswered.publish (h : Unanswered t) (now : Instant) (s : TaskStatus) :
    Unanswered (t.publish now s) :=
  ⟨h.enqueued, h.details, h.lastError⟩

theorem Course.run (course : Course (some t) l) (hq : t.enqueued = false)
    (hs : t.status ≠ ⟨.build, .running⟩) (now : Instant) :
    Course (some (t.publish now ⟨.build, .running⟩)) l := by
  cases course with
  | fresh open' _ published =>
      exact .running (open'.publish ..) rfl List.nil_prefix (by simp [Task.publish, published])
  | waiting open' _ published =>
      exact .running (open'.publish ..) rfl List.prefix_rfl (by simp [Task.publish, published])
  | running _ status => exact (hs status).elim
  | failed enqueued | settled enqueued => simp [hq] at enqueued

theorem Course.wait (course : Course (some t) l) (fits : DrivePhase.Fits t .arriving)
    (now : Instant) : Course (some (t.publish now ⟨.build, .waitingForDependencies⟩)) l := by
  obtain ⟨initial, hq⟩ := fits
  cases course with
  | fresh open' _ published =>
      exact .waiting (open'.publish ..) rfl (by simp [Task.publish, published])
  | waiting _ status | running _ status => simp [initial, TaskStatus.initial] at status
  | failed enqueued | settled enqueued => simp [hq] at enqueued

/-- A task that is at the driver. -/
theorem Course.atDriver (course : Course (some t) l) {phase : DrivePhase} (fits : phase.Fits t)
    (hp : phase = .starting ∨ phase = .monitoring) :
    l = [] ∧ Unanswered t ∧ t.status = ⟨.build, .running⟩ ∧
      ∃ lead, IsLead lead ∧ t.published = lead ++ [⟨.build, .running⟩] := by
  obtain ⟨running, hq⟩ : t.status = ⟨.build, .running⟩ ∧ t.enqueued = false := by
    rcases hp with rfl | rfl <;> exact fits
  cases course with
  | running open' _ lead published => exact ⟨rfl, open', running, _, lead, published⟩
  | fresh _ status | waiting _ status => simp [running, TaskStatus.initial] at status
  | failed enqueued | settled enqueued => simp [hq] at enqueued

theorem Course.settle (course : Course (some t) l) (hq : t.enqueued = true) (now : Instant) :
    Course (some (t.settle now)) l := by
  cases course with
  | fresh open' | waiting open' | running open' => simp [open'.enqueued] at hq
  | @failed _ w e enqueued status lead published details lastError =>
      have settled : t.settle now = t.publish now (Answer.status (.error e)) := by
        simp [Task.settle, Task.errorStatus, status, TaskStatus.isTerminal, State.isTerminal,
          Answer.status]
      rw [settled]
      exact .settled enqueued rfl lead (by simp [Task.publish, published]) details lastError
  | @settled _ _ v enqueued status lead published details lastError =>
      have settled : t.settle now = t := by
        rw [Task.settle, status, v.isTerminal_status, if_pos rfl]
      rw [settled]
      exact .settled enqueued status lead published details lastError

theorem Course.complete (course : Course (some t) l) (r : Option BuildResult) :
    Course (some { t with completion := r }) l := by
  cases course with
  | fresh open' status published =>
      exact .fresh ⟨open'.enqueued, open'.details, open'.lastError⟩ status published
  | waiting open' status published =>
      exact .waiting ⟨open'.enqueued, open'.details, open'.lastError⟩ status published
  | running open' status lead published =>
      exact .running ⟨open'.enqueued, open'.details, open'.lastError⟩ status lead published
  | failed enqueued status lead published details lastError =>
      exact .failed enqueued status lead published details lastError
  | settled enqueued status lead published details lastError =>
      exact .settled enqueued status lead published details lastError

theorem Course.turn (h : c.Sound) (course : Course (c.task? i) l) {u : Option Task}
    (turn : Turn c i a u) : Course u (l ++ (a.answer? i).toList) := by
  cases turn with
  | stay ha => simpa [ha] using course
  | enroll hi =>
      rw [hi] at course
      cases course
      exact .fresh ⟨rfl, rfl, rfl⟩ rfl rfl
  | run hd hp ht free =>
      rw [ht] at course
      obtain ⟨hq, hs⟩ := h.steady.before_run hd hp ht
      simpa [Action.answer?] using course.run hq hs _
  | wait hd ht blocked =>
      rw [ht] at course
      simpa [Action.answer?] using course.wait (h.steady.fit hd ht) _
  | fail ha hd hp ht =>
      rw [ht] at course
      obtain ⟨rfl, open', running, lead, hlead, published⟩ :=
        course.atDriver (h.steady.fit hd ht) hp
      rw [ha]
      exact .failed rfl running hlead published open'.details rfl
  | @collect d now t hd ht =>
      rw [ht] at course
      obtain ⟨rfl, open', -, lead, hlead, published⟩ :=
        course.atDriver (h.steady.fit hd ht) (.inr rfl)
      simp only [Action.answer?, if_true, Option.toList_some, List.nil_append]
      refine .settled rfl (Answer.status_ok d).symm hlead ?_ rfl open'.lastError
      simp [Task.collect, Task.publish, published, Answer.status_ok]
  | settle he hi ht =>
      -- The task is in the queue, so the driver has answered for it.
      rw [ht] at course
      subst hi
      obtain ⟨t, ht', hq, -⟩ := h.ledger.due_entry he
      obtain rfl := Option.some.inj (ht.symm.trans ht')
      simpa [Action.answer?] using course.settle hq _
  | complete ha hand hi ht =>
      rw [ht] at course
      simpa [ha] using course.complete _

theorem answers_snoc (i : Nat) (as : List Action) (a : Action) :
    answers i (as ++ [a]) = answers i as ++ (a.answer? i).toList := by
  rw [answers, List.filterMap_append, ← answers]
  cases h : a.answer? i <;> simp [h]

theorem course_of_run {reports : Bool} {as : List Action} (run : Run next (.empty reports) as c)
    (i : Nat) : Course (c.task? i) (answers i as) := by
  induction run with
  | nil => exact .absent
  | snoc before last ih =>
      obtain ⟨⟨c', o⟩, hs, rfl⟩ := Option.map_eq_some_iff.mp last
      have h := sound_of_run before
      rw [answers_snoc]
      exact ih.turn h (turn_move h (step_move h.steady hs) i)

end Course

end Coordinator

end Foreman
