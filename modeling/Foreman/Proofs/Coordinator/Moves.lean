import Foreman.Coordinator
import Foreman.Proofs.Coordinator.Waiting
import Foreman.Proofs.Lists

/-!
What may happen in a coordinator. The drive of a build knows the status of its task, so none of the
updates that it makes is refused, and every step is one of the moves listed here.
-/

namespace Foreman

namespace Workshop

variable {w : Workshop} {i : Nat} {t : Task}

theorem change_eq (ht : w.task? i = some t) (f : Task → Task) :
    w.change i (fun _ => f t) = w.change i f := by
  have h : w.tasks.modify i (fun _ => f t) = w.tasks.modify i f := by
    apply List.ext_getElem?
    intro j
    by_cases hj : i = j
    · subst hj
      simp [show w.tasks[i]? = some t from ht]
    · simp [hj]
  rw [change, change, h]

/-- A task that has just been made enters the running set unless its identity is in it. -/
theorem submit_create (w : Workshop) (t : Task) :
    (w.create t).submit w.tasks.length =
      if w.running.contains t.identity then .error (.duplicateTask t.identity)
      else .ok { w with
        tasks := w.tasks ++ [t]
        running := (w.running.enter t.identity w.tasks.length).signal } := by
  have hnew : (w.create t).task? w.tasks.length = some t := by simp [create, task?]
  have hrunning : (w.create t).running = w.running := rfl
  unfold submit
  rw [hnew]
  dsimp only
  rw [hrunning, RunningSet.submit]
  split <;> rfl

theorem update_open (now : Instant) (s : TaskStatus) (ht : w.task? i = some t)
    (h : t.status.state.canBecome s.state = true) (hs : s.isTerminal = false) :
    w.update i now s = .ok (w.change i (·.publish now s)) := by
  rw [← change_eq ht]
  simp [update, ht, Task.update, h, hs, enqueue, pure, Except.pure, bind, Except.bind]

theorem update_terminal (now : Instant) {s : TaskStatus} (ht : w.task? i = some t)
    (h : t.status.state.canBecome s.state = true) (hs : s.isTerminal = true) (hq : t.enqueued = false) :
    w.update i now s =
      .ok { w.change i (fun t => { t.publish now s with enqueued := true }) with
        queue := w.queue.add ⟨i, .finished s⟩ } := by
  rw [← change_eq ht]
  simp [update, ht, Task.update, h, hs, hq, enqueue, change, pure, Except.pure, bind, Except.bind]

theorem fail_eq (ht : w.task? i = some t) (hq : t.enqueued = false) (e : DriverError) :
    w.fail i e = { w.change i (fun t => (t.fail e).1) with
      queue := w.queue.add ⟨i, .errored e⟩ } := by
  rw [← change_eq ht fun t => (t.fail e).1]
  simp [fail, ht, Task.fail, hq, enqueue, change]

theorem remove_eq (ht : w.task? i = some t) (hm : w.running.get? t.identity = some i) :
    w.remove i = { w with running := (w.running.leave t.identity).signal } := by
  simp [remove, ht, RunningSet.remove, RunningSet.holds, hm]

/-- A task is taken out of the running set first; then its result is handed out. -/
theorem complete_of_task (ht : w.task? i = some t) :
    w.complete i = if t.isCompleted then .error (.alreadyCompleted t.identity)
      else .ok ((w.remove i).handOut i t.result) := by
  rw [complete, completing, ht]
  dsimp only
  unfold Task.claim
  split <;> rfl

theorem complete_of_none (ht : w.task? i = none) : w.complete i = .ok w := by
  rw [complete, completing, ht]
  rfl

theorem complete_eq (ht : w.task? i = some t) (hc : t.completion = none)
    (hm : w.running.get? t.identity = some i) :
    w.complete i = .ok { w with
      tasks := w.tasks.modify i fun t => { t with completion := some t.result }
      running := (w.running.leave t.identity).signal } := by
  have handed : w.tasks.modify i (fun t' => { t' with completion := some t.result }) =
      w.tasks.modify i (fun t => { t with completion := some t.result }) := by
    rw [modify_eq_set _ ht, modify_eq_set _ ht]
  have first : ¬t.isCompleted = true := by simp [Task.isCompleted, hc]
  rw [complete_of_task ht, if_neg first, remove_eq ht hm, handOut, change, handed]

end Workshop

/-- The task once its build has run to the end. -/
def Task.collect (t : Task) (details : BuildDetails) (now : Instant) : Task :=
  { { t with details := some details }.publish now (Coordinator.endStatus details) with
    enqueued := true }

/-- How a task stands while its drive is in the phase. -/
def DrivePhase.Fits (t : Task) : DrivePhase → Prop
  | .arriving => t.status = .initial ∧ t.enqueued = false
  | .waiting w => t.status = ⟨.build, .waitingForDependencies⟩ ∧ t.enqueued = false ∧
      w.found ≠ 0 ∧ w = .after t.job.dependencies w.seen w.found
  | .starting | .monitoring => t.status = ⟨.build, .running⟩ ∧ t.enqueued = false
  | .ended => t.enqueued = true

namespace Coordinator

/-- Every task has its drive, which fits it. -/
structure Steady (c : Coordinator) : Prop where
  length : c.drives.length = c.workshop.tasks.length
  fits : ∀ {k : Nat} {d : Drive}, c.drives[k]? = some d →
    d.task = k ∧ ∃ t, c.task? k = some t ∧ d.phase.Fits t

def revise (c : Coordinator) (k : Nat) (f : Task → Task) : Coordinator :=
  { c with workshop := c.workshop.change k f }

def deliver (c : Coordinator) (k : Nat) (o : Outcome) : Coordinator :=
  { c with workshop := { c.workshop with queue := c.workshop.queue.add ⟨k, o⟩ } }

/-- The coordinator once it has taken the task in. -/
def enroll (c : Coordinator) (t : Task) : Coordinator :=
  { c with
    workshop := { c.workshop with
      tasks := c.workshop.tasks ++ [t]
      running := (c.running.enter t.identity c.workshop.tasks.length).signal }
    drives := c.drives ++ [⟨c.workshop.tasks.length, .arriving⟩]
    forwards := c.forwards ++ [⟨c.workshop.tasks.length, 0, .listening⟩] }

/-- The coordinator once an entry was handed out, whose build is settled. -/
def handOut (c : Coordinator) (e : QueuedTask) (now : Instant) (takers : List Nat)
    (entries : List QueuedTask) : Coordinator :=
  { c with workshop := { c.workshop.settle e now with
      queue := ⟨entries, takers, c.workshop.queue.count - 1⟩ } }

/-- The steps of a coordinator: the action, the coordinator after it, and what is asked of others. -/
inductive Move (c : Coordinator) : Action → Coordinator → Option Errand → Prop
  | refuse {configuration url now} (h : c.running.contains configuration.identity = true) :
      Move c (.submit configuration url now) c none
  | enroll {configuration url now} (h : c.running.contains configuration.identity = false) :
      Move c (.submit configuration url now) (c.enroll (.new ⟨configuration, now, url⟩ now)) none
  | run {k now phase t} (hd : c.drives[k]? = some ⟨k, phase⟩)
      (hp : phase = .arriving ∨ ∃ w, phase = .waiting w ∧ w.seen ≠ c.running.signals)
      (ht : c.task? k = some t) (free : DependencyWait.pending t.job.dependencies c.running = 0) :
      Move c (.drive k now)
        ((c.revise k (·.publish now ⟨.build, .running⟩)).withDrive k .starting) (some (.start k))
  | wait {k now t} (hd : c.drives[k]? = some ⟨k, .arriving⟩) (ht : c.task? k = some t)
      (blocked : DependencyWait.pending t.job.dependencies c.running ≠ 0) :
      Move c (.drive k now)
        ((c.revise k (·.publish now ⟨.build, .waitingForDependencies⟩)).withDrive k
          (.waiting (.after t.job.dependencies c.running.signals
            (DependencyWait.pending t.job.dependencies c.running)))) none
  | stay {k now t w} (hd : c.drives[k]? = some ⟨k, .waiting w⟩)
      (missed : w.seen ≠ c.running.signals) (ht : c.task? k = some t)
      (blocked : DependencyWait.pending t.job.dependencies c.running ≠ 0) :
      Move c (.drive k now)
        (c.withDrive k (.waiting (.after t.job.dependencies c.running.signals
          (DependencyWait.pending t.job.dependencies c.running)))) none
  | started {k} (hd : c.drives[k]? = some ⟨k, .starting⟩) :
      Move c (.started k (.ok ())) (c.withDrive k .monitoring) (some (.monitor k))
  | unstarted {k e} (hd : c.drives[k]? = some ⟨k, .starting⟩) :
      Move c (.started k (.error e))
        (((c.revise k fun t => (t.fail e).1).deliver k (.errored e)).withDrive k .ended) none
  | failed {k e now} (hd : c.drives[k]? = some ⟨k, .monitoring⟩) :
      Move c (.monitored k (.error e) now)
        (((c.revise k fun t => (t.fail e).1).deliver k (.errored e)).withDrive k .ended) none
  | finished {k details now} (hd : c.drives[k]? = some ⟨k, .monitoring⟩) :
      Move c (.monitored k (.ok details) now)
        (((c.revise k (·.collect details now)).deliver k (.finished (endStatus details))).withDrive k
          .ended) none
  | forward {k f t s} (hf : c.forwards[k]? = some f) (ht : c.task? f.task = some t)
      (hs : t.published[f.taken]? = some s) (hp : f.phase = .listening) :
      Move c (.forward k) (c.withForward k { f with taken := f.taken + 1, phase := .sending s })
        (some (.publish k (.buildStatusChanged t.job.configuration.id t.job.configuration.name s)
          t.job.configuration.id))
  | forwarded {k f s} (hf : c.forwards[k]? = some f) (hp : f.phase = .sending s) :
      Move c (.forwarded k)
        (c.withForward k { f with phase := if s.isTerminal then .ended else .listening }) none
  | spawn : Move c .spawn c.spawn none
  | stop {p} : Move c (.stop p) (c.stop p) none
  | take {p e now id takers entries t} (hk : c.workshop.queue.takers = p :: takers)
      (he : c.workshop.queue.entries = e :: entries)
      (ht : (c.workshop.settle e now).task? e.task = some t) :
      Move c (.take now id)
        ((c.handOut e now takers entries).withProcessor p (.saving e (t.record id)))
        (some (.save p (t.record id)))
  | report {p e r b t url} (hp : c.processors[p]? = some ⟨.saving e r, b⟩)
      (ht : c.task? e.task = some t) (hr : c.reports = true) (hu : t.job.callbackUrl = some url) :
      Move c (.saved p) (c.withProcessor p (.reporting e)) (some (.report p url t.result))
  | pass {p e r b t} (hp : c.processors[p]? = some ⟨.saving e r, b⟩)
      (ht : c.task? e.task = some t) (hr : ¬(c.reports = true ∧ t.job.callbackUrl.isSome = true)) :
      Move c (.saved p) (c.finish p e) none
  | reported {p e b} (hp : c.processors[p]? = some ⟨.reporting e, b⟩) :
      Move c (.reported p) (c.finish p e) none

section Step

variable {c c' : Coordinator} {k p : Nat} {now : Instant} {o : Option Errand} {t : Task}

theorem submit_eq (c : Coordinator) (configuration : BuildConfiguration) (url : Option String)
    (now : Instant) :
    c.submit configuration url now =
      if c.running.contains configuration.identity then
        .error (.duplicateTask configuration.identity)
      else .ok (c.enroll (.new ⟨configuration, now, url⟩ now)) := by
  have hid : (Task.new ⟨configuration, now, url⟩ now).identity = configuration.identity := rfl
  simp only [submit, Workshop.submit_create, hid]
  show (if c.running.contains configuration.identity then _ else _) >>= _ = _
  split <;> rfl

theorem submit_move {configuration : BuildConfiguration} {url : Option String}
    (h : c.step (.submit configuration url now) = some (c', o)) :
    Move c (.submit configuration url now) c' o := by
  simp only [step, submit_eq, Option.some.injEq] at h
  cases hdup : c.running.contains configuration.identity with
  | true =>
      rw [hdup, if_pos rfl] at h
      obtain ⟨rfl, rfl⟩ := Prod.mk.inj h
      exact .refuse hdup
  | false =>
      rw [hdup, if_neg Bool.false_ne_true] at h
      obtain ⟨rfl, rfl⟩ := Prod.mk.inj h
      exact .enroll hdup

/-- With nothing to wait for, the build runs. -/
theorem proceed_free (ht : c.task? k = some t)
    (h : t.status.state.canBecome .running = true) (ids : List BuildIdentity) (seen : Nat)
    (reported : Bool) :
    c.proceed k k (.after ids seen 0) now reported =
      ((c.revise k (·.publish now ⟨.build, .running⟩)).withDrive k .starting, some (.start k)) := by
  have hu := Workshop.update_open now ⟨.build, .running⟩ ht h rfl
  simp [proceed, DependencyWait.isOver_after, hu, revise]

theorem proceed_first (ht : c.task? k = some t)
    (h : t.status.state.canBecome .waitingForDependencies = true) {w : DependencyWait}
    (hw : w.isOver = false) :
    c.proceed k k w now false =
      ((c.revise k (·.publish now ⟨.build, .waitingForDependencies⟩)).withDrive k (.waiting w),
        none) := by
  have hu := Workshop.update_open now ⟨.build, .waitingForDependencies⟩ ht h rfl
  simp [proceed, hw, advance, hu, revise]

theorem proceed_again {w : DependencyWait} (hw : w.isOver = false) :
    c.proceed k k w now true = (c.withDrive k (.waiting w), none) := by
  simp [proceed, hw]

theorem drive_move (hc : c.Steady) (h : c.drive k now = some (c', o)) :
    Move c (.drive k now) c' o := by
  simp only [drive, Option.bind_eq_bind, Option.bind_eq_some_iff] at h
  obtain ⟨⟨i, phase⟩, hd, t, ht, h⟩ := h
  obtain ⟨hi, t', ht', fits⟩ := hc.fits hd
  obtain rfl : i = k := hi
  obtain rfl : t = t' := Option.some.inj (ht.symm.trans ht')
  cases phase with
  | arriving =>
      obtain ⟨hstatus, _⟩ := fits
      simp only [DependencyWait.pass_start, Option.some.injEq] at h
      by_cases hn : DependencyWait.pending t.job.dependencies c.running = 0
      · rw [hn, proceed_free ht (by rw [hstatus]; rfl)] at h
        obtain ⟨rfl, rfl⟩ := Prod.mk.inj h
        exact .run hd (.inl rfl) ht hn
      · rw [proceed_first ht (by rw [hstatus]; rfl)
          (by simp [DependencyWait.isOver_after, hn])] at h
        obtain ⟨rfl, rfl⟩ := Prod.mk.inj h
        exact .wait hd ht hn
  | waiting w =>
      obtain ⟨hstatus, _, hfound, hw⟩ := fits
      by_cases missed : w.seen = c.running.signals
      · simp [missed] at h
      · simp only [missed, if_false, Option.some.injEq] at h
        rw [hw, DependencyWait.pass_wake missed hfound] at h
        by_cases hn : DependencyWait.pending t.job.dependencies c.running = 0
        · rw [hn, proceed_free ht (by rw [hstatus]; rfl)] at h
          obtain ⟨rfl, rfl⟩ := Prod.mk.inj h
          exact .run hd (.inr ⟨w, rfl, missed⟩) ht hn
        · rw [proceed_again (by simp [DependencyWait.isOver_after, hn])] at h
          obtain ⟨rfl, rfl⟩ := Prod.mk.inj h
          exact .stay hd missed ht hn
  | starting => simp at h
  | monitoring => simp at h
  | ended => simp at h

theorem started_move (hc : c.Steady) {answer : Except DriverError Unit}
    (h : c.started k answer = some (c', o)) : Move c (.started k answer) c' o := by
  simp only [started, Option.bind_eq_bind, Option.bind_eq_some_iff] at h
  obtain ⟨⟨i, phase⟩, hd, h⟩ := h
  obtain ⟨hi, t, ht, fits⟩ := hc.fits hd
  obtain rfl : i = k := hi
  split at h
  next heq =>
    obtain rfl : phase = .starting := heq
    obtain ⟨rfl, rfl⟩ := Prod.mk.inj (Option.some.inj h)
    exact .started hd
  next e heq =>
    obtain rfl : phase = .starting := heq
    rw [Workshop.fail_eq ht fits.2] at h
    obtain ⟨rfl, rfl⟩ := Prod.mk.inj (Option.some.inj h)
    exact .unstarted hd
  next => simp at h

theorem canBecome_endStatus (details : BuildDetails) :
    State.running.canBecome (endStatus details).state = true := by
  unfold endStatus
  split <;> rfl

theorem isTerminal_endStatus (details : BuildDetails) : (endStatus details).isTerminal = true := by
  unfold endStatus
  split <;> rfl

theorem monitored_move (hc : c.Steady) {answer : Except DriverError BuildDetails}
    (h : c.monitored k answer now = some (c', o)) : Move c (.monitored k answer now) c' o := by
  simp only [monitored, Option.bind_eq_bind, Option.bind_eq_some_iff] at h
  obtain ⟨⟨i, phase⟩, hd, h⟩ := h
  obtain ⟨hi, t, ht, fits⟩ := hc.fits hd
  obtain rfl : i = k := hi
  split at h
  next details heq =>
    obtain rfl : phase = .monitoring := heq
    obtain ⟨hstatus, hq⟩ := fits
    have ht' : (c.workshop.change i fun t => { t with details := some details }).task? i =
        some { t with details := some details } := by
      simp [Workshop.change, Workshop.task?, show c.workshop.tasks[i]? = some t from ht]
    have hu := Workshop.update_terminal now ht'
      (by rw [show (Task.status _) = _ from hstatus]; exact canBecome_endStatus details)
      (isTerminal_endStatus details) hq
    simp only [advance, hu] at h
    obtain ⟨rfl, rfl⟩ := Prod.mk.inj (Option.some.inj h)
    have hm : Move c (.monitored i (.ok details) now) _ none := .finished hd
    simpa [revise, deliver, withDrive, Workshop.change, List.modify_modify_eq, Function.comp_def,
      Task.collect] using hm
  next e heq =>
    obtain rfl : phase = .monitoring := heq
    rw [Workshop.fail_eq ht fits.2] at h
    obtain ⟨rfl, rfl⟩ := Prod.mk.inj (Option.some.inj h)
    exact .failed hd
  next => simp at h

theorem forward_move (h : c.forward k = some (c', o)) : Move c (.forward k) c' o := by
  simp only [forward, Option.bind_eq_bind, Option.bind_eq_some_iff] at h
  obtain ⟨f, hf, t, ht, s, hs, h⟩ := h
  split at h
  next hp =>
    obtain ⟨rfl, rfl⟩ := Prod.mk.inj (Option.some.inj h)
    exact .forward hf ht hs hp
  next => simp at h

theorem forwarded_move (h : c.forwarded k = some (c', o)) : Move c (.forwarded k) c' o := by
  simp only [forwarded, Option.bind_eq_bind, Option.bind_eq_some_iff] at h
  obtain ⟨f, hf, h⟩ := h
  split at h
  next s hp =>
    obtain ⟨rfl, rfl⟩ := Prod.mk.inj (Option.some.inj h)
    exact .forwarded hf hp
  next => simp at h

theorem take_move {id : ResourceId} (h : c.take now id = some (c', o)) :
    Move c (.take now id) c' o := by
  simp only [take, TaskQueue.take?, Option.bind_eq_bind, Option.bind_eq_some_iff,
    Option.map_eq_some_iff] at h
  obtain ⟨_, ⟨_, hq, rfl⟩, h⟩ := h
  unfold TaskQueue.handOut? at hq
  split at hq
  next p takers e entries hk he =>
    obtain rfl := Option.some.inj hq
    simp only [accept, Option.bind_eq_bind, Option.bind_eq_some_iff] at h
    obtain ⟨t, ht, h⟩ := h
    obtain ⟨rfl, rfl⟩ := Prod.mk.inj (Option.some.inj h)
    have hsettle (queue : TaskQueue QueuedTask) :
        { c.workshop with queue }.settle e now =
          { c.workshop.settle e now with queue } := by
      unfold Workshop.settle
      split <;> rfl
    rw [hsettle] at ht ⊢
    exact .take hk he ht
  next => simp at hq

theorem saved_move (h : c.saved p = some (c', o)) : Move c (.saved p) c' o := by
  simp only [saved, Option.bind_eq_bind, Option.bind_eq_some_iff] at h
  obtain ⟨⟨phase, b⟩, hp, h⟩ := h
  split at h
  next e r heq =>
    obtain rfl : phase = .saving e r := heq
    obtain ⟨t, ht, h⟩ := Option.bind_eq_some_iff.mp h
    split at h
    next url hr hu =>
      obtain ⟨rfl, rfl⟩ := Prod.mk.inj (Option.some.inj h)
      exact .report hp ht hr hu
    next hdue =>
      obtain ⟨rfl, rfl⟩ := Prod.mk.inj (Option.some.inj h)
      refine .pass hp ht fun ⟨hr, hu⟩ => ?_
      obtain ⟨url, hu⟩ := Option.isSome_iff_exists.mp hu
      exact hdue url hr hu
  next => simp at h

theorem reported_move (h : c.reported p = some (c', o)) : Move c (.reported p) c' o := by
  simp only [reported, Option.bind_eq_bind, Option.bind_eq_some_iff] at h
  obtain ⟨⟨phase, b⟩, hp, h⟩ := h
  split at h
  next e heq =>
    obtain rfl : phase = .reporting e := heq
    obtain ⟨rfl, rfl⟩ := Prod.mk.inj (Option.some.inj h)
    exact .reported hp
  next => simp at h

/-- Every step of a steady coordinator is one of the moves. -/
theorem step_move (hc : c.Steady) {a : Action} (h : c.step a = some (c', o)) : Move c a c' o := by
  cases a with
  | submit configuration url now => exact submit_move h
  | drive k now => exact drive_move hc h
  | started k answer => exact started_move hc h
  | monitored k answer now => exact monitored_move hc h
  | forward k => exact forward_move h
  | forwarded k => exact forwarded_move h
  | spawn =>
      obtain ⟨rfl, rfl⟩ := Prod.mk.inj (Option.some.inj h)
      exact .spawn
  | stop p =>
      obtain ⟨rfl, rfl⟩ := Prod.mk.inj (Option.some.inj h)
      exact .stop
  | take now id => exact take_move h
  | saved p => exact saved_move h
  | reported p => exact reported_move h

end Step

end Coordinator

end Foreman
