import Foreman.Proofs.Coordinator.Membership
import Foreman.Proofs.Run

/-!
The entries of the queue through the moves of a coordinator. A task is handed on from its drive to the
queue, from there to one processor, and by that to its completion; on the way it is in one hand at a
time. With this, every reachable coordinator is sound.
-/

namespace Foreman

/-- Whether the task was queued and whether it is completed. -/
def Task.stage (t : Task) : Bool × Bool := (t.enqueued, t.isCompleted)

theorem Task.stage_settle (t : Task) (now : Instant) : (t.settle now).stage = t.stage := by
  unfold settle
  split <;> rfl

namespace Coordinator

def stage? (c : Coordinator) (i : Nat) : Option (Bool × Bool) := (c.task? i).map Task.stage

theorem stage?_revise (c : Coordinator) (k i : Nat) {f : Task → Task}
    (hf : ∀ t, (f t).stage = t.stage) : (c.revise k f).stage? i = c.stage? i := by
  rw [stage?, task?_revise]
  split
  next =>
    cases h : c.task? i <;> simp [stage?, h, hf]
  next => rfl

section Held

variable {c : Coordinator} {i p : Nat} {phase : ProcessorPhase} {b : Bool}

theorem held_congr {c' : Coordinator}
    (entries : c'.workshop.queue.entries = c.workshop.queue.entries)
    (processors : c'.processors = c.processors) : c'.held i = c.held i := by
  rw [held, held, entries, processors]

theorem held_deliver (c : Coordinator) (k i : Nat) (o : Outcome) :
    (c.deliver k o).held i = c.held i + if k = i then 1 else 0 := by
  simp only [held, deliver, TaskQueue.add, TaskQueue.announce, TaskQueue.put, List.countP_append,
    List.countP_singleton, decide_eq_true_eq]
  omega

theorem held_withProcessor (hp : c.processors[p]? = some ⟨phase, b⟩) (phase' : ProcessorPhase) :
    (c.withProcessor p phase').held i + (ProcessorPhase.carries i phase).toNat =
      c.held i + (ProcessorPhase.carries i phase').toNat := by
  have := countP_modify (ProcessorPhase.carries i ·.phase) (fun r => { r with phase := phase' }) hp
  dsimp only at this
  simp only [held, withProcessor]
  omega

theorem held_rest (hp : c.processors[p]? = some ⟨phase, b⟩) (stopping : Bool) :
    (c.rest p stopping).held i + (ProcessorPhase.carries i phase).toNat = c.held i := by
  cases stopping with
  | true => exact held_withProcessor hp .stopped
  | false =>
      exact held_withProcessor hp .idle

theorem held_spawn (c : Coordinator) (i : Nat) : c.spawn.held i = c.held i := by
  simp [held, spawn, TaskQueue.wait, ProcessorPhase.carries]

theorem held_stop (c : Coordinator) (p i : Nat) : (c.stop p).held i = c.held i := by
  unfold Coordinator.stop
  split
  next b hp =>
    exact held_withProcessor hp .stopped
  next => exact congrArg (_ + ·) (countP_modify_of_eq (fun _ => by rfl) ..)

end Held

section Move

variable {c c' : Coordinator} {a : Action} {o : Option Errand} {i : Nat}

theorem carries_unique {i j : Nat} {phase : ProcessorPhase}
    (hi : ProcessorPhase.carries i phase = true) (hj : ProcessorPhase.carries j phase = true) :
    i = j := by
  cases phase with
  | saving e r =>
      simp only [ProcessorPhase.carries, decide_eq_true_eq] at hi hj
      exact hi.symm.trans hj
  | reporting e =>
      simp only [ProcessorPhase.carries, decide_eq_true_eq] at hi hj
      exact hi.symm.trans hj
  | idle => simp [ProcessorPhase.carries] at hi
  | stopped => simp [ProcessorPhase.carries] at hi

theorem owed_of_task {t : Task} (h : c.task? i = some t) : c.owed i = t.due := by
  simp [owed, h]

theorem owed_of_stage (h : c'.stage? i = c.stage? i) : c'.owed i = c.owed i := by
  have howed (c : Coordinator) :
      c.owed i = (c.stage? i).elim 0 fun s => if s.1 && !s.2 then 1 else 0 := by
    unfold owed stage?
    cases c.task? i <;> rfl
  rw [howed, howed, h]

theorem Ledger.stage (h : c.Ledger) (i : Nat) : c.stage? i ≠ some (false, true) := by
  intro hs
  obtain ⟨t, ht, hs⟩ := Option.map_eq_some_iff.mp hs
  have := h.order ht (congrArg Prod.snd hs)
  simp [this, Task.stage] at hs

theorem ledger_of_stage (held : ∀ i, c.held i = c.owed i)
    (stage : ∀ i, c.stage? i ≠ some (false, true)) : c.Ledger := by
  refine ⟨held, fun {i t} ht hc => ?_⟩
  cases hq : t.enqueued with
  | true => rfl
  | false => exact (stage i (by simp [stage?, ht, Task.stage, hc, hq])).elim

theorem Ledger.congr (h : c.Ledger) (held : ∀ i, c'.held i = c.held i)
    (stage : ∀ i, c'.stage? i = c.stage? i) : c'.Ledger :=
  ledger_of_stage (fun i => by rw [held, h.held, owed_of_stage (stage i)])
    fun i => by rw [stage]; exact h.stage i

theorem Ledger.deliver (h : c.Ledger) {k : Nat} {t : Task} (ht : c.task? k = some t)
    (hq : t.enqueued = false) {f : Task → Task}
    (hf : ∀ t, (f t).stage = (true, t.isCompleted)) (o : Outcome) :
    ((c.revise k f).deliver k o).Ledger := by
  have htask (i : Nat) : ((c.revise k f).deliver k o).task? i = (c.revise k f).task? i := rfl
  -- A task that was not queued is not completed.
  have hopen : t.isCompleted = false := by
    cases hc : t.isCompleted with
    | false => rfl
    | true => simp [h.order ht hc] at hq
  refine ledger_of_stage (fun i => ?_) fun i => ?_
  · have hheld : (c.revise k f).held i = c.held i := held_congr rfl rfl
    rw [held_deliver, hheld, h.held, owed, owed, htask, task?_revise]
    by_cases hi : k = i
    · subst hi
      have := hf t
      simp only [Task.stage, Prod.mk.injEq] at this
      simp [ht, Task.due, hq, this, hopen]
    · simp [hi]
  · rw [stage?, htask, task?_revise]
    by_cases hi : k = i
    · subst hi
      simp [ht, hf]
    · rw [if_neg hi]
      exact h.stage i

theorem Ledger.finish (h : c.Sound) {p : Nat} {phase : ProcessorPhase} {b : Bool} {e : QueuedTask}
    (hp : c.processors[p]? = some ⟨phase, b⟩) (hc : ProcessorPhase.carries e.task phase = true) :
    (c.finish p e).Ledger := by
  obtain ⟨t, ht, hq, hn, -, heq⟩ := h.finish_eq hp hc
  rw [heq]
  refine ledger_of_stage (fun i => ?_) fun i => ?_
  · have hrest := held_rest (c := c.conclude e.task t.identity) (i := i) hp b
    have hheld : (c.conclude e.task t.identity).held i = c.held i := held_congr rfl rfl
    rw [hheld, h.ledger.held] at hrest
    rw [owed, task?_rest, task?_conclude]
    by_cases hi : e.task = i
    · subst hi
      rw [hc, owed_of_task ht] at hrest
      simp only [Task.due, hq, Task.isCompleted, hn] at hrest
      simpa [ht, Task.due, Task.isCompleted] using hrest
    · rw [if_neg hi]
      cases hci : ProcessorPhase.carries i phase with
      -- The processor has no other task in hand.
      | true => exact (hi (carries_unique hc hci)).elim
      | false => simpa [hci, owed] using hrest
  · rw [stage?, task?_rest, task?_conclude]
    by_cases hi : e.task = i
    · subst hi
      simp [ht, Task.stage, hq]
    · rw [if_neg hi]
      exact h.ledger.stage i

theorem Ledger.enroll (h : c.Ledger) {t : Task} (ht : t.stage = (false, false)) :
    (c.enroll t).Ledger := by
  have hnew : c.task? c.workshop.tasks.length = none := by simp [task?, Workshop.task?]
  refine ledger_of_stage (fun i => ?_) fun i => ?_
  · rw [show (c.enroll t).held i = c.held i from held_congr rfl rfl, h.held, owed, owed,
      task?_enroll]
    split
    next hi =>
      have := congrArg Prod.fst ht
      simp only [Task.stage] at this
      simp [hi, hnew, Task.due, this]
    next => rfl
  · rw [stage?, task?_enroll]
    split
    next => simp [ht]
    next => exact h.stage i

theorem held_handOut (c : Coordinator) {e : QueuedTask} {entries : List QueuedTask}
    (now : Instant) (takers : List Nat) (he : c.workshop.queue.entries = e :: entries)
    (i : Nat) :
    (c.handOut e now takers entries).held i + (if e.task = i then 1 else 0) = c.held i := by
  simp only [handOut, held, he, List.countP_cons, decide_eq_true_eq]
  omega

theorem Ledger.take (h : c.Sound) {p : Nat} {e : QueuedTask} {takers : List Nat}
    {entries : List QueuedTask} (now : Instant) (hk : c.workshop.queue.takers = p :: takers)
    (he : c.workshop.queue.entries = e :: entries) (r : BuildRecord) :
    ((c.handOut e now takers entries).withProcessor p (.saving e r)).Ledger := by
  refine h.ledger.congr (fun i => ?_) fun i => map_task?_settle (Task.stage_settle · now) _ e i
  obtain ⟨b, hp⟩ := h.line.mem.mp (hk ▸ List.mem_cons_self)
  -- What leaves the queue comes into the hand of the processor.
  have hcarries : (ProcessorPhase.carries i (.saving e r)).toNat = if e.task = i then 1 else 0 := by
    by_cases hi : e.task = i <;> simp [ProcessorPhase.carries, hi]
  have hwith := held_withProcessor (c := c.handOut e now takers entries) (i := i) hp (.saving e r)
  rw [hcarries, held_handOut c now takers he] at hwith
  exact hwith

theorem Ledger.move (h : c.Sound) (m : Move c a c' o) : c'.Ledger := by
  have revised {k : Nat} {f : Task → Task} (hf : ∀ t, (f t).stage = t.stage) (i : Nat) :
      (c.revise k f).stage? i = c.stage? i := stage?_revise c k i hf
  cases m with
  | refuse => exact h.ledger
  | enroll => exact h.ledger.enroll rfl
  | run | wait =>
      exact h.ledger.congr (fun _ => held_congr rfl rfl) (revised fun _ => rfl)
  | stay | started | forward | forwarded =>
      exact h.ledger.congr (fun _ => held_congr rfl rfl) fun _ => rfl
  | unstarted hd | failed hd | finished hd =>
      obtain ⟨t, ht⟩ := h.steady.task hd
      have fits := h.steady.fit hd ht
      exact (h.ledger.deliver ht fits.2 (fun _ => rfl) _).congr (fun _ => held_congr rfl rfl)
        fun _ => rfl
  | spawn => exact h.ledger.congr (held_spawn c) fun _ => rfl
  | @stop p =>
      refine h.ledger.congr (held_stop c p) fun i => ?_
      unfold Coordinator.stop
      split <;> rfl
  | take hk he => exact .take h _ hk he _
  | @report p e _ _ _ _ hp =>
      refine h.ledger.congr (fun i => ?_) fun _ => rfl
      exact Nat.add_right_cancel (held_withProcessor hp (.reporting e))
  | pass hp => exact .finish h hp (carries_saving ..)
  | reported hp => exact .finish h hp (carries_reporting ..)

theorem Sound.move (h : c.Sound) (m : Move c a c' o) : c'.Sound :=
  ⟨Steady.move h m, Ledger.move h m, Line.move h m, Membership.move h m, Awake.move h m⟩

theorem Sound.step (h : c.Sound) (hs : c.step a = some (c', o)) : c'.Sound :=
  h.move (step_move h.steady hs)

/-- One step, with nobody looking at what it asks of others. -/
def next (c : Coordinator) (a : Action) : Option Coordinator := (c.step a).map Prod.fst

theorem Sound.next (h : c.Sound) (hn : c.next a = some c') : c'.Sound := by
  obtain ⟨⟨c', o⟩, hs, rfl⟩ := Option.map_eq_some_iff.mp hn
  exact h.step hs

theorem Sound.run (h : c.Sound) {as : List Action} (run : Run Coordinator.next c as c') :
    c'.Sound :=
  run.invariant h fun _ _ _ h => h.next

theorem sound_of_run {reports : Bool} {as : List Action}
    (run : Run Coordinator.next (.empty reports) as c) : c.Sound :=
  (sound_empty reports).run run

end Move

end Coordinator

end Foreman
