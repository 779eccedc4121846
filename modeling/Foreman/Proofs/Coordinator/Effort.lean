import Foreman.Proofs.Coordinator.Deadlock

/-!
How long a coordinator goes on by itself. Its drives, its queue and its processors have so much left
to do, which every background step makes less; a signal may wake each waiting drive once more, and
each status that is published has to be sent once. So the background steps come to an end.
-/

namespace Foreman

/-- How many steps a drive and its processor have before them, with the entry in the queue between. -/
def DrivePhase.effort : DrivePhase → Nat
  | .arriving => 7
  | .waiting _ => 6
  | .starting => 5
  | .monitoring => 4
  | .ended => 0

def ProcessorPhase.effort : ProcessorPhase → Nat
  | .saving _ _ => 2
  | .reporting _ => 1
  | .idle | .stopped => 0

/-- The drive waits and has not seen the last signal yet. -/
def Drive.isStale (signals : Nat) (d : Drive) : Bool :=
  match d.phase with
  | .waiting w => w.seen ≠ signals
  | _ => false

namespace Coordinator

def effort (c : Coordinator) : Nat :=
  total (·.phase.effort) c.drives + 3 * c.workshop.queue.entries.length +
    total (·.phase.effort) c.processors

/-- How many drives will look their dependencies up again. -/
def stale (c : Coordinator) : Nat := c.drives.countP (Drive.isStale c.running.signals)

/-- How many statuses the task has published. -/
def published (c : Coordinator) (i : Nat) : Nat := (c.task? i).elim 0 (·.published.length)

/-- What a forward has still to send of so many statuses. -/
def pendingSends (f : Forward) (published : Nat) : Nat :=
  2 * (published - f.taken) + match f.phase with | .sending _ => 1 | _ => 0

def backlog (c : Coordinator) : Nat :=
  total (fun f => pendingSends f (c.published f.task)) c.forwards

/-- More than the background steps to come. -/
def bound (c : Coordinator) : Nat :=
  (c.effort * (c.drives.length + 1) + c.stale) * (2 * c.forwards.length + 1) + c.backlog

section Parts

variable {c c' : Coordinator} {k p : Nat} {b : Bool}

theorem effort_withDrive {phase : DrivePhase} (hd : c.drives[k]? = some ⟨k, phase⟩)
    (phase' : DrivePhase) :
    (c.withDrive k phase').effort + phase.effort = c.effort + phase'.effort := by
  have := total_modify (fun d : Drive => d.phase.effort) (fun d => { d with phase := phase' }) hd
  dsimp only at this
  simp only [effort, withDrive]
  omega

theorem effort_withProcessor {phase : ProcessorPhase} (hp : c.processors[p]? = some ⟨phase, b⟩)
    (phase' : ProcessorPhase) :
    (c.withProcessor p phase').effort + phase.effort = c.effort + phase'.effort := by
  have := total_modify (fun r : Processor => r.phase.effort)
    (fun r => { r with phase := phase' }) hp
  dsimp only at this
  simp only [effort, withProcessor]
  omega

theorem effort_congr (drives : c'.drives = c.drives)
    (entries : c'.workshop.queue.entries = c.workshop.queue.entries)
    (processors : c'.processors = c.processors) : c'.effort = c.effort := by
  rw [effort, effort, drives, entries, processors]

theorem effort_deliver (c : Coordinator) (k : Nat) (o : Outcome) :
    (c.deliver k o).effort = c.effort + 3 := by
  simp only [effort, deliver, TaskQueue.add, TaskQueue.announce, TaskQueue.put, List.length_append,
    List.length_singleton]
  omega

theorem effort_rest {phase : ProcessorPhase} (hp : c.processors[p]? = some ⟨phase, b⟩)
    (stopping : Bool) : (c.rest p stopping).effort + phase.effort = c.effort := by
  cases stopping with
  | true => exact effort_withProcessor hp .stopped
  | false => exact effort_withProcessor hp .idle

theorem stale_withDrive {phase : DrivePhase} (hd : c.drives[k]? = some ⟨k, phase⟩)
    (phase' : DrivePhase) :
    (c.withDrive k phase').stale + (Drive.isStale c.running.signals ⟨k, phase⟩).toNat =
      c.stale + (Drive.isStale c.running.signals ⟨k, phase'⟩).toNat :=
  countP_modify (Drive.isStale c.running.signals) (fun d => { d with phase := phase' }) hd

theorem backlog_withForward {f : Forward} (hf : c.forwards[k]? = some f) (f' : Forward) :
    (c.withForward k f').backlog + pendingSends f (c.published f.task) =
      c.backlog + pendingSends f' (c.published f'.task) :=
  total_set (fun f => pendingSends f (c.published f.task)) hf f'

theorem published_revise (c : Coordinator) (k i : Nat) {f : Task → Task} {n : Nat}
    (hf : ∀ t, (f t).published.length ≤ t.published.length + n) :
    (c.revise k f).published i ≤ c.published i + n := by
  rw [published, task?_revise, published]
  split
  next =>
    cases c.task? i with
    | none => exact Nat.zero_le _
    | some t => exact hf t
  next => exact Nat.le_add_right _ _

end Parts

/-- How a background step brings a coordinator nearer to its rest: the work goes on, a drive wakes in
vain, or a status is sent. -/
inductive Nearer (c c' : Coordinator) : Prop
  | work (effort : c'.effort < c.effort) (drives : c'.drives.length = c.drives.length)
      (forwards : c'.forwards = c.forwards) (published : ∀ i, c'.published i ≤ c.published i + 1)
  | wake (effort : c'.effort = c.effort) (stale : c'.stale < c.stale)
      (drives : c'.drives.length = c.drives.length) (forwards : c'.forwards = c.forwards)
      (published : ∀ i, c'.published i = c.published i)
  | send (effort : c'.effort = c.effort) (stale : c'.stale = c.stale)
      (drives : c'.drives.length = c.drives.length)
      (forwards : c'.forwards.length = c.forwards.length) (backlog : c'.backlog < c.backlog)

section Nearer

variable {c c' : Coordinator} {a : Action} {o : Option Errand}

theorem stale_le (c : Coordinator) : c.stale ≤ c.drives.length := List.countP_le_length

theorem backlog_le {n : Nat} (forwards : c'.forwards = c.forwards)
    (published : ∀ i, c'.published i ≤ c.published i + n) :
    c'.backlog ≤ c.backlog + 2 * n * c.forwards.length := by
  rw [backlog, forwards]
  refine total_le _ fun f _ => ?_
  have := published f.task
  simp only [pendingSends]
  omega

/-- One unit less of the greater pays for less than a unit more of the smaller. -/
theorem mul_add_lt {m n n' r r' : Nat} (hn : n' < n) (hr : r' < r + m) :
    n' * m + r' < n * m + r := by
  have : (n' + 1) * m ≤ n * m := Nat.mul_le_mul_right m hn
  rw [Nat.succ_mul] at this
  omega

theorem Nearer.bound (h : c.Nearer c') : c'.bound < c.bound := by
  cases h with
  | work effort drives forwards published =>
      have hstale := c'.stale_le
      have hbacklog := backlog_le forwards published
      rw [Coordinator.bound, Coordinator.bound, drives, forwards]
      -- All drives may become stale, and every forward may have one more status to send.
      exact mul_add_lt (mul_add_lt effort (by omega)) (by omega)
  | wake effort stale drives forwards published =>
      have hbacklog := backlog_le (n := 0) forwards fun i => Nat.le_of_eq (published i)
      rw [Coordinator.bound, Coordinator.bound, drives, forwards, effort]
      exact mul_add_lt (by omega) (by omega)
  | send effort stale drives forwards backlog =>
      rw [Coordinator.bound, Coordinator.bound, effort, stale, drives, forwards]
      omega

theorem published_finish (h : c.Sound) {p : Nat} {phase : ProcessorPhase} {b : Bool}
    {e : QueuedTask} (hp : c.processors[p]? = some ⟨phase, b⟩)
    (hc : ProcessorPhase.carries e.task phase = true) (i : Nat) :
    (c.finish p e).published i = c.published i := by
  obtain ⟨t, ht, -, -, -, heq⟩ := h.finish_eq hp hc
  rw [heq, published, task?_rest, task?_conclude, published]
  split
  next => cases c.task? i <;> rfl
  next => rfl

theorem nearer_finish (h : c.Sound) {p : Nat} {phase : ProcessorPhase} {b : Bool}
    {e : QueuedTask} (hp : c.processors[p]? = some ⟨phase, b⟩)
    (hc : ProcessorPhase.carries e.task phase = true) : c.Nearer (c.finish p e) := by
  refine .work ?_ (congrArg _ (drives_finish c p e)) ?_ fun i => ?_
  · obtain ⟨t, -, -, -, -, heq⟩ := h.finish_eq hp hc
    have hpos : 0 < phase.effort := by
      cases phase with
      | saving | reporting => exact Nat.zero_lt_succ _
      | idle | stopped => simp [ProcessorPhase.carries] at hc
    have heffort := effort_rest (c := c.conclude e.task t.identity) hp b
    have hconclude : (c.conclude e.task t.identity).effort = c.effort := effort_congr rfl rfl rfl
    rw [heq]
    omega
  · obtain ⟨t, -, -, -, -, heq⟩ := h.finish_eq hp hc
    rw [heq]
    cases b <;> rfl
  · rw [published_finish h hp hc]
    exact Nat.le_succ _

/-- A drive goes on to a phase with less before it. -/
theorem nearer_withDrive {k : Nat} {phase phase' : DrivePhase} {f : Task → Task}
    (hd : c.drives[k]? = some ⟨k, phase⟩) (less : phase'.effort < phase.effort)
    (hf : ∀ t, (f t).published.length ≤ t.published.length + 1) :
    c.Nearer ((c.revise k f).withDrive k phase') := by
  refine .work ?_ (List.length_modify ..) rfl fun i => published_revise c k i hf
  have heffort := effort_withDrive (c := c.revise k f) hd phase'
  have hrevise : (c.revise k f).effort = c.effort := effort_congr rfl rfl rfl
  omega

theorem nearer_deliver {k : Nat} {phase : DrivePhase} {f : Task → Task} {out : Outcome}
    (hd : c.drives[k]? = some ⟨k, phase⟩) (less : 3 < phase.effort)
    (hf : ∀ t, (f t).published.length ≤ t.published.length + 1) :
    c.Nearer (((c.revise k f).deliver k out).withDrive k .ended) := by
  refine .work ?_ (List.length_modify ..) rfl fun i => published_revise c k i hf
  have heffort := effort_withDrive (c := (c.revise k f).deliver k out) hd .ended
  have hended : DrivePhase.ended.effort = 0 := rfl
  have hdeliver := effort_deliver (c.revise k f) k out
  have hrevise : (c.revise k f).effort = c.effort := effort_congr rfl rfl rfl
  omega

theorem effort_handOut (c : Coordinator) {e : QueuedTask} {entries : List QueuedTask}
    (now : Instant) (takers : List Nat) (he : c.workshop.queue.entries = e :: entries) :
    (c.handOut e now takers entries).effort + 3 = c.effort := by
  simp only [handOut, effort, he, List.length_cons]
  omega

theorem published_handOut (c : Coordinator) (e : QueuedTask) (now : Instant) (takers : List Nat)
    (entries : List QueuedTask) (i : Nat) :
    (c.handOut e now takers entries).published i ≤ c.published i + 1 := by
  have hsettle (t : Task) : (t.settle now).published.length ≤ t.published.length + 1 := by
    unfold Task.settle
    split <;> simp [Task.publish]
  show ((c.workshop.settle e now).task? i).elim 0 (·.published.length) ≤ _
  rcases task?_settle_cases c.workshop e now i with h | ⟨-, h⟩
  · rw [h]
    exact Nat.le_succ _
  · rw [h, published, task?]
    cases c.workshop.task? i with
    | none => exact Nat.zero_le _
    | some t => exact hsettle t

theorem nearer_take (h : c.Sound) {p : Nat} {e : QueuedTask} {takers : List Nat}
    {entries : List QueuedTask} (now : Instant) (hk : c.workshop.queue.takers = p :: takers)
    (he : c.workshop.queue.entries = e :: entries) (r : BuildRecord) :
    c.Nearer ((c.handOut e now takers entries).withProcessor p (.saving e r)) := by
  refine .work ?_ rfl rfl fun i => published_handOut c e now takers entries i
  obtain ⟨b, hp⟩ := h.line.mem.mp (hk ▸ List.mem_cons_self)
  have heffort := effort_withProcessor (c := c.handOut e now takers entries) hp (.saving e r)
  have hsaving : (ProcessorPhase.saving e r).effort = 2 := rfl
  have hentry := effort_handOut c now takers he
  omega

/-- A drive that wakes in vain has seen the last signal afterwards. -/
theorem nearer_stay {k seen : Nat} {w : DependencyWait} {ids : List BuildIdentity}
    (hd : c.drives[k]? = some ⟨k, .waiting w⟩) (missed : w.seen ≠ c.running.signals)
    (hseen : seen = c.running.signals) (found : Nat) :
    c.Nearer (c.withDrive k (.waiting (.after ids seen found))) := by
  refine .wake ?_ ?_ (List.length_modify ..) rfl fun _ => rfl
  · exact Nat.add_right_cancel (effort_withDrive hd _)
  · have hbefore : Drive.isStale c.running.signals ⟨k, .waiting w⟩ = true := by
      simp [Drive.isStale, missed]
    have hafter : Drive.isStale c.running.signals ⟨k, .waiting (.after ids seen found)⟩ = false := by
      simp [Drive.isStale, DependencyWait.after, hseen]
    have hstale := stale_withDrive hd (.waiting (.after ids seen found))
    rw [hbefore, hafter] at hstale
    simp only [Bool.toNat_true, Bool.toNat_false] at hstale
    omega

theorem nearer_withForward {k : Nat} {f f' : Forward} (hf : c.forwards[k]? = some f)
    (less : pendingSends f' (c.published f'.task) < pendingSends f (c.published f.task)) :
    c.Nearer (c.withForward k f') := by
  refine .send (effort_congr rfl rfl rfl) rfl rfl (List.length_set ..) ?_
  have hbacklog := backlog_withForward hf f'
  omega

theorem nearer_move (h : c.Sound) (m : Move c a c' o) (ha : a.isBackground = true) :
    c.Nearer c' := by
  cases m with
  | refuse | enroll | spawn | stop => simp [Action.isBackground] at ha
  | run hd hp =>
      refine nearer_withDrive hd ?_ fun t => by simp [Task.publish]
      rcases hp with rfl | ⟨w, rfl, -⟩ <;> simp [DrivePhase.effort]
  | wait hd =>
      exact nearer_withDrive hd (by simp [DrivePhase.effort]) fun t => by simp [Task.publish]
  | stay hd missed => exact nearer_stay hd missed rfl _
  | @started k hd =>
      have hsame : c.revise k id = c := by simp [revise, Workshop.change]
      have hnearer : c.Nearer ((c.revise k id).withDrive k .monitoring) :=
        nearer_withDrive hd (by simp [DrivePhase.effort]) fun t => Nat.le_succ _
      rwa [hsame] at hnearer
  | unstarted hd | failed hd =>
      exact nearer_deliver hd (by simp [DrivePhase.effort]) fun t => Nat.le_succ _
  | finished hd =>
      exact nearer_deliver hd (by simp [DrivePhase.effort])
        fun t => by simp [Task.collect, Task.publish]
  | @forward k f t s hf ht hs hp =>
      refine nearer_withForward hf ?_
      have hlt := (List.getElem?_eq_some_iff.mp hs).1
      have hpublished : c.published f.task = t.published.length := by simp [published, ht]
      simp only [pendingSends, hp, hpublished]
      omega
  | @forwarded k f s hf hp =>
      refine nearer_withForward hf ?_
      simp only [pendingSends, hp]
      cases s.isTerminal <;> simp
  | take hk he ht => exact nearer_take h _ hk he _
  | @report p e r _ _ _ hp =>
      refine .work ?_ rfl rfl fun _ => Nat.le_succ _
      have heffort := effort_withProcessor hp (.reporting e)
      simp only [ProcessorPhase.effort] at heffort
      omega
  | pass hp => exact nearer_finish h hp (carries_saving ..)
  | reported hp => exact nearer_finish h hp (carries_reporting ..)

theorem Nearer.drives (h : c.Nearer c') : c'.drives.length = c.drives.length := by
  cases h <;> assumption

theorem bound_next (h : c.Sound) (ha : a.isBackground = true) (hn : c.next a = some c') :
    c'.bound < c.bound := by
  obtain ⟨⟨c', o⟩, hs, rfl⟩ := Option.map_eq_some_iff.mp hn
  exact (nearer_move h (step_move h.steady hs) ha).bound

end Nearer

end Coordinator

end Foreman
