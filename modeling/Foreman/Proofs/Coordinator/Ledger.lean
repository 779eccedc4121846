import Foreman.Proofs.Coordinator.Moves

/-!
Where the builds of a coordinator are. A task is with its drive until it is queued, then in the queue
or with one processor, and then it is completed; the running set holds the tasks that are not
completed, the line of the queue the processors that are idle, and a drive that waits has either
missed a signal or found a dependency in the running set.
-/

namespace Foreman

/-- Whether the task is due to be handled by a processor, as a number. -/
def Task.due (t : Task) : Nat := if t.enqueued && !t.isCompleted then 1 else 0

theorem Task.enqueued_settle (t : Task) (now : Instant) :
    (t.settle now).enqueued = t.enqueued := by
  unfold settle
  split <;> rfl

theorem Task.isTerminal_settle (t : Task) (now : Instant) :
    (t.settle now).status.isTerminal = true := by
  unfold settle
  split
  next h => exact h
  next => rfl

namespace Coordinator

/-- In how many hands the task is, the queue's or a processor's. -/
def held (c : Coordinator) (i : Nat) : Nat :=
  c.workshop.queue.entries.countP (·.task = i) + c.processors.countP (ProcessorPhase.carries i ·.phase)

/-- In how many hands it should be. -/
def owed (c : Coordinator) (i : Nat) : Nat := (c.task? i).elim 0 Task.due

theorem owed_le (c : Coordinator) (i : Nat) : c.owed i ≤ 1 := by
  unfold owed
  cases c.task? i with
  | none => exact Nat.zero_le 1
  | some t =>
      simp only [Option.elim_some, Task.due]
      split <;> omega

/-- Each task is in the hands that are owed it, and it is completed after it was queued. -/
structure Ledger (c : Coordinator) : Prop where
  held : ∀ i, c.held i = c.owed i
  order : ∀ {i t}, c.task? i = some t → t.isCompleted = true → t.enqueued = true

/-- The idle processors stand in line, each of them once. -/
structure Line (c : Coordinator) : Prop where
  nodup : c.workshop.queue.takers.Nodup
  mem : ∀ {p}, p ∈ c.workshop.queue.takers ↔ ∃ b, c.processors[p]? = some ⟨.idle, b⟩

/-- The running set holds the tasks that are not completed, under their identities. -/
structure Membership (c : Coordinator) : Prop where
  mem : ∀ {id i}, c.running.get? id = some i ↔
    ∃ t, c.task? i = some t ∧ t.identity = id ∧ t.completion = none

/-- A drive that waits has not seen the last signal, or it waits for something. -/
structure Awake (c : Coordinator) : Prop where
  wait : ∀ {k w t}, c.drives[k]? = some ⟨k, .waiting w⟩ → c.task? k = some t →
    w.seen ≤ c.running.signals ∧
      (w.seen = c.running.signals → DependencyWait.pending t.job.dependencies c.running ≠ 0)

structure Sound (c : Coordinator) : Prop where
  steady : c.Steady
  ledger : c.Ledger
  line : c.Line
  members : c.Membership
  awake : c.Awake

theorem sound_empty (reports : Bool) : (Coordinator.empty reports).Sound where
  steady := ⟨rfl, fun h => by simp [Coordinator.empty] at h⟩
  ledger := ⟨fun i => by simp [held, owed, Coordinator.empty, Workshop.empty, TaskQueue.empty, task?, Workshop.task?],
    fun h => by simp [Coordinator.empty, Workshop.empty, task?, Workshop.task?] at h⟩
  line := ⟨List.nodup_nil, by simp [Coordinator.empty, Workshop.empty, TaskQueue.empty]⟩
  members := ⟨by simp [Coordinator.empty, Workshop.empty, task?, Workshop.task?, running,
    RunningSet.empty, RunningSet.get?]⟩
  awake := ⟨fun h => by simp [Coordinator.empty] at h⟩

/-! ### Completing a build -/

/-- The coordinator once it has completed the task, whose identity is free then. -/
def conclude (c : Coordinator) (i : Nat) (id : BuildIdentity) : Coordinator :=
  { c with
    workshop := { c.workshop with
      tasks := c.workshop.tasks.modify i fun t => { t with completion := some t.result }
      running := (c.running.leave id).signal } }

/-- A processor with nothing in hand gets in line again or stops. -/
def rest (c : Coordinator) (p : Nat) (stopping : Bool) : Coordinator :=
  if stopping then c.withProcessor p .stopped
  else { c with workshop := { c.workshop with queue := c.workshop.queue.wait p } }.withProcessor p
    .idle

theorem finish_eq {c : Coordinator} {p : Nat} {phase : ProcessorPhase} {b : Bool} {e : QueuedTask}
    {t : Task} (hp : c.processors[p]? = some ⟨phase, b⟩) (ht : c.task? e.task = some t)
    (hc : t.completion = none) (hm : c.running.get? t.identity = some e.task) :
    c.finish p e = (c.conclude e.task t.identity).rest p b := by
  have hcomplete : c.workshop.complete e.task = .ok (c.conclude e.task t.identity).workshop :=
    Workshop.complete_eq ht hc hm
  unfold finish
  rw [hcomplete]
  cases b <;> simp [hp, rest, conclude]

section Frame

variable (c : Coordinator) (k i : Nat)

theorem task?_revise (f : Task → Task) :
    (c.revise k f).task? i = if k = i then (c.task? i).map f else c.task? i := by
  by_cases h : k = i <;> simp [revise, task?, Workshop.change, Workshop.task?, h]

theorem task?_enroll (t : Task) :
    (c.enroll t).task? i = if i = c.workshop.tasks.length then some t else c.task? i := by
  simp only [enroll, task?, Workshop.task?, List.getElem?_append]
  split
  next h => rw [if_neg (by omega)]
  next h =>
    by_cases hi : i = c.workshop.tasks.length
    · simp [hi]
    · rw [if_neg hi, List.getElem?_eq_none (by simp; omega), List.getElem?_eq_none (by omega)]

theorem task?_conclude (id : BuildIdentity) :
    (c.conclude k id).task? i =
      if k = i then (c.task? i).map (fun t => { t with completion := some t.result })
      else c.task? i := by
  by_cases h : k = i <;> simp [conclude, task?, Workshop.task?, h]

theorem task?_rest (p : Nat) (b : Bool) : (c.rest p b).task? i = c.task? i := by
  cases b <;> rfl

theorem drives_rest (p : Nat) (b : Bool) : (c.rest p b).drives = c.drives := by
  cases b <;> rfl

end Frame

theorem modify_id (l : List Task) (k : Nat) : l.modify k id = l := by
  simp

theorem Workshop.length_settle (w : Workshop) (e : QueuedTask) (now : Instant) :
    (w.settle e now).tasks.length = w.tasks.length := by
  unfold Workshop.settle
  split <;> simp [Workshop.change]

theorem Workshop.running_settle (w : Workshop) (e : QueuedTask) (now : Instant) :
    (w.settle e now).running = w.running := by
  unfold Workshop.settle
  split <;> rfl

/-- Only a build that failed is settled. -/
theorem task?_settle_cases (w : Workshop) (e : QueuedTask) (now : Instant) (i : Nat) :
    (w.settle e now).task? i = w.task? i ∨
      e.task = i ∧ (w.settle e now).task? i = (w.task? i).map (·.settle now) := by
  unfold Workshop.settle
  split
  next => exact .inl rfl
  next =>
    by_cases hi : e.task = i
    · exact .inr ⟨hi, by simp [Workshop.change, Workshop.task?, hi]⟩
    · exact .inl (by simp [Workshop.change, Workshop.task?, hi])

/-- What the settling of a task leaves alone is the same afterwards. -/
theorem map_task?_settle {α : Type} {g : Task → α} {now : Instant}
    (hg : ∀ t, g (t.settle now) = g t) (w : Workshop) (e : QueuedTask) (i : Nat) :
    ((w.settle e now).task? i).map g = (w.task? i).map g := by
  rcases task?_settle_cases w e now i with h | ⟨-, h⟩
  · rw [h]
  · rw [h, Option.map_map]
    exact congrArg (Option.map · _) (funext hg)

section Steady

variable {c c' : Coordinator} {k : Nat} {t : Task}

theorem Steady.fit (h : c.Steady) {p : DrivePhase} (hd : c.drives[k]? = some ⟨k, p⟩)
    (ht : c.task? k = some t) : p.Fits t := by
  obtain ⟨_, t', ht', fits⟩ := h.fits hd
  obtain rfl : t = t' := Option.some.inj (ht.symm.trans ht')
  exact fits

theorem Steady.task (h : c.Steady) {d : Drive} (hd : c.drives[k]? = some d) :
    ∃ t, c.task? k = some t := by
  obtain ⟨_, t, ht, _⟩ := h.fits hd
  exact ⟨t, ht⟩

/-- Only the drive `k` goes on, and its task with it. -/
theorem Steady.goOn (h : c.Steady) (p : DrivePhase) (f : Task → Task) {d : Drive}
    (hd : c.drives[k]? = some d) (ht : c.task? k = some t) (fits : p.Fits (f t))
    (drives : c'.drives = (c.withDrive k p).drives)
    (tasks : c'.workshop.tasks = (c.revise k f).workshop.tasks) : c'.Steady := by
  have htask (i : Nat) : c'.task? i = (c.revise k f).task? i := by
    rw [task?, Workshop.task?, tasks]
    rfl
  refine ⟨by rw [drives, tasks]; simpa [withDrive, revise, Workshop.change] using h.length,
    fun {j d'} hj => ?_⟩
  rw [drives] at hj
  rw [htask, task?_revise]
  by_cases hjk : k = j
  · subst hjk
    obtain rfl : { d with phase := p } = d' := by simpa [withDrive, hd] using hj
    exact ⟨(h.fits hd).1, f t, by simp [ht], fits⟩
  · rw [if_neg hjk]
    exact h.fits (by simpa [withDrive, hjk] using hj)

theorem Steady.congr (h : c.Steady) (drives : c'.drives = c.drives)
    (length : c'.workshop.tasks.length = c.workshop.tasks.length)
    (tasks : ∀ {i t p}, c.task? i = some t → DrivePhase.Fits t p →
      ∃ t', c'.task? i = some t' ∧ DrivePhase.Fits t' p) : c'.Steady := by
  refine ⟨by rw [drives, length, h.length], fun hj => ?_⟩
  rw [drives] at hj
  obtain ⟨hd, t, ht, fits⟩ := h.fits hj
  exact ⟨hd, tasks ht fits⟩

theorem fits_ended {p : DrivePhase} (h : p.Fits t) (hq : t.enqueued = true) : p = .ended := by
  cases p with
  | ended => rfl
  | arriving | starting | monitoring => simp [DrivePhase.Fits, hq] at h
  | waiting w => simp [DrivePhase.Fits, hq] at h

end Steady

section Held

variable {c : Coordinator} {i p : Nat} {phase : ProcessorPhase} {b : Bool} {e : QueuedTask}

/-- A task that is in the queue or with a processor has been queued and is not completed. -/
theorem Ledger.due (h : c.Ledger) (hi : 0 < c.held i) :
    ∃ t, c.task? i = some t ∧ t.enqueued = true ∧ t.completion = none := by
  rw [h.held i, owed] at hi
  cases ht : c.task? i with
  | none => simp [ht] at hi
  | some t =>
      refine ⟨t, rfl, ?_⟩
      simpa [ht, Task.due, Nat.pos_iff_ne_zero, Task.isCompleted] using hi

theorem Ledger.due_entry (h : c.Ledger) (he : e ∈ c.workshop.queue.entries) :
    ∃ t, c.task? e.task = some t ∧ t.enqueued = true ∧ t.completion = none := by
  refine h.due (Nat.add_pos_left (List.countP_pos_iff.mpr ⟨e, he, ?_⟩) _)
  simp

theorem Ledger.due_hand (h : c.Ledger) (hp : c.processors[p]? = some ⟨phase, b⟩)
    (hc : ProcessorPhase.carries i phase = true) :
    ∃ t, c.task? i = some t ∧ t.enqueued = true ∧ t.completion = none :=
  h.due (Nat.add_pos_right _ (List.countP_pos_iff.mpr ⟨_, List.mem_of_getElem? hp, hc⟩))

/-- What is in the queue is in no processor's hand. -/
theorem Ledger.carries_eq_false (h : c.Ledger) (he : e ∈ c.workshop.queue.entries)
    (hp : c.processors[p]? = some ⟨phase, b⟩) : ProcessorPhase.carries e.task phase = false := by
  rw [Bool.eq_false_iff]
  intro hc
  have hqueue : 0 < c.workshop.queue.entries.countP (·.task = e.task) :=
    List.countP_pos_iff.mpr ⟨e, he, by simp⟩
  have hcarry : 0 < c.processors.countP (ProcessorPhase.carries e.task ·.phase) :=
    List.countP_pos_iff.mpr ⟨_, List.mem_of_getElem? hp, hc⟩
  have hheld := h.held e.task
  have hle := owed_le c e.task
  rw [Coordinator.held] at hheld
  omega

/-- The completion of the build in hand always succeeds and takes it out of the running set. -/
theorem Sound.finish_eq (h : c.Sound) (hp : c.processors[p]? = some ⟨phase, b⟩)
    (hc : ProcessorPhase.carries e.task phase = true) :
    ∃ t, c.task? e.task = some t ∧ t.enqueued = true ∧ t.completion = none ∧
      c.running.get? t.identity = some e.task ∧
      c.finish p e = (c.conclude e.task t.identity).rest p b := by
  obtain ⟨t, ht, hq, hn⟩ := h.ledger.due_hand hp hc
  have hm := h.members.mem.mpr ⟨t, ht, rfl, hn⟩
  exact ⟨t, ht, hq, hn, hm, Coordinator.finish_eq hp ht hn hm⟩

/-- A processor that was told to stop does so when it lays its build down. -/
theorem processors_finish (h : c.Sound)
    (hp : c.processors[p]? = some ⟨phase, b⟩) (hc : ProcessorPhase.carries e.task phase = true) :
    (c.finish p e).processors =
      (c.withProcessor p (if b then .stopped else .idle)).processors := by
  obtain ⟨t, -, -, -, -, heq⟩ := h.finish_eq hp hc
  rw [heq]
  cases b <;> rfl

end Held

section Move

variable {c c' : Coordinator} {a : Action} {o : Option Errand}

theorem carries_saving (e : QueuedTask) (r : BuildRecord) :
    ProcessorPhase.carries e.task (.saving e r) = true := by
  simp [ProcessorPhase.carries]

theorem carries_reporting (e : QueuedTask) :
    ProcessorPhase.carries e.task (.reporting e) = true := by
  simp [ProcessorPhase.carries]

theorem Steady.finish (h : c.Sound) {p : Nat} {phase : ProcessorPhase} {b : Bool} {e : QueuedTask}
    (hp : c.processors[p]? = some ⟨phase, b⟩) (hc : ProcessorPhase.carries e.task phase = true) :
    (c.finish p e).Steady := by
  obtain ⟨t, _, _, _, _, heq⟩ := h.finish_eq hp hc
  rw [heq]
  refine h.steady.congr (drives_rest ..) (by cases b <;> simp [rest, conclude, withProcessor])
    fun {i t p} ht fits => ?_
  rw [task?_rest, task?_conclude]
  by_cases hi : e.task = i
  · refine ⟨{ t with completion := some t.result }, by simp [hi, ht], ?_⟩
    cases p <;> exact fits
  · exact ⟨t, by simp [hi, ht], fits⟩

theorem Steady.move (h : c.Sound) (m : Move c a c' o) : c'.Steady := by
  have same {i : Nat} {t : Task} {p : DrivePhase} (ht : c.task? i = some t) (fits : p.Fits t) :
      ∃ t', c.task? i = some t' ∧ p.Fits t' := ⟨t, ht, fits⟩
  cases m with
  | refuse => exact h.steady
  | @enroll configuration url now hdup =>
      refine ⟨by simp [enroll, h.steady.length], fun {k d} hk => ?_⟩
      rw [task?_enroll]
      rcases getElem?_concat_cases hk with hk | ⟨rfl, rfl⟩
      · have hlt := (List.getElem?_eq_some_iff.mp hk).1
        rw [if_neg (by have := h.steady.length; omega)]
        exact h.steady.fits hk
      · rw [if_pos h.steady.length]
        exact ⟨h.steady.length.symm, _, rfl, rfl, rfl⟩
  | run hd hp ht free =>
      refine h.steady.goOn .starting (·.publish _ _) hd ht ⟨rfl, ?_⟩ rfl rfl
      have fits := h.steady.fit hd ht
      rcases hp with rfl | ⟨w, rfl, _⟩
      · exact fits.2
      · exact fits.2.1
  | wait hd ht blocked =>
      have fits := h.steady.fit hd ht
      exact h.steady.goOn (.waiting _) (·.publish _ _) hd ht ⟨rfl, fits.2, blocked, rfl⟩ rfl rfl
  | stay hd missed ht blocked =>
      obtain ⟨hstatus, hq, _⟩ := h.steady.fit hd ht
      exact h.steady.goOn (.waiting _) id hd ht ⟨hstatus, hq, blocked, rfl⟩ rfl (modify_id ..).symm
  | started hd =>
      obtain ⟨t, ht⟩ := h.steady.task hd
      have fits : DrivePhase.Fits t .starting := h.steady.fit hd ht
      exact h.steady.goOn .monitoring id hd ht fits rfl (modify_id ..).symm
  | unstarted hd | failed hd =>
      obtain ⟨t, ht⟩ := h.steady.task hd
      exact h.steady.goOn .ended (fun t => (t.fail _).1) hd ht rfl rfl rfl
  | @finished k details now hd =>
      obtain ⟨t, ht⟩ := h.steady.task hd
      exact h.steady.goOn .ended (·.collect details now) hd ht rfl rfl rfl
  | forward | forwarded | spawn | report => exact h.steady.congr rfl rfl same
  | @stop p =>
      refine h.steady.congr ?_ ?_ fun ht fits => ⟨_, ?_, fits⟩
      all_goals unfold Coordinator.stop; split
      all_goals first | rfl | exact ht
  | @take p e now id takers entries t hk he ht =>
      refine h.steady.congr rfl (Workshop.length_settle ..) fun {i t₀ p} hi fits => ?_
      -- A task in the queue has an ended drive, which fits whatever its status is.
      rcases task?_settle_cases c.workshop e now i with hsettle | ⟨rfl, hsettle⟩
      · exact ⟨t₀, hsettle.trans hi, fits⟩
      · obtain ⟨t₁, ht₁, hq, _⟩ := h.ledger.due_entry (e := e) (by simp [he])
        obtain rfl : t₀ = t₁ := Option.some.inj (hi.symm.trans ht₁)
        refine ⟨t₀.settle now, hsettle.trans (congrArg _ hi), ?_⟩
        rw [fits_ended fits hq]
        exact (Task.enqueued_settle ..).trans hq
  | pass hp => exact .finish h hp (carries_saving ..)
  | reported hp => exact .finish h hp (carries_reporting ..)

/-! ### The line -/

theorem getElem?_withProcessor (c : Coordinator) (p q : Nat) (phase : ProcessorPhase) :
    (c.withProcessor p phase).processors[q]? =
      if p = q then (c.processors[q]?).map fun r => { r with phase } else c.processors[q]? := by
  by_cases h : p = q <;> simp [withProcessor, h]

theorem Line.idle_or_not (h : c.Line) {p : Nat} {phase : ProcessorPhase} {b : Bool}
    (hp : c.processors[p]? = some ⟨phase, b⟩) :
    p ∈ c.workshop.queue.takers ↔ phase = .idle := by
  simp [h.mem, hp]

/-- A busy processor goes on with what it has in hand, or stops. -/
theorem Line.withProcessor (h : c.Line) {p : Nat} {phase phase' : ProcessorPhase} {b : Bool}
    (hp : c.processors[p]? = some ⟨phase, b⟩) (busy : phase ≠ .idle) (busy' : phase' ≠ .idle) :
    (c.withProcessor p phase').Line := by
  refine ⟨h.nodup, fun {q} => ?_⟩
  rw [show q ∈ (c.withProcessor p phase').workshop.queue.takers ↔
    q ∈ c.workshop.queue.takers from Iff.rfl, getElem?_withProcessor]
  by_cases hq : p = q
  · subst hq
    simp [h.idle_or_not hp, hp, busy, busy']
  · rw [if_neg hq, h.mem]

theorem Line.rest (h : c.Line) {p : Nat} {phase : ProcessorPhase} {b : Bool}
    (hp : c.processors[p]? = some ⟨phase, b⟩) (busy : phase ≠ .idle) (stopping : Bool) :
    (c.rest p stopping).Line := by
  cases stopping with
  | true => exact h.withProcessor hp busy (by simp)
  | false =>
      -- The processor was busy, so it does not stand in line yet.
      have hnew : p ∉ c.workshop.queue.takers := by rwa [h.idle_or_not hp]
      refine ⟨nodup_concat h.nodup hnew, fun {q} => ?_⟩
      rw [show q ∈ (c.rest p false).workshop.queue.takers ↔
        q ∈ c.workshop.queue.takers ++ [p] from Iff.rfl, List.mem_append, List.mem_singleton,
        show (c.rest p false).processors = (c.withProcessor p .idle).processors from rfl,
        getElem?_withProcessor]
      by_cases hq : p = q
      · subst hq
        simp [hp]
      · rw [if_neg hq, h.mem]
        simp [Ne.symm hq]

theorem Line.spawn (h : c.Line) : c.spawn.Line := by
  have hnew : c.processors.length ∉ c.workshop.queue.takers := by simp [h.mem]
  refine ⟨nodup_concat h.nodup hnew, fun {q} => ?_⟩
  rw [show q ∈ c.spawn.workshop.queue.takers ↔
    q ∈ c.workshop.queue.takers ++ [c.processors.length] from Iff.rfl, List.mem_append,
    List.mem_singleton, h.mem,
    show c.spawn.processors = c.processors ++ [⟨.idle, false⟩] from rfl]
  constructor
  · rintro (⟨b, hq⟩ | rfl)
    · exact ⟨b, by rw [List.getElem?_append_left (List.getElem?_eq_some_iff.mp hq).1, hq]⟩
    · exact ⟨false, by simp⟩
  · rintro ⟨b, hq⟩
    exact (getElem?_concat_cases hq).imp (fun hq => ⟨b, hq⟩) (·.1)

theorem Line.stop (h : c.Line) (p : Nat) : (c.stop p).Line := by
  unfold Coordinator.stop
  split
  next b hp =>
    -- An idle processor leaves the line and stops at once.
    refine ⟨h.nodup.filter _, fun {q} => ?_⟩
    rw [getElem?_withProcessor]
    by_cases hq : p = q
    · subst hq
      simp [Coordinator.withProcessor, TaskQueue.cancel, hp]
    · simp [Coordinator.withProcessor, TaskQueue.cancel, hq, Ne.symm hq, h.mem]
  next hbusy =>
    refine ⟨h.nodup, fun {q} => ?_⟩
    rw [List.getElem?_modify]
    by_cases hq : p = q
    · subst hq
      rw [h.mem]
      constructor
      · rintro ⟨b, hp⟩
        exact (hbusy b hp).elim
      · rintro ⟨b, hp⟩
        simp only [if_true, Option.map_eq_map, Option.map_eq_some_iff] at hp
        obtain ⟨⟨phase, b'⟩, hp, heq⟩ := hp
        obtain rfl : phase = .idle := congrArg Processor.phase heq
        exact (hbusy b' hp).elim
    · simp [hq, h.mem]

theorem Line.take (h : c.Line) {p : Nat} {takers : List Nat} {phase : ProcessorPhase}
    (hk : c.workshop.queue.takers = p :: takers) (busy : phase ≠ .idle)
    (workshop : c'.workshop.queue.takers = takers)
    (processors : c'.processors = (c.withProcessor p phase).processors) : c'.Line := by
  have hnodup := h.nodup
  rw [hk, List.nodup_cons] at hnodup
  refine ⟨workshop ▸ hnodup.2, fun {q} => ?_⟩
  rw [workshop, processors, getElem?_withProcessor]
  by_cases hq : p = q
  · subst hq
    simp [hnodup.1, busy]
  · have hmem := h.mem (p := q)
    rw [hk, List.mem_cons, or_iff_right (Ne.symm hq)] at hmem
    rw [if_neg hq, hmem]

theorem Line.move (h : c.Sound) (m : Move c a c' o) : c'.Line := by
  have finished {p : Nat} {phase : ProcessorPhase} {b : Bool} {e : QueuedTask}
      (hp : c.processors[p]? = some ⟨phase, b⟩)
      (hc : ProcessorPhase.carries e.task phase = true) : (c.finish p e).Line := by
    obtain ⟨t, _, _, _, _, heq⟩ := h.finish_eq hp hc
    have busy : phase ≠ .idle := by
      rintro rfl
      simp [ProcessorPhase.carries] at hc
    have line : (c.conclude e.task t.identity).Line := ⟨h.line.nodup, h.line.mem⟩
    rw [heq]
    exact line.rest hp busy b
  cases m with
  | refuse | enroll | run | wait | stay | started | unstarted | failed | finished | forward
  | forwarded => exact ⟨h.line.nodup, h.line.mem⟩
  | spawn => exact h.line.spawn
  | stop => exact h.line.stop _
  | take hk he ht => exact h.line.take hk (by simp) rfl rfl
  | report hp ht hr hu => exact h.line.withProcessor hp (by simp) (by simp)
  | pass hp => exact finished hp (carries_saving ..)
  | reported hp => exact finished hp (carries_reporting ..)

end Move

end Coordinator

end Foreman
