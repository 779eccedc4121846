import Foreman.Proofs.Coordinator.Ledger

/-!
The running set through the moves of a coordinator. A task keeps its job, and whether it is completed
changes together with the running set, which gives a signal then; so the set holds the tasks that are
not completed, and no drive waits for nothing.
-/

namespace Foreman

/-- What of a task only its completion changes. -/
def Task.kept (t : Task) : BuildJob × Option BuildResult := (t.job, t.completion)

theorem Task.kept_settle (t : Task) (now : Instant) : (t.settle now).kept = t.kept := by
  unfold settle
  split <;> rfl

theorem RunningSet.contains_eq_false {s : RunningSet} {id : BuildIdentity} :
    s.contains id = false ↔ s.get? id = none := by
  simp [contains, Table.contains, get?]

namespace Coordinator

def kept? (c : Coordinator) (i : Nat) : Option (BuildJob × Option BuildResult) :=
  (c.task? i).map Task.kept

section Kept

variable {c : Coordinator} {i : Nat}

theorem kept?_of_task {t : Task} (h : c.task? i = some t) :
    c.kept? i = some (t.job, t.completion) := by
  simp [kept?, h, Task.kept]

theorem exists_of_kept {j : BuildJob} {r : Option BuildResult} (h : c.kept? i = some (j, r)) :
    ∃ t, c.task? i = some t ∧ t.job = j ∧ t.completion = r := by
  obtain ⟨t, ht, hk⟩ := Option.map_eq_some_iff.mp h
  exact ⟨t, ht, congrArg Prod.fst hk, congrArg Prod.snd hk⟩

theorem kept?_revise (c : Coordinator) (k i : Nat) {f : Task → Task} (hf : ∀ t, (f t).kept = t.kept) :
    (c.revise k f).kept? i = c.kept? i := by
  rw [kept?, task?_revise]
  split
  next =>
    cases h : c.task? i <;> simp [kept?, h, hf]
  next => rfl

theorem kept?_conclude (c : Coordinator) (k i : Nat) (id : BuildIdentity) :
    (c.conclude k id).kept? i =
      if k = i then (c.task? i).map (fun t => (t.job, some t.result)) else c.kept? i := by
  rw [kept?, task?_conclude]
  split
  next =>
    rw [Option.map_map]
    rfl
  next => rfl

theorem Membership.kept (h : c.Membership) (id : BuildIdentity) (i : Nat) :
    c.running.get? id = some i ↔ ∃ j, c.kept? i = some (j, none) ∧ j.identity = id := by
  rw [h.mem]
  constructor
  · rintro ⟨t, ht, hid, hc⟩
    exact ⟨t.job, hc ▸ kept?_of_task ht, hid⟩
  · rintro ⟨j, hj, hid⟩
    obtain ⟨t, ht, rfl, hc⟩ := exists_of_kept hj
    exact ⟨t, ht, hid, hc⟩

theorem membership_of_kept (h : ∀ {id i}, c.running.get? id = some i ↔
    ∃ j, c.kept? i = some (j, none) ∧ j.identity = id) : c.Membership := by
  refine ⟨fun {id i} => h.trans ⟨?_, ?_⟩⟩
  · rintro ⟨j, hj, hid⟩
    obtain ⟨t, ht, rfl, hc⟩ := exists_of_kept hj
    exact ⟨t, ht, hid, hc⟩
  · rintro ⟨t, ht, hid, hc⟩
    exact ⟨t.job, hc ▸ kept?_of_task ht, hid⟩

end Kept

/-- What a move does to the running set: nothing, or it takes in a new task or lets one go that it
completes. -/
inductive Turnover (c c' : Coordinator) : Prop
  | same (kept : ∀ i, c'.kept? i = c.kept? i) (running : c'.running = c.running)
  | enter (j : BuildJob) (free : c.running.get? j.identity = none)
      (kept : ∀ i, c'.kept? i =
        if i = c.workshop.tasks.length then some (j, none) else c.kept? i)
      (running : c'.running = (c.running.enter j.identity c.workshop.tasks.length).signal)
  | leave (k : Nat) (t : Task) (task : c.task? k = some t) (open' : t.completion = none)
      (member : c.running.get? t.identity = some k)
      (kept : ∀ i, c'.kept? i = if k = i then some (t.job, some t.result) else c.kept? i)
      (running : c'.running = (c.running.leave t.identity).signal)

section Move

variable {c c' : Coordinator} {a : Action} {o : Option Errand}

theorem turnover_finish (h : c.Sound) {p : Nat} {phase : ProcessorPhase} {b : Bool} {e : QueuedTask}
    (hp : c.processors[p]? = some ⟨phase, b⟩) (hc : ProcessorPhase.carries e.task phase = true) :
    c.Turnover (c.finish p e) := by
  obtain ⟨t, ht, _, hn, hm, heq⟩ := h.finish_eq hp hc
  rw [heq]
  refine .leave e.task t ht hn hm (fun i => ?_) (by cases b <;> rfl)
  rw [kept?, task?_rest, ← kept?, kept?_conclude]
  by_cases hi : e.task = i
  · simp [← hi, ht]
  · simp [hi]

theorem turnover (h : c.Sound) (m : Move c a c' o) : c.Turnover c' := by
  cases m with
  | refuse => exact .same (fun _ => rfl) rfl
  | @enroll configuration url now hdup =>
      refine .enter ⟨configuration, now, url⟩ ?_ (fun i => ?_) rfl
      · exact RunningSet.contains_eq_false.mp hdup
      · rw [kept?, task?_enroll]
        split <;> rfl
  | run | wait => exact .same (fun i => kept?_revise c _ i fun _ => rfl) rfl
  | unstarted | failed => exact .same (fun i => kept?_revise c _ i fun _ => rfl) rfl
  | finished => exact .same (fun i => kept?_revise c _ i fun _ => rfl) rfl
  | stay | started | forward | forwarded | spawn | report => exact .same (fun _ => rfl) rfl
  | @stop p =>
      unfold Coordinator.stop
      split <;> exact .same (fun _ => rfl) rfl
  | @take p e now =>
      exact .same (fun i => map_task?_settle (Task.kept_settle · now) _ e i)
        (Workshop.running_settle ..)
  | pass hp => exact turnover_finish h hp (carries_saving ..)
  | reported hp => exact turnover_finish h hp (carries_reporting ..)

theorem get?_enter (s : RunningSet) (id id' : BuildIdentity) (k : Nat) :
    (s.enter id k).signal.get? id' = if id = id' then some k else s.get? id' :=
  Table.get?_insert ..

theorem get?_leave (s : RunningSet) (id id' : BuildIdentity) :
    (s.leave id).signal.get? id' = if id = id' then none else s.get? id' :=
  Table.get?_erase ..

theorem Membership.move (h : c.Sound) (m : Move c a c' o) : c'.Membership := by
  have hmem := h.members.kept
  refine membership_of_kept fun {id i} => ?_
  cases turnover h m with
  | same kept running => rw [running, hmem, kept]
  | enter j free kept running =>
      -- The number of the new task was not given to any before it.
      have hnew : c.kept? c.workshop.tasks.length = none := by simp [kept?, task?, Workshop.task?]
      rw [running, get?_enter, kept]
      split
      next hid =>
        subst hid
        by_cases hi : i = c.workshop.tasks.length
        · simp [hi]
        · rw [if_neg hi, ← hmem, free]
          simp [Ne.symm hi]
      next hid =>
        rw [hmem]
        by_cases hi : i = c.workshop.tasks.length
        · simp [hi, hnew, hid]
        · rw [if_neg hi]
  | leave k t ht hn hm kept running =>
      -- The identity leaves with its task, and no other task has it.
      have hk : c.kept? k = some (t.job, none) := hn ▸ kept?_of_task ht
      rw [running, get?_leave, kept]
      split
      next hid =>
        subst hid
        by_cases hi : k = i
        · simp [hi]
        · rw [if_neg hi, ← hmem, hm]
          simp [hi]
      next hid =>
        rw [hmem]
        by_cases hi : k = i
        · subst hi
          simp [hk, show ¬t.job.identity = id from hid]
        · rw [if_neg hi]

theorem drives_finish (c : Coordinator) (p : Nat) (e : QueuedTask) :
    (c.finish p e).drives = c.drives := by
  unfold finish
  dsimp only
  split <;> split <;> rfl

theorem getElem?_withDrive (c : Coordinator) (k j : Nat) (p : DrivePhase) :
    (c.withDrive k p).drives[j]? =
      if k = j then (c.drives[j]?).map fun d => { d with phase := p } else c.drives[j]? := by
  by_cases h : k = j <;> simp [withDrive, h]

/-- A drive that does not change waits as before. -/
theorem waiting_withDrive {k j : Nat} {p : DrivePhase} {w : DependencyWait}
    (hp : ∀ w, p ≠ .waiting w) (hw : (c.withDrive k p).drives[j]? = some ⟨j, .waiting w⟩) :
    c.drives[j]? = some ⟨j, .waiting w⟩ := by
  rw [getElem?_withDrive] at hw
  split at hw
  next =>
    obtain ⟨d, -, hd⟩ := Option.map_eq_some_iff.mp hw
    exact (hp w (congrArg Drive.phase hd)).elim
  next => exact hw

/-- The drive has looked the dependencies of its task up as they are now and found some. -/
def Looked (c : Coordinator) (k : Nat) (w : DependencyWait) : Prop :=
  ∃ t, c.task? k = some t ∧ w.seen = c.running.signals ∧
    DependencyWait.pending t.job.dependencies c.running ≠ 0

theorem waiting_looked {j k : Nat} {t : Task} {w : DependencyWait} (hc : c'.drives = c.drives)
    (ht : c.task? j = some t) (blocked : DependencyWait.pending t.job.dependencies c.running ≠ 0)
    (hw : (c'.withDrive j (.waiting (.after t.job.dependencies c.running.signals
      (DependencyWait.pending t.job.dependencies c.running)))).drives[k]? =
        some ⟨k, .waiting w⟩) :
    c.drives[k]? = some ⟨k, .waiting w⟩ ∨ c.Looked k w := by
  rw [getElem?_withDrive, hc] at hw
  split at hw
  next hj =>
    subst hj
    obtain ⟨d, -, hd⟩ := Option.map_eq_some_iff.mp hw
    have hphase := congrArg Drive.phase hd
    simp only [DrivePhase.waiting.injEq] at hphase
    exact .inr ⟨t, ht, hphase ▸ rfl, blocked⟩
  next => exact .inl hw

/-- A drive that waits after a move did so before, or it has just looked its dependencies up. -/
theorem waiting_move (m : Move c a c' o) {k : Nat} {w : DependencyWait}
    (hw : c'.drives[k]? = some ⟨k, .waiting w⟩) :
    c.drives[k]? = some ⟨k, .waiting w⟩ ∨ c'.running = c.running ∧ c.Looked k w := by
  cases m with
  | refuse | forward | forwarded | spawn | take | report => exact .inl hw
  | enroll =>
      rcases getElem?_concat_cases hw with hw | ⟨-, hd⟩
      · exact .inl hw
      · simp at hd
  | run | started | unstarted | failed | finished =>
      exact .inl (waiting_withDrive (by simp) hw)
  | wait hd ht blocked => exact (waiting_looked rfl ht blocked hw).imp_right (⟨rfl, ·⟩)
  | stay hd missed ht blocked => exact (waiting_looked rfl ht blocked hw).imp_right (⟨rfl, ·⟩)
  | @stop p =>
      left
      unfold Coordinator.stop at hw
      split at hw <;> exact hw
  | pass | reported => exact .inl (drives_finish c _ _ ▸ hw)

theorem Awake.move (h : c.Sound) (m : Move c a c' o) : c'.Awake := by
  refine ⟨fun {k w t'} hw ht' => ?_⟩
  have hbefore := waiting_move m hw
  have hseen : w.seen ≤ c.running.signals := by
    rcases hbefore with hd | ⟨-, t, -, hseen, -⟩
    · obtain ⟨t, ht⟩ := h.steady.task hd
      exact (h.awake.wait hd ht).1
    · exact Nat.le_of_eq hseen
  cases turnover h m with
  | same kept running =>
      obtain ⟨t, ht, hjob, -⟩ := exists_of_kept ((kept k).symm.trans (kept?_of_task ht'))
      rw [running, ← hjob]
      rcases hbefore with hd | ⟨-, t₁, ht₁, -, blocked⟩
      · exact h.awake.wait hd ht
      · obtain rfl : t = t₁ := Option.some.inj (ht.symm.trans ht₁)
        exact ⟨hseen, fun _ => blocked⟩
  | enter j free kept running =>
      -- After the signal every wait is due to wake up.
      have hsignals : c'.running.signals = c.running.signals + 1 := congrArg _ running
      exact ⟨by omega, fun heq => by omega⟩
  | leave k t ht hn hm kept running =>
      have hsignals : c'.running.signals = c.running.signals + 1 := congrArg _ running
      exact ⟨by omega, fun heq => by omega⟩

end Move

end Coordinator

end Foreman
