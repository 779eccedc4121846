import Foreman.Proofs.Coordinator.Hands

/-!
Where nothing goes on by itself. A coordinator with a processor that has not stopped comes to rest
only when all of its builds are over or when some of them wait for each other in a circle.
-/

namespace Foreman

open Relation (TransGen)

/-- Among finitely many, each of which has one of them after it, some come after themselves. -/
theorem exists_cycle {α : Type} {R : α → α → Prop} {l : List α} (hl : l ≠ [])
    (serial : ∀ x ∈ l, ∃ y ∈ l, TransGen R x y) : ∃ x ∈ l, TransGen R x x := by
  induction l with
  | nil => exact (hl rfl).elim
  | cons x l ih =>
      by_cases hx : TransGen R x x
      · exact ⟨x, List.mem_cons_self, hx⟩
      · -- Whoever has `x` after it has another one after it, the one after `x`.
        have other {y : α} (hy : y ∈ x :: l) (hxy : TransGen R x y) : y ∈ l := by
          rcases List.mem_cons.mp hy with rfl | hy
          · exact (hx hxy).elim
          · exact hy
        obtain ⟨y, hy, hxy⟩ := serial x List.mem_cons_self
        have hyl := other hy hxy
        obtain ⟨z, hz, hzz⟩ := ih (List.ne_nil_of_mem hyl) fun z hz => by
          obtain ⟨u, hu, hzu⟩ := serial z (List.mem_cons_of_mem _ hz)
          rcases List.mem_cons.mp hu with rfl | hu
          · exact ⟨y, hyl, hzu.trans hxy⟩
          · exact ⟨u, hu, hzu⟩
        exact ⟨z, List.mem_cons_of_mem _ hz, hzz⟩

namespace Coordinator

/-- Whether the action goes on by itself, once the others that were asked have answered. -/
def Action.isBackground : Action → Bool
  | .submit .. | .spawn | .stop _ => false
  | _ => true

/-- No background action is possible. -/
def AtRest (c : Coordinator) : Prop := ∀ a : Action, a.isBackground = true → c.step a = none

def DrivePhase.isQuiet (signals : Nat) : DrivePhase → Bool
  | .waiting w => w.seen = signals
  | .ended => true
  | _ => false

def ForwardPhase.isQuiet (next : Option TaskStatus) : ForwardPhase → Bool
  | .listening => next.isNone
  | .sending _ => false
  | .ended => true

theorem DrivePhase.isQuiet_iff {signals : Nat} {phase : DrivePhase} :
    DrivePhase.isQuiet signals phase = true ↔
      phase = .ended ∨ ∃ w, phase = .waiting w ∧ w.seen = signals := by
  cases phase <;> simp [DrivePhase.isQuiet]

/-- A check whether the coordinator is at rest. -/
def isQuiet (c : Coordinator) : Bool :=
  c.drives.all (DrivePhase.isQuiet c.running.signals ·.phase) &&
    c.forwards.all (fun f => ForwardPhase.isQuiet
      ((c.task? f.task).bind (·.published[f.taken]?)) f.phase) &&
    c.processors.all (fun r => r.phase = .idle ∨ r.phase = .stopped) &&
    (c.workshop.queue.takers.isEmpty || c.workshop.queue.entries.isEmpty)

theorem atRest_of_isQuiet {c : Coordinator} (h : c.isQuiet = true) : c.AtRest := by
  simp only [isQuiet, Bool.and_eq_true, List.all_eq_true, Bool.or_eq_true, List.isEmpty_iff,
    decide_eq_true_eq] at h
  obtain ⟨⟨⟨drives, forwards⟩, processors⟩, queue⟩ := h
  have hdrive {k : Nat} {d : Drive} (hd : c.drives[k]? = some d) :=
    DrivePhase.isQuiet_iff.mp (drives d (List.mem_of_getElem? hd))
  have hforward {k : Nat} {f : Forward} (hf : c.forwards[k]? = some f) :=
    forwards f (List.mem_of_getElem? hf)
  have hprocessor {p : Nat} {r : Processor} (hp : c.processors[p]? = some r) :=
    processors r (List.mem_of_getElem? hp)
  intro a ha
  cases a with
  | submit | spawn | stop => simp [Action.isBackground] at ha
  | drive k now =>
      refine Option.bind_eq_none_iff.mpr fun d hd => Option.bind_eq_none_iff.mpr fun t ht => ?_
      rcases hdrive hd with hphase | ⟨w, hphase, hseen⟩
      · simp [hphase]
      · simp [hphase, hseen]
  | started k answer =>
      refine Option.bind_eq_none_iff.mpr fun d hd => ?_
      rcases hdrive hd with hphase | ⟨w, hphase, -⟩ <;> simp [hphase]
  | monitored k answer now =>
      refine Option.bind_eq_none_iff.mpr fun d hd => ?_
      rcases hdrive hd with hphase | ⟨w, hphase, -⟩ <;> simp [hphase]
  | forward k =>
      refine Option.bind_eq_none_iff.mpr fun f hf => Option.bind_eq_none_iff.mpr fun t ht =>
        Option.bind_eq_none_iff.mpr fun s hs => ?_
      have hquiet := hforward hf
      split
      next hphase => simp [hphase, ForwardPhase.isQuiet, ht, hs] at hquiet
      next => rfl
  | forwarded k =>
      refine Option.bind_eq_none_iff.mpr fun f hf => ?_
      have hquiet := hforward hf
      split
      next hphase => simp [hphase, ForwardPhase.isQuiet] at hquiet
      next => rfl
  | take now id =>
      refine Option.bind_eq_none_iff.mpr fun x hx => ?_
      simp only [TaskQueue.take?, TaskQueue.handOut?, Option.map_eq_some_iff] at hx
      obtain ⟨y, hy, -⟩ := hx
      split at hy
      next hk he => simp [hk, he] at queue
      next => simp at hy
  | saved p =>
      refine Option.bind_eq_none_iff.mpr fun r hp => ?_
      rcases hprocessor hp with hphase | hphase <;> simp [hphase]
  | reported p =>
      refine Option.bind_eq_none_iff.mpr fun r hp => ?_
      rcases hprocessor hp with hphase | hphase <;> simp [hphase]

/-- A build in the running set depends on another one in it. -/
def DependsOn (c : Coordinator) (id id' : BuildIdentity) : Prop :=
  ∃ i t, c.running.get? id = some i ∧ c.task? i = some t ∧ id' ∈ t.job.dependencies ∧
    c.running.contains id' = true

section Rest

variable {c : Coordinator} {k p : Nat} {t : Task} {b : Bool} {phase : ProcessorPhase}

/-- Nothing keeps a drive back but a dependency in the running set. -/
theorem AtRest.drive (rest : c.AtRest) (h : c.Sound) {phase : DrivePhase}
    (hd : c.drives[k]? = some ⟨k, phase⟩) (ht : c.task? k = some t) :
    phase = .ended ∨ DependencyWait.pending t.job.dependencies c.running ≠ 0 := by
  cases phase with
  | arriving =>
      have := rest (.drive k t.updatedAt) rfl
      simp [step, Coordinator.drive, hd, ht] at this
  | waiting w =>
      by_cases hseen : w.seen = c.running.signals
      · exact .inr ((h.awake.wait hd ht).2 hseen)
      · have := rest (.drive k t.updatedAt) rfl
        simp [step, Coordinator.drive, hd, ht, hseen] at this
  | starting =>
      have := rest (.started k (.ok ())) rfl
      simp [step, Coordinator.started, hd] at this
  | monitoring =>
      have := rest (.monitored k (.error ⟨""⟩) t.updatedAt) rfl
      simp [step, Coordinator.monitored, hd] at this
  | ended => exact .inl rfl

theorem AtRest.processor (rest : c.AtRest) (h : c.Sound)
    (hp : c.processors[p]? = some ⟨phase, b⟩) : phase = .idle ∨ phase = .stopped := by
  cases phase with
  | idle => exact .inl rfl
  | stopped => exact .inr rfl
  | saving e r =>
      obtain ⟨t, ht, -⟩ := h.ledger.due_hand hp (carries_saving e r)
      have := rest (.saved p) rfl
      simp only [step, saved, hp, ht, Option.bind_eq_bind, Option.bind_some] at this
      split at this <;> simp at this
  | reporting e =>
      have := rest (.reported p) rfl
      simp [step, reported, hp] at this

theorem isSome_accept {e : QueuedTask} (p : Nat) (now : Instant) (id : ResourceId)
    (ht : c.task? e.task = some t) : (c.accept p e now id).isSome = true := by
  rcases task?_settle_cases c.workshop e now e.task with h | ⟨-, h⟩
  · simp [accept, h, show c.workshop.task? e.task = some t from ht]
  · simp [accept, h, show c.workshop.task? e.task = some t from ht]

/-- Some processor has not stopped. -/
def IsStaffed (c : Coordinator) : Prop := ∃ r ∈ c.processors, r.phase ≠ .stopped

theorem AtRest.queue (rest : c.AtRest) (h : c.Sound) (staffed : c.IsStaffed) :
    c.workshop.queue.entries = [] := by
  obtain ⟨⟨phase, b⟩, hr, live⟩ := staffed
  obtain ⟨p, hp⟩ := List.mem_iff_getElem?.mp hr
  obtain rfl := (rest.processor h hp).resolve_right live
  have hp := h.line.mem.mpr ⟨b, hp⟩
  cases hk : c.workshop.queue.takers with
  | nil => simp [hk] at hp
  | cons q takers =>
      cases he : c.workshop.queue.entries with
      | nil => rfl
      | cons e entries =>
          obtain ⟨t, ht, -⟩ := h.ledger.due_entry (e := e) (by simp [he])
          have := rest (.take t.updatedAt ⟨0⟩) rfl
          simp only [step, take, TaskQueue.take?, TaskQueue.handOut?, hk, he, Option.map_some,
            Option.bind_eq_bind, Option.bind_some] at this
          have hsome := isSome_accept
            (c := { c with workshop := { c.workshop with
              queue := TaskQueue.discount ⟨entries, takers, c.workshop.queue.count⟩ } })
            q t.updatedAt ⟨0⟩ ht
          cases hsome.symm.trans (congrArg Option.isSome this)

/-- A build that is not over at rest waits for another one that is in the running set. -/
theorem AtRest.blocked (rest : c.AtRest) (h : c.Sound) (staffed : c.IsStaffed)
    (ht : c.task? k = some t) (hn : t.completion = none) :
    ∃ id, c.DependsOn t.identity id := by
  have hm := h.members.mem.mpr ⟨t, ht, rfl, hn⟩
  have hlt : k < c.drives.length := h.steady.length ▸ (List.getElem?_eq_some_iff.mp ht).1
  obtain ⟨⟨j, phase⟩, hd⟩ : ∃ d, c.drives[k]? = some d := ⟨_, List.getElem?_eq_getElem hlt⟩
  obtain ⟨rfl, -⟩ := h.steady.fits hd
  rcases rest.drive h hd ht with rfl | hpending
  · have hq : t.enqueued = true := h.steady.fit hd ht
    have hheld := h.ledger.held j
    -- Its drive has ended, so it is due; but no hand holds it at rest.
    rw [held, rest.queue h staffed, List.countP_nil, Nat.zero_add, owed_of_task ht] at hheld
    have hcount : 0 < c.processors.countP (ProcessorPhase.carries j ·.phase) := by
      rw [hheld]
      simp [Task.due, hq, Task.isCompleted, hn]
    obtain ⟨⟨phase, b⟩, hr, hc⟩ := List.countP_pos_iff.mp hcount
    obtain ⟨p, hp⟩ := List.mem_iff_getElem?.mp hr
    rcases rest.processor h hp with rfl | rfl <;> simp [ProcessorPhase.carries] at hc
  · obtain ⟨id, hid, hcontains⟩ : ∃ id ∈ t.job.dependencies, c.running.contains id = true := by
      simpa [DependencyWait.pending_eq_zero] using hpending
    exact ⟨id, _, t, hm, ht, hid, hcontains⟩

/-- A coordinator comes to rest only with all builds over or with builds waiting in a circle. -/
theorem AtRest.over_or_cycle (rest : c.AtRest) (h : c.Sound) (staffed : c.IsStaffed) :
    (c.running.isEmpty = true ∧ ∀ i t, c.task? i = some t → t.isCompleted = true) ∨
      ∃ id, TransGen c.DependsOn id id := by
  by_cases hempty : c.running.members.keys = []
  · left
    have hentries : c.running.members.entries = [] := List.map_eq_nil_iff.mp hempty
    refine ⟨List.isEmpty_iff.mpr hentries, fun i t ht => ?_⟩
    cases hn : t.completion with
    | some x => simp [Task.isCompleted, hn]
    | none =>
        have hm := (Table.get?_eq_some _).mp (h.members.mem.mpr ⟨t, ht, rfl, hn⟩)
        simp [hentries] at hm
  · right
    -- Each build in the running set depends on another one in it.
    obtain ⟨id, -, hid⟩ := exists_cycle (R := c.DependsOn) hempty fun id hid => by
      have hcontains := (Table.contains_iff_mem _ _).mpr hid
      obtain ⟨i, hi⟩ := Option.isSome_iff_exists.mp hcontains
      obtain ⟨t, ht, rfl, hn⟩ := h.members.mem.mp hi
      obtain ⟨id', hdep⟩ := rest.blocked h staffed ht hn
      refine ⟨id', ?_, .single hdep⟩
      obtain ⟨_, _, -, -, -, hcontains'⟩ := hdep
      exact (Table.contains_iff_mem _ _).mp hcontains'
    exact ⟨id, hid⟩

end Rest

end Coordinator

end Foreman
