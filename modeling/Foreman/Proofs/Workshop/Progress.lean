import Foreman.Proofs.Workshop.History

/-!
What becomes of a task. Whatever is done in a workshop, by a coordinator or by anybody else, the tasks
that are there stay, keep their jobs and take back nothing that they have published.
-/

namespace Foreman

namespace Task

/-- How a task may go on. -/
structure Onward (t t' : Task) : Prop where
  job : t'.job = t.job
  published : t.published <+: t'.published
  lawful : t.Lawful → t'.Lawful

variable {t t' t'' : Task} {now : Instant} {s : TaskStatus}

theorem Onward.refl (t : Task) : t.Onward t := ⟨rfl, List.prefix_rfl, id⟩

theorem Onward.trans (h : t.Onward t') (h' : t'.Onward t'') : t.Onward t'' :=
  ⟨h'.job.trans h.job, h.published.trans h'.published, h'.lawful ∘ h.lawful⟩

theorem onward_of_face (job : t'.job = t.job) (face : t'.face = t.face) : t.Onward t' := by
  have published : t'.published = t.published := congrArg (·.2.2.1) face
  exact ⟨job, published ▸ List.prefix_rfl, fun h => h.congr face⟩

theorem onward_publish (hs : t.status.state.canBecome s.state = true) :
    t.Onward (t.publish now s) :=
  ⟨rfl, List.prefix_append .., fun h => h.publish hs⟩

theorem onward_update {o : Option Outcome} (hu : t.update now s = .ok (t', o)) : t.Onward t' := by
  have lawful : t.Lawful → t'.Lawful := fun h => h.update hu
  unfold Task.update at hu
  split at hu
  next =>
    dsimp only at hu
    split at hu <;>
      obtain ⟨rfl, -⟩ := Prod.mk.inj (Except.ok.inj hu) <;>
      exact ⟨rfl, List.prefix_append .., lawful⟩
  next => simp at hu

theorem onward_fail (t : Task) (e : DriverError) : t.Onward (t.fail e).1 :=
  ⟨rfl, List.prefix_rfl, fun h => ⟨h.last, h.shown, h.forward⟩⟩

theorem onward_settle (t : Task) (now : Instant) : t.Onward (t.settle now) := by
  unfold Task.settle
  split
  next => exact .refl t
  next hs => exact onward_publish (State.canBecome_systemError (Bool.eq_false_iff.mpr hs))

end Task

namespace Workshop

/-- How the tasks of a workshop may go on, with others that are made. -/
structure Onward (w w' : Workshop) : Prop where
  tasks : ∀ i t, w.task? i = some t → ∃ t', w'.task? i = some t' ∧ t.Onward t'
  made : ∀ i t', w'.task? i = some t' → w.task? i = none → t'.Lawful

variable {w w' w'' : Workshop} {i : Nat}

theorem onward_of_tasks (h : w'.tasks = w.tasks) : w.Onward w' := by
  have same : ∀ i, w'.task? i = w.task? i := fun i => by rw [task?, task?, h]
  refine ⟨fun i t ht => ⟨t, (same i).trans ht, .refl t⟩, fun i t' ht' hn => ?_⟩
  rw [same, hn] at ht'
  simp at ht'

theorem Onward.refl (w : Workshop) : w.Onward w := onward_of_tasks rfl

theorem Onward.trans (h : w.Onward w') (h' : w'.Onward w'') : w.Onward w'' := by
  refine ⟨fun i t ht => ?_, fun i t'' ht'' hn => ?_⟩
  · obtain ⟨t', ht', on⟩ := h.tasks i t ht
    obtain ⟨t'', ht'', on'⟩ := h'.tasks i t' ht'
    exact ⟨t'', ht'', on.trans on'⟩
  · cases hi : w'.task? i with
    | none => exact h'.made i t'' ht'' hi
    | some t' =>
        obtain ⟨u, hu, on⟩ := h'.tasks i t' hi
        obtain rfl : u = t'' := Option.some.inj (hu.symm.trans ht'')
        exact on.lawful (h.made i t' hi hn)

theorem Onward.lawful (h : w.Onward w') (before : ∀ i t, w.task? i = some t → t.Lawful) :
    ∀ i t, w'.task? i = some t → t.Lawful := by
  intro i t' ht'
  cases hi : w.task? i with
  | none => exact h.made i t' ht' hi
  | some t =>
      obtain ⟨u, hu, on⟩ := h.tasks i t hi
      obtain rfl : u = t' := Option.some.inj (hu.symm.trans ht')
      exact on.lawful (before i t hi)

theorem onward_change (k : Nat) {f : Task → Task}
    (hf : ∀ t, w.task? k = some t → t.Onward (f t)) : w.Onward (w.change k f) := by
  refine ⟨fun i t ht => ?_, fun i t' ht' hn => ?_⟩
  · rw [task?_change]
    split
    next hi =>
      subst hi
      exact ⟨f t, by rw [ht]; rfl, hf t ht⟩
    next => exact ⟨t, ht, .refl t⟩
  · rw [task?_change, hn] at ht'
    split at ht' <;> simp at ht'

theorem onward_enqueue (h : w.Onward w') (k : Nat) (o : Option Outcome) :
    w.Onward (w'.enqueue k o) :=
  h.trans (onward_of_tasks (by cases o <;> rfl))

theorem onward_append (w : Workshop) (j : BuildJob) (now : Instant)
    (h : w'.tasks = w.tasks ++ [.new j now]) : w.Onward w' := by
  refine ⟨fun i t ht => ⟨t, ?_, .refl t⟩, fun i t' ht' hn => ?_⟩
  · have hi : i < w.tasks.length := (List.getElem?_eq_some_iff.mp ht).1
    rw [task?, h, List.getElem?_append_left hi]
    exact ht
  · rw [task?, h] at ht'
    rcases getElem?_concat_cases ht' with ht' | ⟨-, rfl⟩
    · rw [task?, ht'] at hn
      simp at hn
    · exact Task.lawful_new j now

theorem onward_submit (h : w.submit i = .ok w') : w.Onward w' := by
  unfold submit at h
  split at h
  next t ht =>
    cases hs : w.running.submit t.identity i with
    | error e => simp [hs, bind, Except.bind] at h
    | ok s =>
        obtain rfl : { w with running := s } = w' := by
          simpa [hs, bind, Except.bind, pure, Except.pure] using h
        exact onward_of_tasks rfl
  next =>
    obtain rfl : w = w' := by simpa using h
    exact .refl w

theorem onward_remove (w : Workshop) (i : Nat) : w.Onward (w.remove i) := by
  unfold remove
  split <;> exact onward_of_tasks rfl

theorem onward_update {now : Instant} {s : TaskStatus} (h : w.update i now s = .ok w') :
    w.Onward w' := by
  unfold Workshop.update at h
  split at h
  next t ht =>
    cases hu : t.update now s with
    | error e => simp [hu, bind, Except.bind] at h
    | ok r =>
        obtain ⟨u, o⟩ := r
        obtain rfl : (w.change i fun _ => u).enqueue i o = w' := by
          simpa [hu, bind, Except.bind, pure, Except.pure] using h
        refine onward_enqueue (onward_change i fun t' ht' => ?_) i o
        obtain rfl : t = t' := Option.some.inj (ht.symm.trans ht')
        exact Task.onward_update hu
  next =>
    obtain rfl : w = w' := by simpa using h
    exact .refl w

theorem onward_fail (w : Workshop) (i : Nat) (e : DriverError) : w.Onward (w.fail i e) := by
  unfold Workshop.fail
  split
  next t ht =>
    refine onward_enqueue (onward_change i fun t' ht' => ?_) i _
    obtain rfl : t = t' := Option.some.inj (ht.symm.trans ht')
    exact Task.onward_fail t e
  next => exact .refl w

theorem onward_complete (h : w.complete i = .ok w') : w.Onward w' := by
  cases ht : w.task? i with
  | none =>
      obtain rfl := Except.ok.inj ((complete_of_none ht).symm.trans h)
      exact .refl w
  | some t =>
      rw [complete_of_task ht] at h
      split at h
      next => cases h
      next =>
        obtain rfl := Except.ok.inj h
        exact .trans (onward_remove w i) (onward_change i fun _ _ => Task.onward_of_face rfl rfl)

theorem onward_settle (w : Workshop) (e : QueuedTask) (now : Instant) :
    w.Onward (w.settle e now) := by
  unfold Workshop.settle
  split
  next => exact .refl w
  next => exact onward_change e.task fun t _ => Task.onward_settle t now

theorem onward_getD {r : Except Fault Workshop} (h : ∀ w', r = .ok w' → w.Onward w') :
    w.Onward (r.toOption.getD w) := by
  cases r with
  | ok w' => exact h w' rfl
  | error e => exact .refl w

end Workshop

namespace Coordinator

variable {c c' : Coordinator} {a : Action} {o : Option Errand}

theorem onward_advance (c : Coordinator) (k i : Nat) (now : Instant) (s : TaskStatus)
    (p : DrivePhase) : c.workshop.Onward (c.advance k i now s p).workshop := by
  unfold advance
  split
  next w hw => exact Workshop.onward_update hw
  next => exact .refl _

theorem onward_proceed (c : Coordinator) (k i : Nat) (w : DependencyWait) (now : Instant)
    (reported : Bool) : c.workshop.Onward (c.proceed k i w now reported).1.workshop := by
  unfold proceed
  split
  next =>
    split
    next w hw => exact Workshop.onward_update hw
    next => exact .refl _
  next =>
    split
    next => exact .refl _
    next => exact onward_advance ..

theorem onward_drive {k : Nat} {now : Instant} (h : c.drive k now = some (c', o)) :
    c.workshop.Onward c'.workshop := by
  simp only [drive, Option.bind_eq_bind, Option.bind_eq_some_iff] at h
  obtain ⟨d, -, t, -, h⟩ := h
  split at h
  next =>
    rw [← (Prod.mk.inj (Option.some.inj h)).1]
    exact onward_proceed ..
  next =>
    split at h
    next => simp at h
    next =>
      rw [← (Prod.mk.inj (Option.some.inj h)).1]
      exact onward_proceed ..
  next => simp at h

theorem onward_started {k : Nat} {answer : Except DriverError Unit}
    (h : c.started k answer = some (c', o)) : c.workshop.Onward c'.workshop := by
  simp only [started, Option.bind_eq_bind, Option.bind_eq_some_iff] at h
  obtain ⟨d, -, h⟩ := h
  split at h
  next =>
    obtain ⟨rfl, -⟩ := Prod.mk.inj (Option.some.inj h)
    exact .refl _
  next e _ =>
    obtain ⟨rfl, -⟩ := Prod.mk.inj (Option.some.inj h)
    exact Workshop.onward_fail _ d.task e
  next => simp at h

theorem onward_monitored {k : Nat} {answer : Except DriverError BuildDetails} {now : Instant}
    (h : c.monitored k answer now = some (c', o)) : c.workshop.Onward c'.workshop := by
  simp only [monitored, Option.bind_eq_bind, Option.bind_eq_some_iff] at h
  obtain ⟨d, -, h⟩ := h
  split at h
  next details _ =>
    obtain ⟨rfl, -⟩ := Prod.mk.inj (Option.some.inj h)
    have noted : c.workshop.Onward
        (c.workshop.change d.task fun t => { t with details := some details }) :=
      Workshop.onward_change d.task fun t _ => Task.onward_of_face rfl rfl
    exact noted.trans (onward_advance { c with workshop := _ } k d.task now _ .ended)
  next e _ =>
    obtain ⟨rfl, -⟩ := Prod.mk.inj (Option.some.inj h)
    exact Workshop.onward_fail _ d.task e
  next => simp at h

theorem onward_finish (c : Coordinator) (p : Nat) (e : QueuedTask) :
    c.workshop.Onward (c.finish p e).workshop := by
  cases h : c.workshop.complete e.task with
  | ok w =>
      have completed := Workshop.onward_complete h
      simp only [finish, h]
      split <;> exact completed.trans (Workshop.onward_of_tasks rfl)
  | error fault =>
      simp only [finish, h]
      split <;> exact Workshop.onward_of_tasks rfl

/-- In a step of a coordinator, whatever state it is in, all tasks go on. -/
theorem onward_step (h : c.step a = some (c', o)) : c.workshop.Onward c'.workshop := by
  cases a with
  | submit configuration url now =>
      cases submit_move h with
      | refuse => exact .refl _
      | enroll => exact Workshop.onward_append _ _ _ rfl
  | drive k now => exact onward_drive h
  | started k answer => exact onward_started h
  | monitored k answer now => exact onward_monitored h
  | forward k =>
      cases forward_move h
      exact .refl _
  | forwarded k =>
      cases forwarded_move h
      exact .refl _
  | spawn =>
      obtain ⟨rfl, -⟩ := Prod.mk.inj (Option.some.inj h)
      exact Workshop.onward_of_tasks rfl
  | stop p =>
      obtain ⟨rfl, -⟩ := Prod.mk.inj (Option.some.inj h)
      unfold Coordinator.stop
      split <;> exact Workshop.onward_of_tasks rfl
  | take now id =>
      cases take_move h with
      | @take p e _ _ takers entries =>
          exact (Workshop.onward_settle c.workshop e now).trans (Workshop.onward_of_tasks rfl)
  | saved p =>
      cases saved_move h with
      | report => exact .refl _
      | pass => exact onward_finish ..
  | reported p =>
      cases reported_move h
      exact onward_finish ..

/-- What of a coordinator its processors leave alone. -/
def standing (c : Coordinator) : List Drive × List Forward × Bool :=
  (c.drives, c.forwards, c.reports)

theorem standing_finish (c : Coordinator) (p : Nat) (e : QueuedTask) :
    (c.finish p e).standing = c.standing := by
  unfold finish
  cases c.workshop.complete e.task <;> dsimp only <;> split <;> rfl

theorem standing_stop (c : Coordinator) (p : Nat) : (c.stop p).standing = c.standing := by
  unfold Coordinator.stop
  split <;> rfl

theorem forwards_advance (c : Coordinator) (k i : Nat) (now : Instant) (s : TaskStatus)
    (p : DrivePhase) : (c.advance k i now s p).forwards = c.forwards := by
  unfold advance
  split <;> rfl

theorem forwards_proceed (c : Coordinator) (k i : Nat) (w : DependencyWait) (now : Instant)
    (reported : Bool) : (c.proceed k i w now reported).1.forwards = c.forwards := by
  unfold proceed
  split
  next => split <;> rfl
  next =>
    split
    next => rfl
    next => exact forwards_advance ..

def Action.isForwarding : Action → Bool
  | .forward _ | .forwarded _ => true
  | _ => false

/-- Forwards go on by themselves; apart from that new ones are set up. -/
theorem forwards_step (h : c.step a = some (c', o)) (ha : a.isForwarding = false) :
    c.forwards <+: c'.forwards := by
  have same (h : c'.forwards = c.forwards) : c.forwards <+: c'.forwards := h ▸ List.prefix_rfl
  cases a with
  | submit configuration url now =>
      cases submit_move h with
      | refuse => exact List.prefix_rfl
      | enroll => exact List.prefix_append ..
  | drive k now =>
      simp only [step, drive, Option.bind_eq_bind, Option.bind_eq_some_iff] at h
      obtain ⟨d, -, t, -, h⟩ := h
      split at h
      next =>
        rw [← (Prod.mk.inj (Option.some.inj h)).1] at same ⊢
        exact same (forwards_proceed ..)
      next =>
        split at h
        next => simp at h
        next =>
          rw [← (Prod.mk.inj (Option.some.inj h)).1] at same ⊢
          exact same (forwards_proceed ..)
      next => simp at h
  | started k answer =>
      simp only [step, started, Option.bind_eq_bind, Option.bind_eq_some_iff] at h
      obtain ⟨d, -, h⟩ := h
      split at h
      next => exact same (congrArg forwards (Prod.mk.inj (Option.some.inj h)).1).symm
      next => exact same (congrArg forwards (Prod.mk.inj (Option.some.inj h)).1).symm
      next => simp at h
  | monitored k answer now =>
      simp only [step, monitored, Option.bind_eq_bind, Option.bind_eq_some_iff] at h
      obtain ⟨d, -, h⟩ := h
      split at h
      next =>
        rw [← (Prod.mk.inj (Option.some.inj h)).1] at same ⊢
        exact same (forwards_advance { c with workshop := _ } k d.task now _ .ended)
      next => exact same (congrArg forwards (Prod.mk.inj (Option.some.inj h)).1).symm
      next => simp at h
  | spawn => exact same (congrArg forwards (Prod.mk.inj (Option.some.inj h)).1).symm
  | stop p =>
      obtain ⟨rfl, -⟩ := Prod.mk.inj (Option.some.inj h)
      exact same (congrArg (·.2.1) (standing_stop c p))
  | take now id =>
      cases take_move h
      exact List.prefix_rfl
  | saved p =>
      cases saved_move h with
      | report => exact List.prefix_rfl
      | pass => exact same (congrArg (·.2.1) (standing_finish ..))
  | reported p =>
      cases reported_move h
      exact same (congrArg (·.2.1) (standing_finish ..))
  | forward | forwarded => simp [Action.isForwarding] at ha

end Coordinator

namespace Floor

variable {f f' : Floor} {d : Deed}

/-- Whatever deed is done, all tasks go on. -/
theorem onward_step (h : f.step d = some f') : f.workshop.Onward f'.workshop := by
  cases d with
  | create j now =>
      obtain rfl := Option.some.inj h
      exact Workshop.onward_append _ j now rfl
  | submit i =>
      obtain ⟨_, -, rfl⟩ := Option.map_eq_some_iff.mp h
      exact Workshop.onward_getD fun _ => Workshop.onward_submit
  | remove i =>
      obtain ⟨_, -, rfl⟩ := Option.map_eq_some_iff.mp h
      exact Workshop.onward_remove ..
  | update i now s =>
      obtain ⟨_, -, rfl⟩ := Option.map_eq_some_iff.mp h
      exact Workshop.onward_getD fun _ => Workshop.onward_update
  | fail i e =>
      obtain ⟨_, -, rfl⟩ := Option.map_eq_some_iff.mp h
      exact Workshop.onward_fail ..
  | complete i =>
      obtain ⟨_, -, rfl⟩ := Option.map_eq_some_iff.mp h
      exact Workshop.onward_getD fun _ => Workshop.onward_complete
  | setDetails i d =>
      obtain ⟨_, -, rfl⟩ := Option.map_eq_some_iff.mp h
      exact Workshop.onward_change i fun t _ => Task.onward_of_face rfl rfl
  | setRepository i r =>
      obtain ⟨_, -, rfl⟩ := Option.map_eq_some_iff.mp h
      exact Workshop.onward_change i fun t _ => Task.onward_of_face rfl rfl
  | tryTake =>
      simp only [step, Option.bind_eq_bind, Option.bind_eq_some_iff, Option.some.injEq] at h
      obtain ⟨_, -, rfl⟩ := h
      exact Workshop.onward_of_tasks rfl
  | process k now id =>
      simp only [step, Option.bind_eq_bind, Option.bind_eq_some_iff, Option.some.injEq] at h
      obtain ⟨e, -, ⟨c, o⟩, h, rfl⟩ := h
      show f.workshop.Onward c.workshop
      rw [Coordinator.workshop_accept h]
      exact Workshop.onward_settle f.workshop e now
  | spawn =>
      obtain rfl := Option.some.inj h
      exact Workshop.onward_of_tasks rfl
  | stop p =>
      obtain rfl := Option.some.inj h
      exact Coordinator.onward_step (a := .stop p) rfl
  | take now id =>
      obtain ⟨_, hs, rfl⟩ := Option.map_eq_some_iff.mp h
      exact Coordinator.onward_step (a := .take now id) hs
  | saved p =>
      obtain ⟨_, hs, rfl⟩ := Option.map_eq_some_iff.mp h
      exact Coordinator.onward_step (a := .saved p) hs
  | reported p =>
      obtain ⟨_, hs, rfl⟩ := Option.map_eq_some_iff.mp h
      exact Coordinator.onward_step (a := .reported p) hs
  | enqueue e =>
      obtain rfl := Option.some.inj h
      exact Workshop.onward_of_tasks rfl
  | bring e =>
      obtain rfl := Option.some.inj h
      exact Workshop.onward_of_tasks rfl

theorem standing_step (hs : f.step d = some f') :
    f'.coordinator.standing = f.coordinator.standing := by
  cases d with
  | create | spawn | enqueue | bring =>
      obtain rfl := Option.some.inj hs
      rfl
  | submit | remove | update | fail | complete | setDetails | setRepository =>
      obtain ⟨_, -, rfl⟩ := Option.map_eq_some_iff.mp hs
      rfl
  | tryTake =>
      simp only [step, Option.bind_eq_bind, Option.bind_eq_some_iff, Option.some.injEq] at hs
      obtain ⟨_, -, rfl⟩ := hs
      rfl
  | process k now id =>
      simp only [step, Option.bind_eq_bind, Option.bind_eq_some_iff, Option.some.injEq] at hs
      obtain ⟨e, -, ⟨c, o⟩, ha, rfl⟩ := hs
      simp only [Coordinator.accept, Option.bind_eq_bind, Option.bind_eq_some_iff,
        Option.some.injEq] at ha
      obtain ⟨t, -, ha⟩ := ha
      rw [← (Prod.mk.inj ha).1]
      rfl
  | stop p =>
      obtain rfl := Option.some.inj hs
      exact Coordinator.standing_stop ..
  | take now id =>
      obtain ⟨⟨c, o⟩, ht, rfl⟩ := Option.map_eq_some_iff.mp hs
      cases Coordinator.take_move ht
      rfl
  | saved p =>
      obtain ⟨⟨c, o⟩, ht, rfl⟩ := Option.map_eq_some_iff.mp hs
      cases Coordinator.saved_move ht with
      | report => rfl
      | pass => exact Coordinator.standing_finish ..
  | reported p =>
      obtain ⟨⟨c, o⟩, ht, rfl⟩ := Option.map_eq_some_iff.mp hs
      cases Coordinator.reported_move ht
      exact Coordinator.standing_finish ..

end Floor

end Foreman
