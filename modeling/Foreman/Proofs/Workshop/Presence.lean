import Foreman.Proofs.Workshop.Processing

/-!
The builds in flight, whoever submits, removes and completes them. An identity is taken by a task that
is submitted while it is free, and it becomes free again when that very task is taken out, by a
removal or by its completion; each time one signal is given. A task is completed once, and it is out
of the running set at the moment when its result is handed out.
-/

namespace Foreman

namespace Workshop

/-- What concerns the running set. -/
inductive Call where
  | submit (i : Nat)
  | remove (i : Nat)
  | complete (i : Nat)
deriving DecidableEq

def Call.task : Call → Nat
  | submit i | remove i | complete i => i

/-- What the call does with the identity of its task if it does anything with it. -/
def Call.apply (s : RunningSet) (id : BuildIdentity) : Call → RunningSet
  | submit i => (s.enter id i).signal
  | remove _ | complete _ => (s.leave id).signal

/-- The workshop after the call; one that is refused changes nothing. -/
def perform (w : Workshop) : Call → Workshop
  | .submit i => (w.submit i).toOption.getD w
  | .remove i => w.remove i
  | .complete i => (w.complete i).toOption.getD w

/-- A result that is handed out, and the running set at this moment. -/
structure Sending where
  task : Nat
  result : BuildResult
  running : RunningSet

/-- The results that are handed out while the acts are done one after the other. -/
def sendings (w : Workshop) : List Act → List Sending
  | [] => []
  | .leave i :: rest => (w.act (.leave i)).sendings rest
  | .send i r :: rest => ⟨i, r, w.running⟩ :: (w.act (.send i r)).sendings rest

/-- Whether it is this very task that is in flight. -/
def isInFlight (w : Workshop) (i : Nat) : Bool :=
  (w.task? i).any fun t => w.running.holds t.identity i

/-- Whether the call changes who is in flight: a submission that is accepted does, and so does the
removal of a task that is in flight, also if it comes with the completion. -/
def isTurn (w : Workshop) : Call → Bool
  | .submit i => (w.submit i).isOk
  | .remove i => w.isInFlight i
  | .complete i => (w.complete i).isOk && w.isInFlight i

variable {w : Workshop} {i k : Nat} {t : Task}

theorem isInFlight_of_task (ht : w.task? i = some t) :
    w.isInFlight i = true ↔ w.running.get? t.identity = some i := by
  simp [isInFlight, ht, RunningSet.holds]

theorem submit_of_task (ht : w.task? i = some t) :
    w.submit i = if w.running.contains t.identity then .error (.duplicateTask t.identity)
      else .ok { w with running := (w.running.enter t.identity i).signal } := by
  rw [submit, ht]
  dsimp only
  rw [RunningSet.submit]
  split <;> rfl

theorem remove_of_task (ht : w.task? i = some t) :
    w.remove i = if w.isInFlight i then { w with running := (w.running.leave t.identity).signal }
      else w := by
  have hi := isInFlight_of_task ht
  split
  next h => exact remove_eq ht (hi.mp h)
  next h =>
    rw [hi] at h
    simp [remove, ht, RunningSet.remove, RunningSet.holds, h]

/-- The first one who completes a task has its result handed out, when the task has left. -/
theorem sendings_of_task (ht : w.task? i = some t) :
    w.sendings ((w.completing i).toOption.getD []) =
      if t.isCompleted then [] else [⟨i, t.result, (w.remove i).running⟩] := by
  rw [completing, ht]
  dsimp only
  unfold Task.claim
  split <;> rfl

theorem running_enqueue (w : Workshop) (i : Nat) (o : Option Outcome) :
    (w.enqueue i o).running = w.running := by
  cases o <;> rfl

theorem running_update (w : Workshop) (i : Nat) (now : Instant) (s : TaskStatus) :
    ((w.update i now s).toOption.getD w).running = w.running := by
  unfold update
  split
  next t _ =>
    cases t.update now s with
    | error => rfl
    | ok r => exact running_enqueue ..
  next => rfl

theorem running_fail (w : Workshop) (i : Nat) (e : DriverError) :
    (w.fail i e).running = w.running := by
  unfold fail
  split
  next => exact running_enqueue ..
  next => rfl

theorem running_handOut (w : Workshop) (i : Nat) (r : BuildResult) :
    (w.handOut i r).running = w.running := rfl

/-- A call about a task that is there changes the running set if it is a turn. -/
theorem running_perform {c : Call} (ht : w.task? c.task = some t) :
    (w.perform c).running = if w.isTurn c then c.apply w.running t.identity else w.running := by
  cases c with
  | submit i =>
      have ht : w.task? i = some t := ht
      rw [perform, isTurn, submit_of_task ht]
      split <;> rfl
  | remove i =>
      have ht : w.task? i = some t := ht
      rw [perform, isTurn, remove_of_task ht]
      split <;> rfl
  | complete i =>
      have ht : w.task? i = some t := ht
      rw [perform, isTurn, complete_of_task ht]
      cases t.isCompleted with
      | true => rfl
      | false =>
          show ((w.remove i).handOut i t.result).running = if w.isInFlight i then _ else _
          rw [running_handOut, remove_of_task ht]
          split <;> rfl

/-- A turn takes an identity that is free, or frees one that the task has. -/
theorem get?_of_isTurn {c : Call} (ht : w.task? c.task = some t) (h : w.isTurn c = true) :
    w.running.get? t.identity = if c = .submit c.task then none else some c.task := by
  cases c with
  | submit i =>
      have ht : w.task? i = some t := ht
      rw [isTurn, submit_of_task ht] at h
      rw [Call.task, if_pos rfl]
      split at h
      next => simp [Except.isOk, Except.toBool] at h
      next free => exact RunningSet.contains_eq_false.mp (Bool.eq_false_iff.mpr free)
  | remove i =>
      rw [if_neg (by simp)]
      exact (isInFlight_of_task ht).mp h
  | complete i =>
      rw [if_neg (by simp)]
      exact (isInFlight_of_task ht).mp (Bool.and_eq_true_iff.mp h).2

end Workshop

namespace Floor

open Workshop (Call)

variable {f f' : Floor} {d : Deed} {i : Nat} {t : Task} {l : List Call}

def running (f : Floor) : RunningSet := f.workshop.running

/-- The completion of the build that the processor has in hand. -/
def completionBy? (f : Floor) (p : Nat) : Option Call :=
  (f.coordinator.hand? p).bind fun e => (f.task? e.task).map fun _ => .complete e.task

/-- What the deed does that concerns the running set. -/
def call? (f : Floor) : Deed → Option Call
  | .submit i => some (.submit i)
  | .remove i => some (.remove i)
  | .complete i => some (.complete i)
  | .saved p =>
    match f.coordinator.saved p with
    | some (_, none) => f.completionBy? p
    | _ => none
  | .reported p => f.completionBy? p
  | _ => none

def calls (f : Floor) (d : Deed) : List Call := (f.call? d).toList

/-- The submissions that are accepted and the removals that have an effect. -/
def turns (f : Floor) (d : Deed) : List Call := (f.calls d).filter f.workshop.isTurn

/-- The results that the deed hands out. -/
def sendings (f : Floor) (d : Deed) : List Workshop.Sending :=
  match f.call? d with
  | some (.complete i) => f.workshop.sendings ((f.workshop.completing i).toOption.getD [])
  | _ => []

/-- What a deed that makes the call, if it makes any, does to the running set and to results. -/
structure Performs (f : Floor) (c : Option Call) (f' : Floor) : Prop where
  running : f'.running = (c.elim f.workshop f.workshop.perform).running
  completion : ∀ i, f'.completion? i =
    ((c.elim f.workshop f.workshop.perform).task? i).bind (·.completion)
  task : ∀ x ∈ c, ∃ t, f.task? x.task = some t

theorem Performs.of_quiet (running : f'.running = f.running)
    (completion : ∀ i, f'.completion? i = f.completion? i) : Performs f none f' :=
  ⟨running, completion, by simp⟩

theorem Performs.of_call {c : Call} (workshop : f'.workshop = f.workshop.perform c)
    (ht : f.task? c.task = some t) : Performs f (some c) f' where
  running := congrArg Workshop.running workshop
  completion i := congrArg (fun w => (Workshop.task? w i).bind (·.completion)) workshop
  task x hx := by
    obtain rfl := Option.some.inj hx
    exact ⟨t, ht⟩

theorem performs_finish {p : Nat} {e : QueuedTask} (hp : f.coordinator.hand? p = some e) :
    Performs f (f.completionBy? p) (f.withCoordinator (f.coordinator.finish p e)) := by
  have running : (f.coordinator.finish p e).running =
      ((f.workshop.complete e.task).toOption.getD f.workshop).running := by
    unfold Coordinator.finish
    show _ = ((f.coordinator.workshop.complete e.task).toOption.getD f.coordinator.workshop).running
    cases f.coordinator.workshop.complete e.task <;> dsimp only <;> split <;> rfl
  have task (i : Nat) : (f.coordinator.finish p e).task? i =
      ((f.workshop.complete e.task).toOption.getD f.workshop).task? i :=
    (Coordinator.task?_finish ..).trans (Workshop.task?_complete ..).symm
  rw [completionBy?, hp, Option.bind_some]
  cases ht : f.task? e.task with
  | none =>
      -- There is no such task, so nothing is completed.
      have same : f.workshop.complete e.task = .ok f.workshop := by
        have ht : f.workshop.task? e.task = none := ht
        exact Workshop.complete_of_none ht
      rw [same] at running task
      exact .of_quiet running fun i => congrArg (Option.bind · _) (task i)
  | some t =>
      refine ⟨running, fun i => congrArg (Option.bind · _) (task i), fun x hx => ?_⟩
      obtain rfl := Option.some.inj hx
      exact ⟨t, ht⟩

/-- Every deed makes one call at most. -/
theorem performs (hs : f.step d = some f') : Performs f (f.call? d) f' := by
  have quiet (hd : d.completes = false) (running : f'.running = f.running) :
      Performs f none f' := .of_quiet running fun i => completion?_step hs hd
  cases d with
  | submit i | remove i | complete i =>
      obtain ⟨t, ht, rfl⟩ := Option.map_eq_some_iff.mp hs
      exact .of_call rfl ht
  | saved p =>
      obtain ⟨⟨c, o⟩, h, rfl⟩ := Option.map_eq_some_iff.mp hs
      cases Coordinator.saved_move h with
      | report hp ht hr hu =>
          rw [call?, h]
          exact .of_quiet rfl fun _ => rfl
      | pass hp ht hr =>
          rw [call?, h]
          exact performs_finish (Coordinator.hand?_of_processor hp)
  | reported p =>
      obtain ⟨⟨c, o⟩, h, rfl⟩ := Option.map_eq_some_iff.mp hs
      cases Coordinator.reported_move h with
      | reported hp => exact performs_finish (Coordinator.hand?_of_processor hp)
  | create | spawn | enqueue | bring =>
      obtain rfl := Option.some.inj hs
      exact quiet rfl rfl
  | update i now s =>
      obtain ⟨_, -, rfl⟩ := Option.map_eq_some_iff.mp hs
      exact quiet rfl (Workshop.running_update ..)
  | fail i e =>
      obtain ⟨_, -, rfl⟩ := Option.map_eq_some_iff.mp hs
      exact quiet rfl (Workshop.running_fail ..)
  | setDetails | setRepository =>
      obtain ⟨_, -, rfl⟩ := Option.map_eq_some_iff.mp hs
      exact quiet rfl rfl
  | tryTake =>
      refine quiet rfl ?_
      simp only [step, Option.bind_eq_bind, Option.bind_eq_some_iff, Option.some.injEq] at hs
      obtain ⟨_, -, rfl⟩ := hs
      rfl
  | process k now id =>
      refine quiet rfl ?_
      simp only [step, Option.bind_eq_bind, Option.bind_eq_some_iff, Option.some.injEq] at hs
      obtain ⟨e, -, ⟨c, o⟩, h, rfl⟩ := hs
      exact (congrArg Workshop.running (Coordinator.workshop_accept h)).trans
        (Coordinator.Workshop.running_settle ..)
  | stop p =>
      refine quiet rfl ?_
      obtain rfl := Option.some.inj hs
      show (f.coordinator.stop p).workshop.running = _
      unfold Coordinator.stop
      split <;> rfl
  | take now id =>
      refine quiet rfl ?_
      obtain ⟨⟨c, o⟩, h, rfl⟩ := Option.map_eq_some_iff.mp hs
      cases Coordinator.take_move h with
      | @take p e => exact Coordinator.Workshop.running_settle f.workshop e now

/-- What the turns of a deed do: an identity that is free is taken, or one is freed by the task that
has it. -/
inductive Turning (f f' : Floor) : List Call → Prop
  | stay (running : f'.running = f.running) : Turning f f' []
  | enter {i : Nat} {t : Task} (ht : f.task? i = some t) (free : f.running.get? t.identity = none)
      (running : f'.running = (f.running.enter t.identity i).signal) : Turning f f' [.submit i]
  | leave {c : Call} {t : Task} (hc : c = .remove c.task ∨ c = .complete c.task) (ht : f.task? c.task = some t)
      (own : f.running.get? t.identity = some c.task)
      (running : f'.running = (f.running.leave t.identity).signal) : Turning f f' [c]

theorem turning (hs : f.step d = some f') : Turning f f' (f.turns d) := by
  have h := performs hs
  rw [turns, calls]
  cases hc : f.call? d with
  | none =>
      rw [hc] at h
      exact .stay h.running
  | some c =>
      rw [hc] at h
      obtain ⟨t, ht⟩ := h.task c rfl
      have running := h.running.trans (Workshop.running_perform ht)
      cases hturn : f.workshop.isTurn c with
      | false =>
          rw [hturn] at running
          simpa [hturn] using Turning.stay running
      | true =>
          rw [hturn] at running
          have before := Workshop.get?_of_isTurn ht hturn
          rw [Option.toList_some, List.filter_cons_of_pos hturn]
          cases c with
          | submit i => exact .enter ht (before.trans (if_pos rfl)) running
          | remove i => exact .leave (.inl rfl) ht before running
          | complete i => exact .leave (.inr rfl) ht before running

theorem Turning.signals (h : Turning f f' l) :
    f'.running.signals = f.running.signals + l.length := by
  cases h with
  | stay running | enter _ _ running | leave _ _ _ running => rw [running]; rfl

/-- How a deed changes which task has an identity in flight. -/
inductive Entry (f f' : Floor) : List Call → BuildIdentity → Prop
  | same {l id} (h : f'.running.get? id = f.running.get? id) : Entry f f' l id
  | taken {i : Nat} {t : Task} (ht : f.task? i = some t) (before : f.running.get? t.identity = none)
      (after : f'.running.get? t.identity = some i) : Entry f f' [.submit i] t.identity
  | freed {c : Call} {t : Task} (hc : c = .remove c.task ∨ c = .complete c.task)
      (ht : f.task? c.task = some t) (before : f.running.get? t.identity = some c.task)
      (after : f'.running.get? t.identity = none) : Entry f f' [c] t.identity

theorem Turning.entry (h : Turning f f' l) (id : BuildIdentity) : Entry f f' l id := by
  cases h with
  | stay running => exact .same (congrArg (·.get? id) running)
  | enter ht free running =>
      have now := (congrArg (·.get? id) running).trans (Coordinator.get?_enter ..)
      split at now
      next hid =>
        subst hid
        exact .taken ht free now
      next => exact .same now
  | leave hc ht own running =>
      have now := (congrArg (·.get? id) running).trans (Coordinator.get?_leave ..)
      split at now
      next hid =>
        subst hid
        exact .freed hc ht own now
      next => exact .same now

/-- The running set is another one after a turn. -/
theorem Turning.members (h : Turning f f' l) :
    f'.running.members = f.running.members ↔ l = [] := by
  have differ {id} (h : f'.running.get? id ≠ f.running.get? id) :
      f'.running.members ≠ f.running.members := fun same =>
    h (congrArg (Table.get? · id) same)
  cases h with
  | stay running => simp [running]
  | @enter i t ht free running =>
      have now := (congrArg (·.get? t.identity) running).trans (Coordinator.get?_enter ..)
      rw [if_pos rfl] at now
      exact iff_of_false (differ (by rw [now, free]; simp)) (by simp)
  | @leave c t hc ht own running =>
      have now := (congrArg (·.get? t.identity) running).trans (Coordinator.get?_leave ..)
      rw [if_pos rfl] at now
      exact iff_of_false (differ (by rw [now, own]; simp)) (by simp)

/-- Those in flight are there under their own identities. -/
def Enrolled (f : Floor) : Prop :=
  ∀ id i, f.running.get? id = some i → ∃ t, f.task? i = some t ∧ t.identity = id

theorem Enrolled.step (h : f.Enrolled) (hs : f.step d = some f') : f'.Enrolled := by
  intro id i hi
  have there : ∃ t, f.task? i = some t ∧ t.identity = id := by
    have turning := turning hs
    generalize f.turns d = l at turning
    cases turning with
    | stay running => exact h id i (running ▸ hi)
    | @enter k t ht free running =>
        rw [running, Coordinator.get?_enter] at hi
        split at hi
        next hid => exact ⟨t, Option.some.inj hi ▸ ht, hid⟩
        next => exact h id i hi
    | leave hc ht own running =>
        rw [running, Coordinator.get?_leave] at hi
        split at hi
        next => simp at hi
        next => exact h id i hi
  obtain ⟨t, ht, rfl⟩ := there
  obtain ⟨t', ht', on⟩ := (onward_step hs).tasks i t ht
  exact ⟨t', ht', congrArg BuildJob.identity on.job⟩

theorem enrolled_of_run {reports : Bool} {ds : List Deed} (run : Run step (.empty reports) ds f) :
    f.Enrolled :=
  run.invariant (fun _ _ h => nomatch h) fun _ _ _ h hs => h.step hs

/-- A task that is removed is in flight under no identity. -/
theorem Enrolled.absent (h : f.Enrolled) (ht : f.task? i = some t) (id : BuildIdentity) :
    (f.workshop.remove i).running.get? id ≠ some i := by
  intro hi
  have own {id} (hi : f.running.get? id = some i) : t.identity = id := by
    obtain ⟨t', ht', hid⟩ := h id i hi
    obtain rfl := Option.some.inj (ht.symm.trans ht')
    exact hid
  have hin := Workshop.isInFlight_of_task ht
  rw [Workshop.remove_of_task ht] at hi
  split at hi
  next =>
    rw [Coordinator.get?_leave] at hi
    split at hi
    next => simp at hi
    next hne => exact hne (own hi)
  next out =>
    obtain rfl := own hi
    exact out (hin.mpr hi)

/-- A result is handed out where a task is completed that has handed out none before. -/
theorem completion?_call (hs : f.step d = some f') (i : Nat) :
    f'.completion? i = if f.call? d = some (.complete i) then
      (f.task? i).bind fun t => t.concluded.completion else f.completion? i := by
  have h := performs hs
  rw [h.completion]
  cases hc : f.call? d with
  | none => rfl
  | some c =>
      cases c with
      | submit k =>
          show (f.attempt (f.workshop.submit k)).completion? i = _
          rw [completion?_submit, if_neg (by simp)]
      | remove k =>
          rw [if_neg (by simp)]
          exact congrArg (Option.bind · _) (Workshop.task?_remove ..)
      | complete k =>
          show Option.bind (((f.workshop.complete k).toOption.getD f.workshop).task? i) _ = _
          rw [Workshop.task?_complete]
          by_cases hk : k = i
          · subst hk
            rw [if_pos rfl, if_pos rfl, Option.bind_map]
            rfl
          · rw [if_neg hk, if_neg (by simpa using hk)]
            rfl

theorem completion?_last (hs : f.step d = some f') {r : BuildResult}
    (h : f.completion? i = some r) : f'.completion? i = some r := by
  obtain ⟨t, ht, hr⟩ := Option.bind_eq_some_iff.mp h
  rw [completion?_call hs]
  split
  next => rw [ht, Option.bind_some, Task.completion_concluded, hr]; rfl
  next => exact h

theorem completion?_eq_none_step (hs : f.step d = some f') :
    f'.completion? i = none ↔ f.completion? i = none ∧ .complete i ∉ f.calls d := by
  rw [completion?_call hs, calls, Option.mem_toList]
  split
  next h =>
    obtain ⟨t, ht⟩ := (performs hs).task _ h
    have ht : f.task? i = some t := ht
    simp [ht, Task.completion_concluded, h]
  next h => simp [h]

theorem completion?_eq_none_of_run {reports : Bool} {ds : List Deed}
    (run : Run step (.empty reports) ds f) :
    f.completion? i = none ↔ .complete i ∉ notes step calls (.empty reports) ds := by
  induction run with
  | nil => exact iff_of_true rfl (by simp [notes])
  | snoc before last ih =>
      rw [completion?_eq_none_step last, ih, notes_snoc _ before last, List.mem_append, not_or]

/-! ### Handing results out -/

/-- What has been handed out: one result of each task that was completed, when the task was not in flight
any more. -/
structure Sent (f : Floor) (l : List Workshop.Sending) : Prop where
  once : (l.map (·.task)).Nodup
  received : ∀ i r, f.completion? i = some r ↔ ∃ x ∈ l, x.task = i ∧ x.result = r
  absent : ∀ x ∈ l, ∀ id, x.running.get? id ≠ some x.task

theorem sent_empty (reports : Bool) : (empty reports).Sent [] where
  once := List.nodup_nil
  received i r := by
    rw [show (empty reports).completion? i = none from rfl]
    simp
  absent _ h := by cases h

/-- Whether the deed hands a result out: it does if it is the first one to complete a task. -/
theorem sendings_cases (hs : f.step d = some f') :
    f.sendings d = [] ∧ (∀ i, f'.completion? i = f.completion? i) ∨
    ∃ i t, f.task? i = some t ∧ t.completion = none ∧
      f.sendings d = [⟨i, t.result, (f.workshop.remove i).running⟩] ∧
      ∀ k, f'.completion? k = if k = i then some t.result else f.completion? k := by
  have quiet (other : ∀ i, f.call? d ≠ some (.complete i)) :
      f.sendings d = [] ∧ ∀ i, f'.completion? i = f.completion? i := by
    refine ⟨?_, fun i => by rw [completion?_call hs, if_neg (other i)]⟩
    unfold sendings
    split
    next i hc => exact absurd hc (other i)
    next => rfl
  cases hc : f.call? d with
  | none => exact .inl (quiet (by simp [hc]))
  | some c =>
      cases c with
      | submit k | remove k => exact .inl (quiet (by simp [hc]))
      | complete i =>
          obtain ⟨t, ht⟩ := (performs hs).task _ hc
          have ht : f.task? i = some t := ht
          have here (k : Nat) : f'.completion? k =
              if k = i then t.concluded.completion else f.completion? k := by
            rw [completion?_call hs, hc]
            by_cases hk : k = i
            · subst hk
              simp [ht]
            · simp [hk, Ne.symm hk]
          have sent : f.sendings d =
              if t.isCompleted then [] else [⟨i, t.result, (f.workshop.remove i).running⟩] := by
            rw [sendings, hc]
            exact Workshop.sendings_of_task ht
          cases first : t.completion with
          | none =>
              rw [if_neg (by simp [Task.isCompleted, first])] at sent
              refine .inr ⟨i, t, ht, first, sent, fun k => ?_⟩
              rw [here, Task.completion_concluded, first, Option.getD_none]
          | some r =>
              rw [if_pos (by simp [Task.isCompleted, first])] at sent
              refine .inl ⟨sent, fun k => ?_⟩
              rw [here, Task.completion_concluded, first, Option.getD_some]
              split
              next hk =>
                subst hk
                rw [completion?_of_task ht, first]
              next => rfl

theorem Sent.step {l : List Workshop.Sending} (h : f.Sent l) (enrolled : f.Enrolled)
    (hs : f.step d = some f') : f'.Sent (l ++ f.sendings d) := by
  rcases sendings_cases hs with ⟨none, same⟩ | ⟨i, t, ht, first, one, now⟩
  · rw [none, List.append_nil]
    exact ⟨h.once, fun i r => by rw [same]; exact h.received i r, h.absent⟩
  · have fresh : i ∉ l.map (·.task) := by
      intro hi
      obtain ⟨x, hx, rfl⟩ := List.mem_map.mp hi
      have before := (h.received _ _).mpr ⟨x, hx, rfl, rfl⟩
      rw [completion?_of_task ht, first] at before
      cases before
    rw [one]
    refine ⟨?_, fun k r => ?_, fun x hx => ?_⟩
    · rw [List.map_append]
      exact nodup_concat h.once fresh
    · rw [now]
      by_cases hk : k = i
      · subst hk
        have old : ¬∃ x ∈ l, x.task = k ∧ x.result = r := fun ⟨x, hx, hk, _⟩ =>
          fresh (List.mem_map.mpr ⟨x, hx, hk⟩)
        rw [if_pos rfl, Option.some_inj]
        simp only [List.mem_append, List.mem_singleton, or_and_right, exists_or, exists_eq_left,
          old, false_or, true_and]
      · rw [if_neg hk, h.received]
        simp only [List.mem_append, List.mem_singleton, or_and_right, exists_or, exists_eq_left,
          Ne.symm hk, false_and, or_false]
    · rcases List.mem_append.mp hx with hx | hx
      · exact h.absent x hx
      · obtain rfl := List.mem_singleton.mp hx
        exact enrolled.absent ht

theorem sent_of_run {reports : Bool} {ds : List Deed} (run : Run step (.empty reports) ds f) :
    f.Sent (notes step sendings (.empty reports) ds) := by
  induction run with
  | nil => exact sent_empty reports
  | snoc before last ih =>
      rw [notes_snoc _ before last]
      exact ih.step (enrolled_of_run before) last

/-! ### Signals -/

theorem signals_of_run {ds : List Deed} (run : Run step f ds f') :
    f'.running.signals = f.running.signals + (notes step turns f ds).length := by
  induction run with
  | nil => rfl
  | snoc before last ih =>
      rw [(turning last).signals, ih, notes_snoc _ before last, List.length_append, Nat.add_assoc]

/-- No signal was given, so nobody has come or gone. -/
theorem members_of_signals {ds : List Deed} (run : Run step f ds f')
    (quiet : f'.running.signals ≤ f.running.signals) :
    f'.running.members = f.running.members := by
  induction run with
  | nil => rfl
  | @snoc ds g f' d before last ih =>
      have signals := (turning last).signals
      have earlier := signals_of_run before
      have none : g.turns d = [] := List.eq_nil_of_length_eq_zero (by omega)
      rw [(turning last).members.mpr none, ih (by omega)]

/-- Signals are given exactly if the running set has become another one at some time. -/
theorem signals_eq_iff {ds : List Deed} (run : Run step f ds f') :
    f'.running.signals = f.running.signals ↔
      ∀ es g, es <+: ds → Run step f es g → g.running.members = f.running.members := by
  constructor
  · rintro quiet es g ⟨rest, rfl⟩ part
    obtain ⟨g', part', after⟩ := run.append_inv
    obtain rfl := part.unique part'
    exact members_of_signals part (quiet ▸ signals_of_run after ▸ Nat.le_add_right ..)
  · intro all
    induction run with
    | nil => rfl
    | snoc before last ih =>
        have earlier := ih fun es g hes part => all es g (hes.trans (List.prefix_append ..)) part
        have members := (all _ _ List.prefix_rfl (before.snoc last)).trans
          (all _ _ (List.prefix_append ..) before).symm
        rw [(turning last).signals, (turning last).members.mp members, earlier]
        rfl

/-- Whatever was done, a task is completed the first time that this is asked for, and never again. Then
its result is handed out, at a moment when the task is not in the running set, and nothing else ever
is. Identities are taken by accepted submissions while they are free and freed by their own tasks.
Results last, and there were as many signals as such turns, so somebody who looks again sees a signal
exactly if somebody has come or gone. -/
theorem completed_once {reports : Bool} {ds : List Deed} (run : Run step (.empty reports) ds f) :
    (∀ i t, f.task? i = some t →
      (.complete i ∉ notes step calls (.empty reports) ds →
        f.workshop.complete i = .ok ((f.workshop.remove i).handOut i t.result) ∧
          f.sendings (.complete i) = [⟨i, t.result, (f.workshop.remove i).running⟩] ∧
          ∀ id, (f.workshop.remove i).running.get? id ≠ some i) ∧
      (.complete i ∈ notes step calls (.empty reports) ds →
        t.completion.isSome = true ∧
          f.workshop.complete i = .error (.alreadyCompleted t.identity) ∧
          f.sendings (.complete i) = [] ∧ f.step (.complete i) = some f)) ∧
    f.Sent (notes step sendings (.empty reports) ds) ∧
    (∀ d f', f.step d = some f' → ∀ id, Entry f f' (f.turns d) id) ∧
    ∀ ds' f', Run step f ds' f' →
      (∀ i r, f.completion? i = some r → f'.completion? i = some r) ∧
      f'.running.generation =
        f.running.generation + UInt64.ofNat (notes step turns f ds').length ∧
      (f'.running.signals = f.running.signals ↔
        ∀ es g, es <+: ds' → Run step f es g → g.running.members = f.running.members) := by
  refine ⟨fun i t ht => ?_, sent_of_run run, fun d f' hs => (turning hs).entry,
    fun ds' f' run' => ⟨?_, ?_, ?_⟩⟩
  · have open' := completion?_eq_none_of_run (i := i) run
    rw [completion?_of_task ht] at open'
    have complete := Workshop.complete_of_task (w := f.workshop) ht
    have sent : f.sendings (.complete i) = _ := Workshop.sendings_of_task ht
    constructor
    · intro first
      have fresh : ¬t.isCompleted = true := by simp [Task.isCompleted, open'.mpr first]
      rw [if_neg fresh] at complete sent
      exact ⟨complete, sent, (enrolled_of_run run).absent ht⟩
    · intro again
      have ended : t.isCompleted = true := by
        rw [Task.isCompleted, Option.isSome_iff_ne_none]
        exact fun h => open'.mp h again
      rw [if_pos ended] at complete sent
      refine ⟨ended, complete, sent, ?_⟩
      rw [step, ht, complete]
      rfl
  · intro i r hr
    exact run'.invariant (I := fun f => f.completion? i = some r) hr
      fun _ _ _ h hs => completion?_last hs h
  · rw [RunningSet.generation, signals_of_run run', UInt64.ofNat_add]
    rfl
  · exact signals_eq_iff run'

def appBuild (now : Instant) : BuildJob :=
  ⟨⟨⟨1⟩, "app", "git", none, "make", .empty, []⟩, now, none⟩

/-- A build is completed, submitted anew as another task, and completed and removed again by those who
know the first one only. -/
def resubmission (now : Instant) : List Deed := [
  .create (appBuild now) now,
  .create (appBuild now) now,
  .submit 0,
  .submit 1,
  .complete 0,
  .submit 1,
  .complete 0,
  .remove 0]

theorem resubmission_runs :
    ((resubmission noon).foldlM step (.empty true)).isSome = true := by decide +kernel

theorem completed_once_resubmission :
    ∃ f, Run step (.empty true) (resubmission noon) f ∧
      f.running.get? ⟨⟨1⟩⟩ = some 1 ∧ f.running.generation = 3 ∧
      f.workshop.complete 0 = .error (.alreadyCompleted ⟨⟨1⟩⟩) ∧
      f.workshop.complete 1 = .ok ((f.workshop.remove 1).handOut 1
        ⟨⟨⟨1⟩⟩, "app", .initial, none, none⟩) ∧
      (notes step sendings (.empty true) (resubmission noon)).map (·.running.get? ⟨⟨1⟩⟩) =
        [none] ∧
      f.Sent (notes step sendings (.empty true) (resubmission noon)) := by
  have run := Run.iff_foldlM.mpr (Option.some_get resubmission_runs).symm
  obtain ⟨tasks, sent, -⟩ := completed_once run
  obtain ⟨-, again⟩ := tasks 0 (Task.new (appBuild noon) noon).concluded (by decide +kernel)
  obtain ⟨first, -⟩ := tasks 1 (.new (appBuild noon) noon) (by decide +kernel)
  obtain ⟨-, refused, -⟩ := again (by decide +kernel)
  obtain ⟨done, -⟩ := first (by decide +kernel)
  obtain ⟨-, -, -, later⟩ := completed_once (Run.nil (s := empty true))
  obtain ⟨-, generation, -⟩ := later _ _ run
  have members : (Option.get _ resubmission_runs).running.get? ⟨⟨1⟩⟩ = some 1 := by decide +kernel
  have alone : (notes step sendings (.empty true) (resubmission noon)).map
      (·.running.get? ⟨⟨1⟩⟩) = [none] := by decide +kernel
  exact ⟨_, run, members, by rw [generation]; decide +kernel, refused, done, alone, sent⟩

end Floor

end Foreman
