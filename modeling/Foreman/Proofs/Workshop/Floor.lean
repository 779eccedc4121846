import Foreman.Proofs.Coordinator.Ledger
import Foreman.Proofs.Run
import Foreman.Rehearsal.Bench

/-!
A workshop open to everybody. Anybody may change the tasks, make the next move of a processor, and
take entries past the line of the queue and have them processed, in any order. Each of these deeds
makes one of the changes listed here, most of which leave alone what a task publishes and what it
queues.
-/

namespace Foreman

structure Floor where
  coordinator : Coordinator
  /-- The entries that were taken past the line and are not processed yet. -/
  hands : List QueuedTask

namespace Floor

def empty (reports : Bool) : Floor := ⟨.empty reports, []⟩

def workshop (f : Floor) : Workshop := f.coordinator.workshop

def task? (f : Floor) (i : Nat) : Option Task := f.workshop.task? i

def entries (f : Floor) : List QueuedTask := f.workshop.queue.entries

/-- The entries that no processor has begun with. -/
def loose (f : Floor) : List QueuedTask := f.entries ++ f.hands

@[simp] theorem task?_empty (reports : Bool) (i : Nat) : (empty reports).task? i = none := rfl

@[simp] theorem loose_empty (reports : Bool) : (empty reports).loose = [] := rfl

def withCoordinator (f : Floor) (c : Coordinator) : Floor := { f with coordinator := c }

def withWorkshop (f : Floor) (w : Workshop) : Floor :=
  f.withCoordinator { f.coordinator with workshop := w }

/-- What is refused changes nothing. -/
def attempt (f : Floor) (r : Except Fault Workshop) : Floor :=
  f.withWorkshop (r.toOption.getD f.workshop)

inductive Deed where
  | create (j : BuildJob) (now : Instant)
  | submit (i : Nat)
  | remove (i : Nat)
  | update (i : Nat) (now : Instant) (s : TaskStatus)
  | fail (i : Nat) (e : DriverError)
  | complete (i : Nat)
  | setDetails (i : Nat) (d : BuildDetails)
  | setRepository (i : Nat) (r : RepositoryConfiguration)
  /-- Takes an entry past the line. -/
  | tryTake
  /-- Has an entry in the hands processed. -/
  | process (k : Nat) (now : Instant) (id : ResourceId)
  | spawn
  | stop (p : Nat)
  | take (now : Instant) (id : ResourceId)
  | saved (p : Nat)
  | reported (p : Nat)
  /-- Puts an entry in that its task has not made. -/
  | enqueue (e : QueuedTask)
  /-- Brings an entry that its task has not made. -/
  | bring (e : QueuedTask)

/-- Whether the deed brings in an entry that its task has not made. -/
def Deed.isForeign : Deed → Bool
  | .enqueue _ | .bring _ => true
  | _ => false

/-- Whether a processor does it. -/
def Deed.isProcessing : Deed → Bool
  | .process .. | .take .. | .saved _ | .reported _ => true
  | _ => false

/-- Whether the deed may give its task an outcome. -/
def Deed.decides : Deed → Bool
  | .update .. | .fail .. => true
  | _ => false

/-- One deed, if it is possible. -/
def step (f : Floor) : Deed → Option Floor
  | .create j now => some (f.withWorkshop (f.workshop.create (.new j now)))
  | .submit i => (f.task? i).map fun _ => f.attempt (f.workshop.submit i)
  | .remove i => (f.task? i).map fun _ => f.withWorkshop (f.workshop.remove i)
  | .update i now s => (f.task? i).map fun _ => f.attempt (f.workshop.update i now s)
  | .fail i e => (f.task? i).map fun _ => f.withWorkshop (f.workshop.fail i e)
  | .complete i => (f.task? i).map fun _ => f.attempt (f.workshop.complete i)
  | .setDetails i d => (f.task? i).map fun _ =>
    f.withWorkshop (f.workshop.change i fun t => { t with details := some d })
  | .setRepository i r => (f.task? i).map fun _ =>
    f.withWorkshop (f.workshop.change i fun t => { t with repository := some r })
  | .tryTake => do
    let (e, queue) ← f.workshop.queue.tryTake?
    some { f.withWorkshop { f.workshop with queue } with hands := f.hands ++ [e] }
  | .process k now id => do
    let e ← f.hands[k]?
    let (c, _) ← (Rehearsal.Bench.addProcessor f.coordinator).accept f.coordinator.processors.length
      e now id
    some ⟨c, f.hands.eraseIdx k⟩
  | .spawn => some (f.withCoordinator f.coordinator.spawn)
  | .stop p => some (f.withCoordinator (f.coordinator.stop p))
  | .take now id => (f.coordinator.take now id).map fun r => f.withCoordinator r.1
  | .saved p => (f.coordinator.saved p).map fun r => f.withCoordinator r.1
  | .reported p => (f.coordinator.reported p).map fun r => f.withCoordinator r.1
  | .enqueue e => some (f.withWorkshop (f.workshop.enqueue e.task (some e.outcome)))
  | .bring e => some { f with hands := f.hands ++ [e] }

end Floor

/-- What of a task only updates and failures change, and the settling of a failure. -/
def Task.face (t : Task) : TaskStatus × TaskStatus × List TaskStatus × Bool × Option DriverError :=
  (t.status, t.shown, t.published, t.enqueued, t.lastError)

namespace Workshop

/-- The faces of the tasks and the entries of the queue are the same. -/
structure Alike (w w' : Workshop) : Prop where
  faces : ∀ i, (w'.task? i).map Task.face = (w.task? i).map Task.face
  entries : w'.queue.entries = w.queue.entries

variable {w w' w'' : Workshop} {i : Nat}

theorem Alike.refl (w : Workshop) : w.Alike w := ⟨fun _ => rfl, rfl⟩

theorem Alike.trans (h : w.Alike w') (h' : w'.Alike w'') : w.Alike w'' :=
  ⟨fun i => (h'.faces i).trans (h.faces i), h'.entries.trans h.entries⟩

theorem task?_change (w : Workshop) (k i : Nat) (f : Task → Task) :
    (w.change k f).task? i = if k = i then (w.task? i).map f else w.task? i := by
  by_cases h : k = i <;> simp [change, task?, h]

theorem alike_change (w : Workshop) (k : Nat) {f : Task → Task} (hf : ∀ t, (f t).face = t.face) :
    w.Alike (w.change k f) := by
  refine ⟨fun i => ?_, rfl⟩
  rw [task?_change]
  split
  next =>
    rw [Option.map_map]
    exact congrArg (Option.map · _) (funext hf)
  next => rfl

theorem alike_submit (h : w.submit i = .ok w') : w.Alike w' := by
  unfold submit at h
  split at h
  next t ht =>
    cases hs : w.running.submit t.identity i with
    | error e => simp [hs, bind, Except.bind] at h
    | ok s =>
        obtain rfl : { w with running := s } = w' := by
          simpa [hs, bind, Except.bind, pure, Except.pure] using h
        exact ⟨fun _ => rfl, rfl⟩
  next =>
    obtain rfl : w = w' := by simpa using h
    exact .refl w

theorem alike_remove (w : Workshop) (i : Nat) : w.Alike (w.remove i) := by
  unfold remove
  split <;> exact ⟨fun _ => rfl, rfl⟩

theorem alike_handOut (w : Workshop) (i : Nat) (r : BuildResult) : w.Alike (w.handOut i r) :=
  alike_change w i fun _ => rfl

theorem alike_complete (h : w.complete i = .ok w') : w.Alike w' := by
  cases ht : w.task? i with
  | none =>
      obtain rfl := Except.ok.inj ((complete_of_none ht).symm.trans h)
      exact .refl w
  | some t =>
      rw [complete_of_task ht] at h
      split at h
      next => cases h
      next =>
        obtain rfl := Except.ok.inj h
        exact (alike_remove w i).trans (alike_handOut _ i _)

theorem alike_getD {r : Except Fault Workshop} (h : ∀ w', r = .ok w' → w.Alike w') :
    w.Alike (r.toOption.getD w) := by
  cases r with
  | ok w' => exact h w' rfl
  | error e => exact .refl w

end Workshop

namespace Coordinator

variable {c c' : Coordinator} {p : Nat} {now : Instant} {id : ResourceId} {o : Option Errand}

theorem workshop_finish (c : Coordinator) (p : Nat) (e : QueuedTask) :
    c.workshop.Alike (c.finish p e).workshop := by
  cases h : c.workshop.complete e.task with
  | ok w =>
      have completed := Workshop.alike_complete h
      simp only [finish, h]
      split <;> exact ⟨completed.faces, completed.entries⟩
  | error fault =>
      simp only [finish, h]
      split <;> exact ⟨fun _ => rfl, rfl⟩

theorem workshop_stop (c : Coordinator) (p : Nat) : c.workshop.Alike (c.stop p).workshop := by
  unfold Coordinator.stop
  split <;> exact ⟨fun _ => rfl, rfl⟩

theorem workshop_saved (h : c.saved p = some (c', o)) : c.workshop.Alike c'.workshop := by
  cases saved_move h with
  | report => exact .refl _
  | pass => exact workshop_finish ..

theorem workshop_reported (h : c.reported p = some (c', o)) : c.workshop.Alike c'.workshop := by
  cases reported_move h
  exact workshop_finish ..

theorem workshop_accept {e : QueuedTask} (h : c.accept p e now id = some (c', o)) :
    c'.workshop = c.workshop.settle e now := by
  simp only [accept, Option.bind_eq_bind, Option.bind_eq_some_iff, Option.some.injEq] at h
  obtain ⟨t, -, h⟩ := h
  rw [← (Prod.mk.inj h).1]
  rfl

end Coordinator

/-- What a task puts into the queue when it has an outcome. -/
def queued (i : Nat) (o : Option Outcome) : List QueuedTask := o.toList.map (⟨i, ·⟩)

namespace Workshop

variable (w : Workshop) (i k : Nat) (o : Option Outcome)

theorem queue_settle (e : QueuedTask) (now : Instant) : (w.settle e now).queue = w.queue := by
  unfold settle
  split <;> rfl

theorem task?_enqueue : (w.enqueue i o).task? k = w.task? k := by
  cases o <;> rfl

theorem entries_enqueue : (w.enqueue i o).queue.entries = w.queue.entries ++ queued i o := by
  cases o
  · simp [enqueue, queued]
  · rfl

theorem task?_replace {t : Task} (ht : w.task? i = some t) (t' : Task) :
    ((w.change i fun _ => t').enqueue i o).task? k = if i = k then some t' else w.task? k := by
  rw [task?_enqueue, task?_change]
  split
  next h =>
    subst h
    rw [ht]
    rfl
  next => rfl

end Workshop

namespace Floor

def face? (f : Floor) (i : Nat) :
    Option (TaskStatus × TaskStatus × List TaskStatus × Bool × Option DriverError) :=
  (f.task? i).map Task.face

/-- The changes that deeds make. -/
inductive Change (f : Floor) : Deed → Floor → Prop
  | create {j now f'} (tasks : f'.workshop.tasks = f.workshop.tasks ++ [.new j now])
      (entries : f'.entries = f.entries) (hands : f'.hands = f.hands) :
      Change f (.create j now) f'
  | update {i now s t t' o f'} (ht : f.task? i = some t) (hu : t.update now s = .ok (t', o))
      (task : ∀ k, f'.task? k = if i = k then some t' else f.task? k)
      (entries : f'.entries = f.entries ++ queued i o) (hands : f'.hands = f.hands) :
      Change f (.update i now s) f'
  | refuse {i now s t e} (ht : f.task? i = some t) (hu : t.update now s = .error e) :
      Change f (.update i now s) f
  | fail {i e t f'} (ht : f.task? i = some t)
      (task : ∀ k, f'.task? k = if i = k then some (t.fail e).1 else f.task? k)
      (entries : f'.entries = f.entries ++ queued i (t.fail e).2) (hands : f'.hands = f.hands) :
      Change f (.fail i e) f'
  | begin {d f'} (now : Instant) (hd : d.isProcessing = true)
      (task : ∀ i, f'.task? i = f.task? i ∨
        (∃ e ∈ f.loose, e.task = i) ∧ f'.task? i = (f.task? i).map (·.settle now))
      (loose : f'.loose ⊆ f.loose) (entries : f'.entries.length ≤ f.entries.length) :
      Change f d f'
  | quiet {d f'} (hd : d.decides = false)
      (face : ∀ i, f'.face? i = f.face? i) (loose : f'.loose ⊆ f.loose)
      (entries : f'.entries.length ≤ f.entries.length) : Change f d f'
  | foreign {d f'} (hd : d.isForeign = true) (tasks : f'.workshop.tasks = f.workshop.tasks) :
      Change f d f'

variable {f f' : Floor} {d : Deed} {i : Nat}

/-- Nothing has changed but what no task shows. -/
theorem Change.of_alike (hd : d.decides = false) (alike : f.workshop.Alike f'.workshop)
    (hands : f'.hands = f.hands) : Change f d f' := by
  have entries : f'.entries = f.entries := alike.entries
  refine .quiet hd alike.faces ?_ (Nat.le_of_eq (congrArg List.length entries))
  rw [loose, loose, entries, hands]
  exact List.Subset.refl _

theorem Change.attempt (hd : d.decides = false) {r : Except Fault Workshop}
    (h : ∀ w, r = .ok w → f.workshop.Alike w) : Change f d (f.attempt r) :=
  .of_alike hd (Workshop.alike_getD h) rfl

theorem update_change {now : Instant} {s : TaskStatus} {t : Task} (ht : f.task? i = some t) :
    Change f (.update i now s) (f.attempt (f.workshop.update i now s)) := by
  have ht' : f.workshop.task? i = some t := ht
  cases hu : t.update now s with
  | error e =>
      have refused : f.workshop.update i now s = .error e := by
        simp [Workshop.update, ht', hu, bind, Except.bind]
      rw [refused]
      exact .refuse ht hu
  | ok r =>
      obtain ⟨t', o⟩ := r
      have updated : f.workshop.update i now s =
          .ok ((f.workshop.change i fun _ => t').enqueue i o) := by
        simp [Workshop.update, ht', hu, bind, Except.bind, pure, Except.pure]
      rw [updated]
      exact .update ht hu (fun k => Workshop.task?_replace _ i k o ht' t')
        (Workshop.entries_enqueue ..) rfl

theorem fail_change {e : DriverError} {t : Task} (ht : f.task? i = some t) :
    Change f (.fail i e) (f.withWorkshop (f.workshop.fail i e)) := by
  have ht' : f.workshop.task? i = some t := ht
  have failed : f.workshop.fail i e =
      (f.workshop.change i fun _ => (t.fail e).1).enqueue i (t.fail e).2 := by
    simp [Workshop.fail, ht']
  rw [failed]
  exact .fail ht (fun k => Workshop.task?_replace _ i k _ ht' _) (Workshop.entries_enqueue ..) rfl

theorem tryTake_change (h : f.step .tryTake = some f') : Change f .tryTake f' := by
  simp only [step, TaskQueue.tryTake?, Option.bind_eq_bind, Option.bind_eq_some_iff,
    Option.some.injEq] at h
  obtain ⟨⟨e, queue⟩, hq, rfl⟩ := h
  split at hq
  next a entries _ he =>
    obtain ⟨rfl, rfl⟩ := Prod.mk.inj (Option.some.inj hq)
    have hf : f.entries = a :: entries := he
    refine .quiet rfl (fun _ => rfl) (fun x hx => ?_) ?_
    · -- The entry goes over from the queue into the hands.
      have hx : x ∈ entries ++ (f.hands ++ [a]) := hx
      rw [loose, hf]
      simp only [List.mem_append, List.mem_cons, List.not_mem_nil, or_false] at hx ⊢
      rcases hx with hx | hx | rfl
      · exact .inl (.inr hx)
      · exact .inr hx
      · exact .inl (.inl rfl)
    · rw [hf]
      exact Nat.le_succ _
  next => simp at hq

theorem take_change {now : Instant} {id : ResourceId} (h : f.step (.take now id) = some f') :
    Change f (.take now id) f' := by
  simp only [step, Option.map_eq_some_iff] at h
  obtain ⟨⟨c', o⟩, h, rfl⟩ := h
  cases Coordinator.take_move h with
  | @take p e _ _ takers entries t hk he ht =>
      have hf : f.entries = e :: entries := he
      refine .begin now rfl (fun i => ?_) (fun x hx => ?_) ?_
      · refine (Coordinator.task?_settle_cases f.workshop e now i).imp_right fun hi => ?_
        exact ⟨⟨e, by simp [loose, hf], hi.1⟩, hi.2⟩
      · rw [loose, hf]
        exact List.mem_cons_of_mem _ hx
      · rw [hf]
        exact Nat.le_succ _

theorem process_change {k : Nat} {now : Instant} {id : ResourceId}
    (h : f.step (.process k now id) = some f') : Change f (.process k now id) f' := by
  simp only [step, Option.bind_eq_bind, Option.bind_eq_some_iff, Option.some.injEq] at h
  obtain ⟨e, he, ⟨c', o⟩, h, rfl⟩ := h
  have hw := Coordinator.workshop_accept h
  have hloose : e ∈ f.loose := List.mem_append_right _ (List.mem_of_getElem? he)
  have entries : (⟨c', f.hands.eraseIdx k⟩ : Floor).entries = f.entries := by
    rw [Floor.entries, workshop, hw, Workshop.queue_settle]
    rfl
  refine .begin now rfl (fun i => ?_) (fun x hx => ?_) (Nat.le_of_eq (congrArg List.length entries))
  · rw [task?, workshop, hw]
    exact (Coordinator.task?_settle_cases f.workshop e now i).imp_right fun hi =>
      ⟨⟨e, hloose, hi.1⟩, hi.2⟩
  · rw [loose, entries, List.mem_append] at hx
    exact List.mem_append.mpr (hx.imp_right fun hx => List.mem_of_mem_eraseIdx hx)

/-- Every deed makes one of the changes. -/
theorem step_change (h : f.step d = some f') : Change f d f' := by
  cases d with
  | create j now =>
      obtain rfl := Option.some.inj h
      exact .create rfl rfl rfl
  | submit i =>
      obtain ⟨_, -, rfl⟩ := Option.map_eq_some_iff.mp h
      exact .attempt rfl fun _ => Workshop.alike_submit
  | remove i =>
      obtain ⟨_, -, rfl⟩ := Option.map_eq_some_iff.mp h
      exact .of_alike rfl (Workshop.alike_remove ..) rfl
  | update i now s =>
      obtain ⟨t, ht, rfl⟩ := Option.map_eq_some_iff.mp h
      exact update_change ht
  | fail i e =>
      obtain ⟨t, ht, rfl⟩ := Option.map_eq_some_iff.mp h
      exact fail_change ht
  | complete i =>
      obtain ⟨_, -, rfl⟩ := Option.map_eq_some_iff.mp h
      exact .attempt rfl fun _ => Workshop.alike_complete
  | setDetails i d =>
      obtain ⟨_, -, rfl⟩ := Option.map_eq_some_iff.mp h
      exact .of_alike rfl (Workshop.alike_change _ _ fun _ => rfl) rfl
  | setRepository i r =>
      obtain ⟨_, -, rfl⟩ := Option.map_eq_some_iff.mp h
      exact .of_alike rfl (Workshop.alike_change _ _ fun _ => rfl) rfl
  | tryTake => exact tryTake_change h
  | process k now id => exact process_change h
  | spawn =>
      obtain rfl := Option.some.inj h
      exact .of_alike rfl ⟨fun _ => rfl, rfl⟩ rfl
  | stop p =>
      obtain rfl := Option.some.inj h
      exact .of_alike rfl (Coordinator.workshop_stop ..) rfl
  | take now id => exact take_change h
  | saved p =>
      obtain ⟨_, hs, rfl⟩ := Option.map_eq_some_iff.mp h
      exact .of_alike rfl (Coordinator.workshop_saved hs) rfl
  | reported p =>
      obtain ⟨_, hs, rfl⟩ := Option.map_eq_some_iff.mp h
      exact .of_alike rfl (Coordinator.workshop_reported hs) rfl
  | enqueue e =>
      obtain rfl := Option.some.inj h
      exact .foreign rfl rfl
  | bring e =>
      obtain rfl := Option.some.inj h
      exact .foreign rfl rfl

end Floor

end Foreman
