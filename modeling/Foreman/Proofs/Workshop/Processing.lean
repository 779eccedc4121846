import Foreman.Proofs.Coordinator.PostProcessing
import Foreman.Proofs.Workshop.Enqueueing
import Foreman.Proofs.Workshop.Progress

/-!
The processing of a task on the open floor: a processor begins with an entry of it and saves its
record, reports its result if that is due, and completes it. These are the words that are told of the
task, and each deed that does not interfere tells one of them at most.
-/

namespace Foreman

namespace Task

variable {t t' : Task}

theorem completion_update {now : Instant} {s : TaskStatus} {o : Option Outcome}
    (h : t.update now s = .ok (t', o)) : t'.completion = t.completion := by
  unfold Task.update at h
  split at h
  next =>
    dsimp only at h
    split at h <;> rw [← (Prod.mk.inj (Except.ok.inj h)).1] <;> rfl
  next => simp at h

/-- The task with its result handed out, unless that was done before. -/
def concluded (t : Task) : Task :=
  if t.isCompleted then t else { t with completion := some t.result }

theorem completion_concluded (t : Task) :
    t.concluded.completion = some (t.completion.getD t.result) := by
  cases h : t.completion <;> simp [concluded, isCompleted, h]

end Task

namespace Workshop

variable {w w' : Workshop} {k i : Nat}

theorem task?_remove (w : Workshop) (k i : Nat) : (w.remove k).task? i = w.task? i := by
  unfold remove
  split <;> rfl

theorem task?_complete (w : Workshop) (k i : Nat) :
    ((w.complete k).toOption.getD w).task? i =
      if k = i then (w.task? i).map Task.concluded else w.task? i := by
  cases hk : w.task? k with
  | none =>
      rw [complete_of_none hk]
      show w.task? i = _
      split
      next h => rw [← h, hk]; rfl
      next => rfl
  | some t =>
      rw [complete_of_task hk]
      cases ht : t.isCompleted with
      | true =>
          show w.task? i = _
          split
          next h =>
            subst h
            rw [hk, Option.map_some, Task.concluded, if_pos ht]
          next => rfl
      | false =>
          show ((w.remove k).handOut k t.result).task? i = _
          rw [handOut, task?_change, task?_remove]
          split
          next h =>
            subst h
            simp [hk, Task.concluded, ht]
          next => rfl

theorem task?_settle_congr (h : w'.tasks = w.tasks) (e : QueuedTask) (now : Instant) (i : Nat) :
    (w'.settle e now).task? i = (w.settle e now).task? i := by
  unfold settle
  split <;> simp [task?, change, h]

end Workshop

namespace Coordinator

variable {c c' : Coordinator} {p : Nat} {e : QueuedTask} {now : Instant} {id : ResourceId}
  {o : Option Errand} {phase : ProcessorPhase} {b : Bool}

theorem task?_finish (c : Coordinator) (p : Nat) (e : QueuedTask) (i : Nat) :
    (c.finish p e).task? i =
      if e.task = i then (c.task? i).map Task.concluded else c.task? i := by
  rw [task?, task?, ← Workshop.task?_complete c.workshop e.task i]
  unfold finish
  cases c.workshop.complete e.task <;> dsimp only <;> split <;> rfl

theorem grip?_finish {i q : Nat} {phase' : ProcessorPhase} (hp : c.processors[p]? = some ⟨phase, b⟩)
    (h : (c.finish p e).grip? i q = some phase') : c.grip? i q = some phase' := by
  have processors : ∃ rest, (c.finish p e).processors = (c.withProcessor p rest).processors ∧
      rest.inHand? = none := by
    unfold finish
    cases c.workshop.complete e.task <;> dsimp only <;> split <;>
      first | exact ⟨.idle, rfl, rfl⟩ | exact ⟨.stopped, rfl, rfl⟩
  obtain ⟨rest, processors, hrest⟩ := processors
  rw [grip?_withProcessor hp processors] at h
  split at h
  next =>
    split at h
    next hc =>
      obtain ⟨e', he', -⟩ := carries_iff.mp hc
      simp [hrest] at he'
    next => simp at h
  next => exact h

theorem accept_eq (h : c.accept p e now id = some (c', o)) :
    ∃ t, c'.task? e.task = some t ∧
      c'.processors = (c.withProcessor p (.saving e (t.record id))).processors ∧
      o = some (.save p (t.record id)) := by
  simp only [accept, Option.bind_eq_bind, Option.bind_eq_some_iff, Option.some.injEq] at h
  obtain ⟨t, ht, h⟩ := h
  obtain ⟨rfl, rfl⟩ := Prod.mk.inj h
  exact ⟨t, ht, rfl, rfl⟩

end Coordinator

namespace Floor

/-- What is told of a task. -/
inductive Word where
  /-- The record that is saved. -/
  | record (r : BuildRecord)
  /-- The result that is reported. -/
  | report (url : String) (r : BuildResult)
  /-- The result with which the task is completed. -/
  | completion (r : BuildResult)

def Word.status : Word → TaskStatus
  | .record r => r.status
  | .report _ r => r.status
  | .completion r => r.status

variable (f : Floor) (i : Nat)

/-- What a processor asks for in a deed. -/
def errand? : Deed → Option Errand
  | .process k now id => do
    let e ← f.hands[k]?
    let (_, o) ← (Rehearsal.Bench.addProcessor f.coordinator).accept f.coordinator.processors.length
      e now id
    o
  | .take now id => (f.coordinator.take now id).bind (·.2)
  | .saved p => (f.coordinator.saved p).bind (·.2)
  | .reported p => (f.coordinator.reported p).bind (·.2)
  | _ => none

/-- What an errand tells of the task; the processor has it in hand then. -/
def wordsOf : Errand → List Word
  | .save p r => if (f.coordinator.hand? p).any (·.task = i) then [.record r] else []
  | .report p url r => if (f.coordinator.hand? p).any (·.task = i) then [.report url r] else []
  | _ => []

def completion? : Option BuildResult := (f.task? i).bind (·.completion)

/-- Where the result of the task is to be reported. -/
def url? : Option String := (f.task? i).bind (·.job.callbackUrl)

/-- The word that the result is if the task has it now and had none before. -/
def handedOut (f' : Floor) : List Word :=
  match f.completion? i, f'.completion? i with
  | none, some r => [.completion r]
  | _, _ => []

/-- Whether somebody other than the task and the processors has a hand in how it is processed. -/
def Deed.interferes (i : Nat) : Deed → Bool
  | .enqueue e | .bring e => e.task = i
  | .complete k => k = i
  | _ => false

/-- Whether the deed may complete a task. -/
def Deed.completes : Deed → Bool
  | .complete _ | .saved _ | .reported _ => true
  | _ => false

/-- What is told of the task in a deed. -/
def told (i : Nat) (f : Floor) (d : Deed) : List Word :=
  match f.step d with
  | some f' => (f.errand? d).toList.flatMap (f'.wordsOf i) ++ f.handedOut i f'
  | none => []

variable {f f' : Floor} {i : Nat} {d : Deed} {t : Task}

theorem completion?_of_task (ht : f.task? i = some t) : f.completion? i = t.completion := by
  rw [completion?, ht]
  rfl

theorem url?_of_task (ht : f.task? i = some t) : f.url? i = t.job.callbackUrl := by
  rw [url?, ht]
  rfl

theorem url?_step (hs : f.step d = some f') (ht : f.task? i = some t) : f'.url? i = f.url? i := by
  obtain ⟨t', ht', on⟩ := (onward_step hs).tasks i t ht
  rw [url?_of_task ht, url?_of_task ht', on.job]

theorem completion?_congr (h : f'.workshop.tasks = f.workshop.tasks) :
    f'.completion? i = f.completion? i := by
  rw [completion?, completion?, task?, task?, Workshop.task?, Workshop.task?, h]

theorem completion?_replace {k : Nat} {u : Task} (ht : f.task? k = some t)
    (task : ∀ i, f'.task? i = if k = i then some u else f.task? i)
    (hu : u.completion = t.completion) : f'.completion? i = f.completion? i := by
  rw [completion?, task]
  split
  next h =>
    subst h
    rw [completion?_of_task ht]
    exact hu
  next => rfl

theorem completion?_map {g : Task → Task} (h : f'.task? i = (f.task? i).map g)
    (hg : ∀ t, (g t).completion = t.completion) : f'.completion? i = f.completion? i := by
  rw [completion?, completion?, h, Option.bind_map]
  exact congrArg (Option.bind _) (funext hg)

theorem completion?_change (k : Nat) {g : Task → Task} (hg : ∀ t, (g t).completion = t.completion) :
    (f.withWorkshop (f.workshop.change k g)).completion? i = f.completion? i := by
  have task := Workshop.task?_change f.workshop k i g
  split at task
  next => exact completion?_map task hg
  next => exact congrArg (Option.bind · _) task

theorem completion?_submit (k : Nat) :
    (f.attempt (f.workshop.submit k)).completion? i = f.completion? i := by
  refine completion?_congr ?_
  show ((f.workshop.submit k).toOption.getD f.workshop).tasks = _
  unfold Workshop.submit
  split
  next t _ => cases f.workshop.running.submit t.identity k <;> rfl
  next => rfl

theorem completion?_append {j : BuildJob} {now : Instant}
    (tasks : f'.workshop.tasks = f.workshop.tasks ++ [.new j now]) :
    f'.completion? i = f.completion? i := by
  rw [completion?, completion?, task?, task?, Workshop.task?, Workshop.task?, tasks,
    List.getElem?_append]
  split
  next => rfl
  next h =>
    rw [List.getElem?_eq_none (Nat.not_lt.mp h), List.getElem?_singleton]
    split <;> rfl

theorem completion?_settle {e : QueuedTask} {now : Instant}
    (task : f'.task? i = (f.workshop.settle e now).task? i) : f'.completion? i = f.completion? i := by
  rcases Coordinator.task?_settle_cases f.workshop e now i with same | ⟨-, settled⟩
  · exact congrArg (Option.bind · _) (task.trans same)
  · exact completion?_map (task.trans settled) fun t => congrArg Prod.snd (t.kept_settle now)

/-- Only deeds that complete tasks do so. -/
theorem completion?_step (h : f.step d = some f') (hd : d.completes = false) :
    f'.completion? i = f.completion? i := by
  cases d with
  | create j now =>
      obtain rfl := Option.some.inj h
      exact completion?_append rfl
  | submit k =>
      obtain ⟨_, -, rfl⟩ := Option.map_eq_some_iff.mp h
      exact completion?_submit k
  | remove k =>
      obtain ⟨_, -, rfl⟩ := Option.map_eq_some_iff.mp h
      exact congrArg (Option.bind · _) (Workshop.task?_remove ..)
  | update k now s =>
      cases step_change h with
      | update ht hu task => exact completion?_replace ht task (Task.completion_update hu)
      | refuse => rfl
      | begin _ hp => simp [Deed.isProcessing] at hp
      | quiet hq => simp [Deed.decides] at hq
      | foreign hf => simp [Deed.isForeign] at hf
  | fail k e =>
      cases step_change h with
      | fail ht task => exact completion?_replace ht task rfl
      | begin _ hp => simp [Deed.isProcessing] at hp
      | quiet hq => simp [Deed.decides] at hq
      | foreign hf => simp [Deed.isForeign] at hf
  | setDetails k d =>
      obtain ⟨_, -, rfl⟩ := Option.map_eq_some_iff.mp h
      exact completion?_change k fun _ => rfl
  | setRepository k r =>
      obtain ⟨_, -, rfl⟩ := Option.map_eq_some_iff.mp h
      exact completion?_change k fun _ => rfl
  | tryTake =>
      simp only [step, Option.bind_eq_bind, Option.bind_eq_some_iff, Option.some.injEq] at h
      obtain ⟨_, -, rfl⟩ := h
      exact completion?_congr rfl
  | process k now id =>
      simp only [step, Option.bind_eq_bind, Option.bind_eq_some_iff, Option.some.injEq] at h
      obtain ⟨e, -, ⟨c, o⟩, h, rfl⟩ := h
      have hw := Coordinator.workshop_accept h
      exact completion?_settle (congrArg (Workshop.task? · i) hw)
  | spawn =>
      obtain rfl := Option.some.inj h
      exact completion?_congr rfl
  | stop p =>
      obtain rfl := Option.some.inj h
      refine completion?_congr ?_
      show (f.coordinator.stop p).workshop.tasks = _
      unfold Coordinator.stop
      split <;> rfl
  | take now id =>
      obtain ⟨⟨c, o⟩, hs, rfl⟩ := Option.map_eq_some_iff.mp h
      cases Coordinator.take_move hs
      exact completion?_settle rfl
  | enqueue e =>
      obtain rfl := Option.some.inj h
      exact completion?_congr rfl
  | bring e =>
      obtain rfl := Option.some.inj h
      exact completion?_congr rfl
  | complete k => simp [Deed.completes] at hd
  | saved p => simp [Deed.completes] at hd
  | reported p => simp [Deed.completes] at hd

/-- What a deed does in the processing of the task, and what is told of the task in it. -/
inductive Handling (i : Nat) (f f' : Floor) : List Word → Prop
  | apart (grips : ∀ q phase, f'.coordinator.grip? i q = some phase →
        f.coordinator.grip? i q = some phase)
      (completion : f'.completion? i = f.completion? i) : Handling i f f' []
  | accept {e t now id} (he : e ∈ f.loose) (hi : e.task = i) (ht : f'.task? i = some t)
      (settled : f'.task? i = (f.workshop.settle e now).task? i)
      (grips : ∀ q phase, f'.coordinator.grip? i q = some phase →
        (∃ r, phase = .saving e r) ∨ f.coordinator.grip? i q = some phase)
      (completion : f'.completion? i = f.completion? i) : Handling i f f' [.record (t.record id)]
  | report {p e r t url} (grip : f.coordinator.grip? i p = some (.saving e r))
      (ht : f.task? i = some t) (ht' : f'.task? i = some t) (hu : t.job.callbackUrl = some url)
      (grips : ∀ q phase, f'.coordinator.grip? i q = some phase →
        phase = .reporting e ∨ f.coordinator.grip? i q = some phase) :
      Handling i f f' [.report url t.result]
  | finish {p phase t} (grip : f.coordinator.grip? i p = some phase)
      (ht : f.task? i = some t) (ht' : f'.task? i = some t.concluded)
      (due : (∃ e, phase = .reporting e) ∨
        ¬(f.coordinator.reports = true ∧ t.job.callbackUrl.isSome = true))
      (grips : ∀ q phase, f'.coordinator.grip? i q = some phase →
        f.coordinator.grip? i q = some phase) :
      Handling i f f' (if t.isCompleted then [] else [.completion t.result])

theorem handedOut_eq_nil (h : f'.completion? i = f.completion? i) : f.handedOut i f' = [] := by
  rw [handedOut, h]
  cases f.completion? i <;> rfl

theorem told_eq (hs : f.step d = some f') :
    f.told i d = (f.errand? d).toList.flatMap (f'.wordsOf i) ++ f.handedOut i f' := by
  rw [told, hs]

/-- A deed in which no processor turns to another build. -/
theorem Handling.silent (hs : f.step d = some f') (asked : f.errand? d = none)
    (completion : f'.completion? i = f.completion? i) (alike : f.coordinator.Alike f'.coordinator) :
    Handling i f f' (f.told i d) := by
  rw [told_eq hs, asked, handedOut_eq_nil completion]
  exact .apart (fun p phase hp => by rwa [alike.grip] at hp) completion

section Processing

variable {c c' : Coordinator} {p : Nat} {e : QueuedTask} {now : Instant} {id : ResourceId}
  {o : Option Errand} {phase phase' : ProcessorPhase} {b : Bool}

theorem wordsOf_save (hp : c.processors[p]? = some ⟨phase, b⟩) (r : BuildRecord)
    (processors : f'.coordinator.processors = (c.withProcessor p phase').processors)
    (he : phase'.inHand? = some e) :
    f'.wordsOf i (.save p r) = if e.task = i then [.record r] else [] := by
  rw [wordsOf, Coordinator.hand?_withProcessor hp phase' processors, he]
  simp

theorem wordsOf_report (hp : c.processors[p]? = some ⟨phase, b⟩) (url : String) (r : BuildResult)
    (processors : f'.coordinator.processors = (c.withProcessor p phase').processors)
    (he : phase'.inHand? = some e) :
    f'.wordsOf i (.report p url r) = if e.task = i then [.report url r] else [] := by
  rw [wordsOf, Coordinator.hand?_withProcessor hp phase' processors, he]
  simp

/-- Only the processor that turns to another phase has another grip. -/
theorem grips_withProcessor (hp : c.processors[p]? = some ⟨phase, b⟩)
    (processors : c'.processors = (c.withProcessor p phase').processors) {q : Nat}
    {r : ProcessorPhase} (h : c'.grip? i q = some r) :
    (∃ e, phase'.inHand? = some e ∧ e.task = i) ∧ r = phase' ∨ c.grip? i q = some r := by
  rw [Coordinator.grip?_withProcessor hp processors] at h
  split at h
  next =>
    split at h
    next hc => exact .inl ⟨Coordinator.carries_iff.mp hc, (Option.some.inj h).symm⟩
    next => simp at h
  next => exact .inr h

theorem Handling.of_accept (hs : f.step d = some f') (asked : f.errand? d = o)
    (completion : f'.completion? i = f.completion? i) (he : e ∈ f.loose)
    (h : c.accept p e now id = some (f'.coordinator, o))
    (workshop : ∀ i, f'.task? i = (f.workshop.settle e now).task? i)
    (grips : ∀ q phase, c.grip? i q = some phase → f.coordinator.grip? i q = some phase) :
    Handling i f f' (f.told i d) := by
  obtain ⟨t, ht, processors, rfl⟩ := Coordinator.accept_eq h
  rw [told_eq hs, asked, handedOut_eq_nil completion]
  simp only [Option.toList_some, List.flatMap_cons, List.flatMap_nil, List.append_nil]
  cases hp : c.processors[p]? with
  | none =>
      -- There is no such processor, and the entry is lost.
      have same : f'.coordinator.processors = c.processors := by
        rw [processors]
        exact List.modify_eq_self (List.getElem?_eq_none_iff.mp hp)
      have hand : f'.coordinator.hand? p = none := by
        rw [Coordinator.hand?, same, hp]
        rfl
      have alike := Coordinator.alike_of_processors same
      rw [wordsOf, hand]
      exact .apart (fun q phase hq => grips q phase (by rwa [alike.grip] at hq)) completion
  | some r =>
      obtain ⟨phase, b⟩ := r
      rw [wordsOf_save hp _ processors rfl]
      split
      next hi =>
        subst hi
        refine .accept he rfl ht (workshop _) (fun q r hq => ?_) completion
        rcases grips_withProcessor hp processors hq with ⟨-, rfl⟩ | hq
        · exact .inl ⟨_, rfl⟩
        · exact .inr (grips q r hq)
      next hi =>
        refine .apart (fun q r hq => ?_) completion
        rcases grips_withProcessor hp processors hq with ⟨⟨e', he', hi'⟩, -⟩ | hq
        · obtain rfl := Option.some.inj he'
          exact absurd hi' hi
        · exact grips q r hq

theorem Handling.of_finish (hs : f.step d = some f') (asked : f.errand? d = none)
    (hp : f.coordinator.processors[p]? = some ⟨phase, b⟩) (he : phase.inHand? = some e)
    (coordinator : f'.coordinator = f.coordinator.finish p e)
    (due : (∃ e, phase = .reporting e) ∨ ∀ t, f.task? e.task = some t →
      ¬(f.coordinator.reports = true ∧ t.job.callbackUrl.isSome = true)) :
    Handling i f f' (f.told i d) := by
  have task := Coordinator.task?_finish f.coordinator p e i
  rw [← coordinator] at task
  have grips (q : Nat) (r : ProcessorPhase) (hq : f'.coordinator.grip? i q = some r) :
      f.coordinator.grip? i q = some r := by
    rw [coordinator] at hq
    exact Coordinator.grip?_finish hp hq
  rw [told_eq hs, asked]
  by_cases hi : e.task = i ∧ ∃ t, f.task? i = some t
  · obtain ⟨rfl, t, ht⟩ := hi
    rw [if_pos rfl, show f.coordinator.task? e.task = some t from ht] at task
    have hgrip : f.coordinator.grip? e.task p = some phase := by
      rw [Coordinator.grip?_of_processor hp, if_pos (Coordinator.carries_iff.mpr ⟨e, he, rfl⟩)]
    have handed : f.handedOut e.task f' = if t.isCompleted then [] else [.completion t.result] := by
      rw [handedOut, completion?_of_task ht, completion?_of_task task,
        Task.completion_concluded, Task.isCompleted]
      cases t.completion <;> rfl
    rw [handed]
    exact .finish hgrip ht task (due.imp_right fun due => due t ht) grips
  · have same : f'.task? i = f.task? i := by
      split at task
      next hi' =>
        have hn : f.coordinator.task? i = none :=
          Option.eq_none_iff_forall_ne_some.mpr fun t ht => hi ⟨hi', t, ht⟩
        rw [hn] at task
        exact task.trans hn.symm
      next => exact task
    have completion : f'.completion? i = f.completion? i := congrArg (Option.bind · _) same
    rw [handedOut_eq_nil completion]
    exact .apart grips completion

theorem Handling.of_saved (h : f.step (.saved p) = some f') :
    Handling i f f' (f.told i (.saved p)) := by
  obtain ⟨⟨c, o⟩, hs, rfl⟩ := Option.map_eq_some_iff.mp h
  have asked : f.errand? (.saved p) = o := by
    rw [errand?, hs]
    rfl
  cases Coordinator.saved_move hs with
  | @report _ e r b t url hp ht hr hu =>
      have completion :
          (f.withCoordinator (f.coordinator.withProcessor p (.reporting e))).completion? i =
            f.completion? i := rfl
      rw [told_eq h, asked, handedOut_eq_nil completion]
      simp only [Option.toList_some, List.flatMap_cons, List.flatMap_nil, List.append_nil]
      rw [wordsOf_report (c := f.coordinator) hp url _ rfl rfl]
      split
      next hi =>
        subst hi
        have hgrip : f.coordinator.grip? e.task p = some (.saving e r) := by
          rw [Coordinator.grip?_of_processor hp,
            if_pos (Coordinator.carries_iff.mpr ⟨e, rfl, rfl⟩)]
        refine .report hgrip ht ht hu fun q r hq => ?_
        exact (grips_withProcessor (c := f.coordinator) hp rfl hq).imp_left (·.2)
      next hi =>
        refine .apart (fun q r hq => ?_) completion
        rcases grips_withProcessor (c := f.coordinator) hp rfl hq with ⟨⟨e', he', hi'⟩, -⟩ | hq
        · obtain rfl := Option.some.inj he'
          exact absurd hi' hi
        · exact hq
  | @pass _ e _ _ t hp ht hr =>
      refine .of_finish h asked hp rfl rfl (.inr fun t' ht' => ?_)
      obtain rfl : t = t' := Option.some.inj (ht.symm.trans ht')
      exact hr

theorem Handling.of_reported (h : f.step (.reported p) = some f') :
    Handling i f f' (f.told i (.reported p)) := by
  obtain ⟨⟨c, o⟩, hs, rfl⟩ := Option.map_eq_some_iff.mp h
  have asked : f.errand? (.reported p) = o := by
    rw [errand?, hs]
    rfl
  cases Coordinator.reported_move hs with
  | reported hp => exact .of_finish h asked hp rfl rfl (.inl ⟨_, rfl⟩)

theorem Handling.of_process {k : Nat} (h : f.step (.process k now id) = some f') :
    Handling i f f' (f.told i (.process k now id)) := by
  have completion := completion?_step (i := i) h rfl
  have h' := h
  simp only [step, Option.bind_eq_bind, Option.bind_eq_some_iff, Option.some.injEq] at h'
  obtain ⟨e, he, ⟨c, o⟩, ha, rfl⟩ := h'
  have asked : f.errand? (.process k now id) = o := by
    simp [errand?, he, ha]
  have hw := Coordinator.workshop_accept ha
  refine .of_accept h asked completion (List.mem_append_right _ (List.mem_of_getElem? he)) ha
    (fun i => congrArg (Workshop.task? · i) hw) fun q phase hq => ?_
  -- The processor that was added has nothing in hand.
  obtain ⟨hc, b, hp⟩ := Coordinator.exists_of_grip hq
  rcases getElem?_concat_cases hp with hp | ⟨-, hr⟩
  · rw [Coordinator.grip?_of_processor hp, if_pos hc]
  · rw [(Processor.mk.inj hr).1] at hc
    simp [Coordinator.ProcessorPhase.carries] at hc

theorem Handling.of_take (h : f.step (.take now id) = some f') :
    Handling i f f' (f.told i (.take now id)) := by
  have completion := completion?_step (i := i) h rfl
  obtain ⟨⟨c, o⟩, hs, rfl⟩ := Option.map_eq_some_iff.mp h
  have asked : f.errand? (.take now id) = o := by
    rw [errand?, hs]
    rfl
  simp only [Coordinator.take, TaskQueue.take?, Option.bind_eq_bind, Option.bind_eq_some_iff,
    Option.map_eq_some_iff] at hs
  obtain ⟨_, ⟨⟨p, e, queue⟩, hq, rfl⟩, ha⟩ := hs
  dsimp only at ha
  have hw := Coordinator.workshop_accept ha
  have he : e ∈ f.entries := by
    unfold TaskQueue.handOut? at hq
    split at hq
    next hentries =>
      obtain ⟨-, rfl, -⟩ := Option.some.inj hq
      rw [entries, workshop, hentries]
      exact List.mem_cons_self
    next => simp at hq
  have settled (i : Nat) : c.workshop.task? i = (f.workshop.settle e now).task? i := by
    rw [hw]
    refine Workshop.task?_settle_congr ?_ e now i
    rfl
  exact .of_accept h asked completion (List.mem_append_left _ he) ha settled fun q phase hq => hq

end Processing

/-- Whatever is done that does not interfere with the processing of the task. -/
theorem handling (h : f.step d = some f') (own : d.interferes i = false) :
    Handling i f f' (f.told i d) := by
  have kept (hd : d.completes = false) : f'.completion? i = f.completion? i :=
    completion?_step h hd
  cases d with
  | process k now id => exact .of_process h
  | take now id => exact .of_take h
  | saved p => exact .of_saved h
  | reported p => exact .of_reported h
  | spawn =>
      obtain rfl := Option.some.inj h
      exact .silent h rfl (kept rfl) (Coordinator.alike_spawn _)
  | stop p =>
      obtain rfl := Option.some.inj h
      exact .silent h rfl (kept rfl) (Coordinator.alike_stop _ p)
  | complete k =>
      obtain ⟨_, -, rfl⟩ := Option.map_eq_some_iff.mp h
      have hk : k ≠ i := by simpa [Deed.interferes] using own
      have task := Workshop.task?_complete f.workshop k i
      rw [if_neg hk] at task
      exact .silent h rfl (congrArg (Option.bind · _) task) (Coordinator.alike_of_processors rfl)
  | create j now =>
      obtain rfl := Option.some.inj h
      exact .silent h rfl (kept rfl) (Coordinator.alike_of_processors rfl)
  | tryTake =>
      have h' := h
      simp only [step, Option.bind_eq_bind, Option.bind_eq_some_iff, Option.some.injEq] at h'
      obtain ⟨_, -, rfl⟩ := h'
      exact .silent h rfl (kept rfl) (Coordinator.alike_of_processors rfl)
  | enqueue e =>
      obtain rfl := Option.some.inj h
      exact .silent h rfl (kept rfl) (Coordinator.alike_of_processors rfl)
  | bring e =>
      obtain rfl := Option.some.inj h
      exact .silent h rfl (kept rfl) (Coordinator.alike_of_processors rfl)
  | submit | remove | update | fail | setDetails | setRepository =>
      obtain ⟨_, -, rfl⟩ := Option.map_eq_some_iff.mp h
      exact .silent h rfl (kept rfl) (Coordinator.alike_of_processors rfl)

end Floor

end Foreman
