import Foreman.Proofs.Workshop.History

/-!
The entries that tasks put into the queue. A task has its outcome from the first update that ends it
or the first failure of the driver, whichever comes first, and it puts in one entry then and none
later; nor does the settling of a failure put one in.
-/

namespace Foreman

namespace Task

variable {t t' : Task} {now : Instant} {s : TaskStatus} {o : Option Outcome}

theorem update_ok (h : t.update now s = .ok (t', o)) :
    t.status.isTerminal = false ∧ t'.status = s ∧ t'.lastError = t.lastError ∧
      t'.enqueued = (t.enqueued || s.isTerminal) ∧
      o = if s.isTerminal && !t.enqueued then some (.finished s) else none := by
  unfold Task.update at h
  split at h
  next hcan =>
    refine ⟨(State.canBecome_iff.mp hcan).1, ?_⟩
    dsimp only at h
    split at h
    next hs =>
      obtain ⟨rfl, rfl⟩ := Prod.mk.inj (Except.ok.inj h)
      rw [Bool.and_eq_true] at hs
      exact ⟨rfl, rfl, by simp [hs.1], by simp [hs.1, hs.2]⟩
    next hs =>
      obtain ⟨rfl, rfl⟩ := Prod.mk.inj (Except.ok.inj h)
      refine ⟨rfl, rfl, ?_, by rw [if_neg hs]⟩
      show t.enqueued = (t.enqueued || s.isTerminal)
      cases ht : s.isTerminal <;> simp_all
  next => simp at h

/-- Whether the task is over or has failed. -/
def isDecided (t : Task) : Bool := t.status.isTerminal || t.lastError.isSome

theorem isDecided_congr (h : t'.face = t.face) : t'.isDecided = t.isDecided := by
  simp only [face, Prod.mk.injEq] at h
  rw [isDecided, isDecided, h.1, h.2.2.2.2]

theorem isDecided_settle (t : Task) (now : Instant) : (t.settle now).isDecided = true := by
  rw [isDecided, isTerminal_settle, Bool.true_or]

end Task

namespace Floor

variable {f f' : Floor} {d : Deed} {i : Nat} {t : Task}

/-- What a deed puts into the queue. -/
def additions (f : Floor) (d : Deed) : List QueuedTask :=
  match f.step d with
  | some f' => f'.entries.drop f.entries.length
  | none => []

/-- What gives the task its outcome, if it has none yet: an update that ends it or a failure. -/
def causes (i : Nat) (f : Floor) : Deed → List Outcome
  | .update k now s =>
    if k = i ∧ s.isTerminal = true ∧ (f.workshop.update k now s).isOk = true then [.finished s]
    else []
  | .fail k e => if k = i then [.errored e] else []
  | _ => []

def isEnqueued (f : Floor) (i : Nat) : Bool := (f.task? i).any (·.enqueued)

/-- The outcomes among the entries of the task. -/
def outcomes (i : Nat) (l : List QueuedTask) : List Outcome :=
  (l.filter (·.task = i)).map (·.outcome)

theorem outcomes_append (i : Nat) (l l' : List QueuedTask) :
    outcomes i (l ++ l') = outcomes i l ++ outcomes i l' := by
  simp [outcomes]

theorem outcomes_queued (i k : Nat) (o : Option Outcome) :
    outcomes i (queued k o) = if k = i then o.toList else [] := by
  cases o with
  | none => simp [outcomes, queued]
  | some o => by_cases h : k = i <;> simp [outcomes, queued, h]

theorem additions_queued (hs : f.step d = some f') {k : Nat} {o : Option Outcome}
    (entries : f'.entries = f.entries ++ queued k o) : f.additions d = queued k o := by
  rw [additions, hs]
  simp [entries]

theorem additions_eq_nil (hs : f.step d = some f')
    (entries : f'.entries.length ≤ f.entries.length) : f.additions d = [] := by
  rw [additions, hs]
  simp [entries]

theorem causes_eq_nil (i : Nat) (f : Floor) (hd : d.decides = false) : f.causes i d = [] := by
  cases d <;> simp_all [Deed.decides, causes]

theorem isOk_update (ht : f.task? i = some t) (now : Instant) (s : TaskStatus) :
    (f.workshop.update i now s).isOk = (t.update now s).isOk := by
  have ht' : f.workshop.task? i = some t := ht
  cases hu : t.update now s <;>
    simp [Workshop.update, ht', hu, bind, Except.bind, pure, Except.pure, Except.isOk,
      Except.toBool]

theorem isEnqueued_replace {k : Nat} {u : Task}
    (task : ∀ i, f'.task? i = if k = i then some u else f.task? i) (i : Nat) :
    f'.isEnqueued i = if k = i then u.enqueued else f.isEnqueued i := by
  rw [isEnqueued, task]
  split <;> rfl

theorem isEnqueued_of_face (h : f'.face? i = f.face? i) : f'.isEnqueued i = f.isEnqueued i := by
  have hany (f : Floor) : f.isEnqueued i = (f.face? i).any (·.2.2.2.1) := by
    rw [isEnqueued, face?]
    cases f.task? i <;> rfl
  rw [hany, hany, h]

theorem isEnqueued_create {j : BuildJob} {now : Instant}
    (tasks : f'.workshop.tasks = f.workshop.tasks ++ [.new j now]) (i : Nat) :
    f'.isEnqueued i = f.isEnqueued i := by
  have hi : f'.task? i = (f.workshop.tasks ++ [.new j now])[i]? := by
    rw [← tasks]
    rfl
  have hf : f.task? i = f.workshop.tasks[i]? := rfl
  rw [isEnqueued, isEnqueued, hi, hf, List.getElem?_append]
  split
  next => rfl
  next h =>
    rw [List.getElem?_eq_none (Nat.not_lt.mp h), List.getElem?_singleton]
    split <;> rfl

/-- What a deed puts into the queue for a task, and whether it leaves the task queued. -/
structure Booking (f f' : Floor) (d : Deed) : Prop where
  outcomes : ∀ i, outcomes i (f.additions d) =
    if f.isEnqueued i then [] else (f.causes i d).head?.toList
  isEnqueued : ∀ i, f'.isEnqueued i = (f.isEnqueued i || !(f.causes i d).isEmpty)

theorem Booking.quiet (hs : f.step d = some f') (causes : ∀ i, f.causes i d = [])
    (entries : f'.entries.length ≤ f.entries.length)
    (same : ∀ i, f'.isEnqueued i = f.isEnqueued i) : Booking f f' d := by
  refine ⟨fun i => ?_, fun i => ?_⟩
  · rw [additions_eq_nil hs entries, causes]
    split <;> rfl
  · simp [causes, same]

/-- A deed that is about one task, for which it has the causes `l`. -/
theorem Booking.single (hs : f.step d = some f') {k : Nat} {u : Task} {o : Option Outcome}
    {l : List Outcome} (ht : f.task? k = some t)
    (task : ∀ i, f'.task? i = if k = i then some u else f.task? i)
    (entries : f'.entries = f.entries ++ queued k o)
    (causes : ∀ i, f.causes i d = if k = i then l else [])
    (outcome : o.toList = if t.enqueued then [] else l.head?.toList)
    (enqueued : u.enqueued = (t.enqueued || !l.isEmpty)) : Booking f f' d := by
  have before : f.isEnqueued k = t.enqueued := by
    rw [Floor.isEnqueued, ht]
    rfl
  refine ⟨fun i => ?_, fun i => ?_⟩
  · rw [additions_queued hs entries, outcomes_queued, causes]
    by_cases hk : k = i
    · subst hk
      rw [before, if_pos rfl, if_pos rfl, outcome]
    · rw [if_neg hk, if_neg hk]
      split <;> rfl
  · rw [isEnqueued_replace task, causes]
    by_cases hk : k = i
    · subst hk
      rw [before, if_pos rfl, if_pos rfl, enqueued]
    · simp [hk]

theorem Booking.update {k : Nat} {now : Instant} {s : TaskStatus}
    (hs : f.step (.update k now s) = some f') {t' : Task} {o : Option Outcome}
    (ht : f.task? k = some t) (hu : t.update now s = .ok (t', o))
    (task : ∀ i, f'.task? i = if k = i then some t' else f.task? i)
    (entries : f'.entries = f.entries ++ queued k o) : Booking f f' (.update k now s) := by
  obtain ⟨-, -, -, henqueued, ho⟩ := Task.update_ok hu
  have hok : (f.workshop.update k now s).isOk = true := by
    rw [isOk_update ht, hu]
    rfl
  refine .single hs ht task entries (l := if s.isTerminal then [.finished s] else [])
    (fun i => ?_) ?_ ?_
  · by_cases hk : k = i
    · subst hk
      simp [causes, hok]
    · simp [causes, hk]
  · rw [ho]
    cases s.isTerminal <;> cases t.enqueued <;> rfl
  · rw [henqueued]
    cases s.isTerminal <;> rfl

theorem Booking.refuse {k : Nat} {now : Instant} {s : TaskStatus}
    (hs : f.step (.update k now s) = some f) {e : Fault} (ht : f.task? k = some t)
    (hu : t.update now s = .error e) : Booking f f (.update k now s) := by
  have hok : (f.workshop.update k now s).isOk = false := by
    rw [isOk_update ht, hu]
    rfl
  exact .quiet hs (fun i => by simp [causes, hok]) (Nat.le_refl _) fun _ => rfl

theorem Booking.fail {k : Nat} {e : DriverError} (hs : f.step (.fail k e) = some f')
    (ht : f.task? k = some t)
    (task : ∀ i, f'.task? i = if k = i then some (t.fail e).1 else f.task? i)
    (entries : f'.entries = f.entries ++ queued k (t.fail e).2) : Booking f f' (.fail k e) := by
  refine .single hs ht task entries (l := [.errored e]) (fun i => rfl) ?_ ?_
  · rw [Task.fail]
    cases t.enqueued <;> rfl
  · simp [Task.fail]

theorem booking (hs : f.step d = some f') (own : d.isForeign = false) : Booking f f' d := by
  have unmoved (hd : d.decides = false) (entries : f'.entries.length ≤ f.entries.length)
      (same : ∀ i, f'.isEnqueued i = f.isEnqueued i) : Booking f f' d :=
    .quiet hs (fun i => causes_eq_nil i f hd) entries same
  cases step_change hs with
  | create tasks entries =>
      exact unmoved rfl (Nat.le_of_eq (congrArg List.length entries)) (isEnqueued_create tasks)
  | update ht hu task entries => exact .update hs ht hu task entries
  | refuse ht hu => exact .refuse hs ht hu
  | fail ht task entries => exact .fail hs ht task entries
  | begin now hd task _ entries =>
      have hd' : d.decides = false := by cases d <;> simp_all [Deed.isProcessing, Deed.decides]
      refine unmoved hd' entries fun i => ?_
      rcases task i with same | ⟨-, settled⟩
      · rw [isEnqueued, same, isEnqueued]
      · rw [isEnqueued, isEnqueued, settled]
        cases f.task? i with
        | none => rfl
        | some t => exact Task.enqueued_settle ..
  | quiet hd face _ entries => exact unmoved hd entries fun i => isEnqueued_of_face (face i)
  | foreign hd => simp [own] at hd

/-- The tasks that have been put into the queue are those that are decided, and only their entries
are still to be processed. -/
structure Tidy (f : Floor) : Prop where
  loose : ∀ e ∈ f.loose, f.isEnqueued e.task = true
  flag : ∀ i t, f.task? i = some t → t.enqueued = t.isDecided

theorem Booking.of_addition (h : Booking f f' d) {e : QueuedTask} (he : e ∈ f.additions d) :
    f'.isEnqueued e.task = true := by
  have hmem : e.outcome ∈ Floor.outcomes e.task (f.additions d) :=
    List.mem_map.mpr ⟨e, List.mem_filter.mpr ⟨he, by simp⟩, rfl⟩
  rw [h.outcomes] at hmem
  rw [h.isEnqueued]
  cases hf : f.isEnqueued e.task with
  | true => rfl
  | false =>
      rw [hf] at hmem
      cases hc : f.causes e.task d <;> simp_all

/-- Only what a deed puts into the queue is new. -/
theorem loose_step (hs : f.step d = some f') (own : d.isForeign = false) {e : QueuedTask}
    (he : e ∈ f'.loose) : e ∈ f.loose ∨ e ∈ f.additions d := by
  have appended {k : Nat} {o : Option Outcome} (entries : f'.entries = f.entries ++ queued k o)
      (hands : f'.hands = f.hands) : e ∈ f.loose ∨ e ∈ f.additions d := by
    rw [additions_queued hs entries]
    rw [loose, entries, hands, List.mem_append, List.mem_append] at he
    rw [loose, List.mem_append]
    grind
  cases step_change hs with
  | create _ entries hands =>
      rw [loose, entries, hands] at he
      exact .inl he
  | update _ _ _ entries hands => exact appended entries hands
  | refuse => exact .inl he
  | fail _ _ entries hands => exact appended entries hands
  | begin _ _ _ loose => exact .inl (loose he)
  | quiet _ _ loose => exact .inl (loose he)
  | foreign hd => simp [own] at hd

theorem Tidy.flag_change (h : f.Tidy) (hc : Change f d f') (own : d.isForeign = false)
    (ht : f'.task? i = some t) : t.enqueued = t.isDecided := by
  cases hc with
  | create tasks =>
      have ht : f'.workshop.tasks[i]? = some t := ht
      rw [tasks] at ht
      rcases getElem?_concat_cases ht with ht | ⟨-, rfl⟩
      · exact h.flag i t ht
      · rfl
  | @update k _ s t₀ _ _ _ ht₀ hu task =>
      rw [task] at ht
      split at ht
      next =>
        obtain rfl := Option.some.inj ht
        obtain ⟨hopen, hstatus, herror, henqueued, -⟩ := Task.update_ok hu
        rw [henqueued, h.flag k t₀ ht₀, Task.isDecided, Task.isDecided, hopen, hstatus, herror,
          Bool.false_or, Bool.or_comm]
      next => exact h.flag i t ht
  | refuse => exact h.flag i t ht
  | fail _ task =>
      rw [task] at ht
      split at ht
      next =>
        obtain rfl := Option.some.inj ht
        simp [Task.fail, Task.isDecided]
      next => exact h.flag i t ht
  | begin now _ task =>
      rcases task i with same | ⟨⟨e, he, rfl⟩, settled⟩
      · exact h.flag i t (same ▸ ht)
      · -- The task has been put into the queue, and settling it decides it.
        rw [settled] at ht
        obtain ⟨t₀, ht₀, rfl⟩ := Option.map_eq_some_iff.mp ht
        have henqueued : t₀.enqueued = true := by simpa [isEnqueued, ht₀] using h.loose e he
        rw [Task.enqueued_settle, henqueued]
        exact (Task.isDecided_settle t₀ now).symm
  | quiet _ face =>
      obtain ⟨t₀, ht₀, hface⟩ := exists_of_face (face i) ht
      have henqueued : t.enqueued = t₀.enqueued := congrArg (·.2.2.2.1) hface
      rw [henqueued, h.flag i t₀ ht₀, Task.isDecided_congr hface]
  | foreign hd => simp [own] at hd

theorem Tidy.step (h : f.Tidy) (hs : f.step d = some f') (own : d.isForeign = false) :
    f'.Tidy := by
  have hb := booking hs own
  refine ⟨fun e he => ?_, fun i t => h.flag_change (step_change hs) own⟩
  rcases loose_step hs own he with he | he
  · rw [hb.isEnqueued, h.loose e he]
    rfl
  · exact hb.of_addition he

theorem tidy_empty (reports : Bool) : (Floor.empty reports).Tidy := ⟨by simp, by simp⟩

/-- After a run without foreign entries, a task has put into the queue the first of the outcomes that
it was given, if it was given any. -/
theorem entries_of_run {reports : Bool} {ds : List Deed} (run : Run step (.empty reports) ds f)
    (own : ∀ d ∈ ds, d.isForeign = false) :
    f.Tidy ∧ ∀ i, outcomes i (notes step additions (.empty reports) ds) =
        (notes step (causes i) (.empty reports) ds).head?.toList ∧
      f.isEnqueued i = !(notes step (causes i) (.empty reports) ds).isEmpty := by
  induction run with
  | nil => exact ⟨tidy_empty reports, fun i => ⟨rfl, rfl⟩⟩
  | @snoc ds f f' d before last ih =>
      have own' : d.isForeign = false := own d (by simp)
      obtain ⟨tidy, ih⟩ := ih fun d hd => own d (List.mem_append_left _ hd)
      have hb := booking last own'
      refine ⟨tidy.step last own', fun i => ?_⟩
      obtain ⟨houtcomes, henqueued⟩ := ih i
      rw [notes_snoc additions before last, notes_snoc (causes i) before last, outcomes_append,
        houtcomes, hb.outcomes, hb.isEnqueued, henqueued]
      cases hn : notes step (causes i) (.empty reports) ds with
      | nil => cases f.causes i d <;> simp
      | cons o os => simp

/-- What is still to be processed has been put into the queue by its task. -/
theorem mem_additions_of_loose {reports : Bool} {ds : List Deed}
    (run : Run step (.empty reports) ds f) (own : ∀ d ∈ ds, d.isForeign = false) {e : QueuedTask}
    (he : e ∈ f.loose) : e ∈ notes step additions (.empty reports) ds := by
  induction run with
  | nil => simp at he
  | snoc before last ih =>
      rw [notes_snoc additions before last, List.mem_append]
      exact (loose_step last (own _ (by simp)) he).imp_left
        (ih fun d hd => own d (List.mem_append_left _ hd))

theorem additions_processing (f : Floor) (hd : d.isProcessing = true) : f.additions d = [] := by
  cases hs : f.step d with
  | none => rw [additions, hs]
  | some f' =>
      cases step_change hs with
      | begin _ _ _ _ entries => exact additions_eq_nil hs entries
      | quiet _ _ _ entries => exact additions_eq_nil hs entries
      | foreign hf => cases d <;> simp_all [Deed.isProcessing, Deed.isForeign]
      | _ => simp [Deed.isProcessing] at hd

/-- After any deeds that bring in no entry which its task has not made, a task has put one entry into
the queue if it is over or has failed and none otherwise. The entry holds the first outcome that the
task was given, an update that ended it or a failure; no entry comes from anywhere else, and
processors put none in. -/
theorem enqueued_once {reports : Bool} {ds : List Deed} (run : Run step (.empty reports) ds f)
    (own : ∀ d ∈ ds, d.isForeign = false) (ht : f.task? i = some t) :
    (outcomes i (notes step additions (.empty reports) ds)).length =
        (if t.status.isTerminal || t.lastError.isSome then 1 else 0) ∧
      outcomes i (notes step additions (.empty reports) ds) =
        (notes step (causes i) (.empty reports) ds).head?.toList ∧
      (∀ e ∈ f.loose, e ∈ notes step additions (.empty reports) ds) ∧
      ∀ d, d.isProcessing = true → f.additions d = [] := by
  obtain ⟨tidy, booked⟩ := entries_of_run run own
  obtain ⟨houtcomes, henqueued⟩ := booked i
  refine ⟨?_, houtcomes, fun e => mem_additions_of_loose run own,
    fun d => additions_processing f⟩
  have decided : t.isDecided = !(notes step (causes i) (.empty reports) ds).isEmpty := by
    rw [← tidy.flag i t ht, ← henqueued, isEnqueued, ht]
    rfl
  rw [← Task.isDecided, decided, houtcomes]
  cases notes step (causes i) (.empty reports) ds <;> rfl

theorem enqueued_once_mishap :
    ∃ f t, Run step (.empty false) (mishap noon) f ∧ f.task? 0 = some t ∧
      t.status = ⟨.collectResults, .systemError⟩ ∧
      outcomes 0 (notes step additions (.empty false) (mishap noon)) = [.errored ⟨"lost"⟩] ∧
      f.additions (.take noon ⟨31⟩) = [] := by
  have run := Run.iff_foldlM.mpr (Option.some_get mishap_runs).symm
  have own : ∀ d ∈ mishap noon, d.isForeign = false := by simp [mishap, Deed.isForeign]
  obtain ⟨t, ht, hp⟩ := Option.map_eq_some_iff.mp published_mishap
  have first : (notes step (causes 0) (.empty false) (mishap noon)).head?.toList =
      [.errored ⟨"lost"⟩] := by decide +kernel
  obtain ⟨-, houtcomes, -, processing⟩ := enqueued_once run own ht
  have hs : t.status = ⟨.collectResults, .systemError⟩ := by
    rw [(lawful_of_run run 0 t ht).last, hp]
    rfl
  exact ⟨_, t, run, ht, hs, houtcomes.trans first, processing _ rfl⟩

end Floor

end Foreman
