import Foreman.Proofs.Workshop.Processing

/-!
The three reports of a finished build: its record to the repository, its result to whoever takes
reports, and its result to the one who waits for it. Each of them is made when it is due, while the
task stays open to everybody. They agree, for a task that is over keeps its status, and the first of
them is made only then.
-/

namespace Foreman

namespace Task

variable {t t' : Task}

/-- A task that is over goes on only in what observers of its status do not see. -/
theorem Onward.status_eq (on : t.Onward t') (h : t.Lawful) (hs : t.status.isTerminal = true) :
    t'.status = t.status := by
  obtain ⟨later, hlater⟩ := on.published
  have last := h.last
  cases hp : t.published using List.reverseRecOn with
  | nil =>
      rw [last, hp] at hs
      simp [TaskStatus.isTerminal, TaskStatus.initial, State.isTerminal] at hs
  | append_singleton l s =>
      rw [hp, List.getLast?_concat, Option.getD_some] at last
      rw [hp, List.append_assoc, List.singleton_append] at hlater
      -- Nothing may follow the terminal status.
      obtain rfl : later = [] := (on.lawful h).terminal_last hlater.symm (last ▸ hs)
      rw [(on.lawful h).last, ← hlater, last, List.getLast?_concat, Option.getD_some]

end Task

namespace Floor

variable {f f' : Floor} {i : Nat} {d : Deed} {t : Task}

def IsOver (f : Floor) (i : Nat) : Prop := ∃ t, f.task? i = some t ∧ t.status.isTerminal = true

/-- How a task stands that is not interfered with, when the words of `l` were told of it. -/
structure Told (reports : Bool) (i : Nat) (f : Floor) (l : List Word) : Prop where
  setting : f.coordinator.reports = reports
  /-- What was queued at the end of the task is only processed after it. -/
  loose : ∀ e ∈ f.loose, e.task = i → ∀ s, e.outcome = .finished s → f.IsOver i
  words : ∀ w ∈ l, ∃ t, f.task? i = some t ∧ t.status.isTerminal = true ∧ w.status = t.status
  gripped : ∀ p phase, f.coordinator.grip? i p = some phase → ∃ r, .record r ∈ l
  reporting : ∀ p e, f.coordinator.grip? i p = some (.reporting e) → ∀ url, f.url? i = some url →
    ∃ r, .report url r ∈ l
  completed : ∀ r, f.completion? i = some r →
    .completion r ∈ l ∧ (∃ b, .record b ∈ l) ∧
      (reports = true → ∀ url, f.url? i = some url → ∃ r', .report url r' ∈ l)

theorem told_empty (reports : Bool) (i : Nat) : Told reports i (.empty reports) [] := by
  have none (p : Nat) : (Floor.empty reports).coordinator.grip? i p = none := rfl
  refine ⟨rfl, by simp, by simp, fun p _ hp => ?_, fun p _ hp => ?_, by simp [completion?]⟩
  · rw [none p] at hp
    simp at hp
  · rw [none p] at hp
    simp at hp

theorem isOver_step (h : f.IsOver i) (lawful : f.Lawful) (hs : f.step d = some f') :
    f'.IsOver i := by
  obtain ⟨t, ht, ends⟩ := h
  obtain ⟨t', ht', on⟩ := (onward_step hs).tasks i t ht
  exact ⟨t', ht', by rw [on.status_eq (lawful i t ht) ends, ends]⟩

/-- An entry that a task puts in at its end follows the end. -/
theorem isOver_of_addition (hs : f.step d = some f') {e : QueuedTask} (he : e ∈ f.additions d)
    (own : d.isForeign = false) {s : TaskStatus} (ho : e.outcome = .finished s) :
    f'.IsOver e.task := by
  cases step_change hs with
  | create _ entries =>
      rw [additions_eq_nil hs (Nat.le_of_eq (congrArg List.length entries))] at he
      simp at he
  | @update k _ s' _ t' o _ ht hu task entries =>
      rw [additions_queued hs entries] at he
      obtain ⟨-, hstatus, -, -, rfl⟩ := Task.update_ok hu
      cases hend : s'.isTerminal with
      | false => simp [queued, hend] at he
      | true =>
          have hk : e.task = k := by
            obtain ⟨_, -, rfl⟩ := List.mem_map.mp he
            rfl
          exact ⟨t', by rw [task, if_pos hk.symm], by rw [hstatus, hend]⟩
  | refuse =>
      rw [additions_eq_nil hs (Nat.le_refl _)] at he
      simp at he
  | @fail k e' t _ _ _ entries =>
      rw [additions_queued hs entries] at he
      obtain ⟨o, ho', rfl⟩ := List.mem_map.mp he
      have errored : o = .errored e' := by
        simp only [Task.fail, Option.mem_toList] at ho'
        split at ho'
        next => simp at ho'
        next => exact (Option.some.inj ho').symm
      simp [errored] at ho
  | begin _ _ _ _ entries | quiet _ _ _ entries =>
      rw [additions_eq_nil hs entries] at he
      simp at he
  | foreign hd => simp [own] at hd

theorem loose_own (hs : f.step d = some f') (own : d.interferes i = false) {e : QueuedTask}
    (he : e ∈ f'.loose) (hi : e.task = i) :
    e ∈ f.loose ∨ e ∈ f.additions d ∧ d.isForeign = false := by
  cases hd : d.isForeign with
  | false => exact (loose_step hs hd he).imp_right (⟨·, rfl⟩)
  | true =>
      -- The entry that is brought in is one for another task.
      left
      cases d with
      | enqueue e' =>
          obtain rfl := Option.some.inj hs
          have hne : e'.task ≠ i := by simpa [Deed.interferes] using own
          have he : e ∈ f.entries ++ [e'] ++ f.hands := he
          simp only [List.mem_append, List.mem_singleton] at he
          rcases he with (he | rfl) | he
          · exact List.mem_append_left _ he
          · exact absurd hi hne
          · exact List.mem_append_right _ he
      | bring e' =>
          obtain rfl := Option.some.inj hs
          have hne : e'.task ≠ i := by simpa [Deed.interferes] using own
          have he : e ∈ f.entries ++ (f.hands ++ [e']) := he
          simp only [List.mem_append, List.mem_singleton] at he
          rcases he with he | he | rfl
          · exact List.mem_append_left _ he
          · exact List.mem_append_right _ he
          · exact absurd hi hne
      | _ => simp [Deed.isForeign] at hd

/-- What was told stays true of the task, which stays over. -/
theorem Told.words_step {reports : Bool} {l : List Word} (h : Told reports i f l)
    (lawful : f.Lawful) (hs : f.step d = some f') {w : Word} (hw : w ∈ l) :
    ∃ t, f'.task? i = some t ∧ t.status.isTerminal = true ∧ w.status = t.status := by
  obtain ⟨t, ht, ends, hstatus⟩ := h.words w hw
  obtain ⟨t', ht', on⟩ := (onward_step hs).tasks i t ht
  have same := on.status_eq (lawful i t ht) ends
  exact ⟨t', ht', by rw [same, ends], by rw [same, hstatus]⟩

/-- The task is over once an entry of it is settled. -/
theorem isTerminal_of_settle {e : QueuedTask} (hi : e.task = i)
    (ended : ∀ s, e.outcome = .finished s → f.IsOver i) {now : Instant}
    (ht : (f.workshop.settle e now).task? i = some t) : t.status.isTerminal = true := by
  unfold Workshop.settle at ht
  split at ht
  next s ho =>
    obtain ⟨t', ht', ends⟩ := ended s ho
    obtain rfl : t = t' := Option.some.inj (ht.symm.trans ht')
    exact ends
  next =>
    rw [Workshop.task?_change, if_pos hi] at ht
    obtain ⟨t₀, -, rfl⟩ := Option.map_eq_some_iff.mp ht
    exact Task.isTerminal_settle ..

theorem Told.exists_task {reports : Bool} {l : List Word} (h : Told reports i f l) {w : Word}
    (hw : w ∈ l) : ∃ t, f.task? i = some t := by
  obtain ⟨t, ht, -⟩ := h.words w hw
  exact ⟨t, ht⟩

theorem Told.url_step {reports : Bool} {l : List Word} (h : Told reports i f l)
    (hs : f.step d = some f') {w : Word} (hw : w ∈ l) : f'.url? i = f.url? i := by
  obtain ⟨t, ht⟩ := h.exists_task hw
  exact url?_step hs ht

/-- What was told before has been told; a step has to answer for what is new. -/
theorem Told.extend {reports : Bool} {l l' : List Word} (h : Told reports i f l)
    (lawful : f.Lawful) (hs : f.step d = some f') (own : d.interferes i = false)
    (words : ∀ w ∈ l', ∃ t, f'.task? i = some t ∧ t.status.isTerminal = true ∧
      w.status = t.status)
    (gripped : ∀ p phase, f'.coordinator.grip? i p = some phase →
      f.coordinator.grip? i p = some phase ∨ ∃ r, .record r ∈ l ++ l')
    (reporting : ∀ p e, f'.coordinator.grip? i p = some (.reporting e) →
      f.coordinator.grip? i p = some (.reporting e) ∨
        ∀ url, f'.url? i = some url → ∃ r, .report url r ∈ l ++ l')
    (completed : ∀ r, f'.completion? i = some r → f.completion? i = some r ∨
      .completion r ∈ l ++ l' ∧ (∃ b, .record b ∈ l ++ l') ∧
        (reports = true → ∀ url, f'.url? i = some url → ∃ r', .report url r' ∈ l ++ l')) :
    Told reports i f' (l ++ l') where
  setting := (congrArg (·.2.2) (standing_step hs)).trans h.setting
  loose e he hi s ho := by
    rcases loose_own hs own he hi with he | ⟨he, hd⟩
    · exact isOver_step (h.loose e he hi s ho) lawful hs
    · exact hi ▸ isOver_of_addition hs he hd ho
  words w hw := by
    rcases List.mem_append.mp hw with hw | hw
    · exact h.words_step lawful hs hw
    · exact words w hw
  gripped p phase hp := by
    rcases gripped p phase hp with hp | new
    · exact (h.gripped p phase hp).imp fun _ => List.mem_append_left _
    · exact new
  reporting p e hp url hu := by
    rcases reporting p e hp with hp | new
    · obtain ⟨b, hb⟩ := h.gripped p _ hp
      rw [h.url_step hs hb] at hu
      exact (h.reporting p e hp url hu).imp fun _ => List.mem_append_left _
    · exact new url hu
  completed r hr := by
    rcases completed r hr with hr | new
    · obtain ⟨hc, ⟨b, hb⟩, due⟩ := h.completed r hr
      refine ⟨List.mem_append_left _ hc, ⟨b, List.mem_append_left _ hb⟩, fun hreports url hu => ?_⟩
      rw [h.url_step hs hb] at hu
      exact (due hreports url hu).imp fun _ => List.mem_append_left _
    · exact new

/-- A processor that is done with the task has told its record, and its report if one is due. -/
theorem Told.finished {reports : Bool} {l : List Word} (h : Told reports i f l) {p : Nat}
    {phase : ProcessorPhase} (grip : f.coordinator.grip? i p = some phase)
    (ht : f.task? i = some t)
    (due : (∃ e, phase = .reporting e) ∨
      ¬(f.coordinator.reports = true ∧ t.job.callbackUrl.isSome = true)) :
    (∃ b, .record b ∈ l) ∧
      (reports = true → ∀ url, f.url? i = some url → ∃ r, .report url r ∈ l) := by
  refine ⟨h.gripped p phase grip, fun hreports url hu => ?_⟩
  rcases due with ⟨e, rfl⟩ | due
  · exact h.reporting p e grip url hu
  · rw [url?_of_task ht] at hu
    exact absurd ⟨h.setting.trans hreports, by rw [hu]; rfl⟩ due

theorem Told.step {reports : Bool} {l : List Word} (h : Told reports i f l) (lawful : f.Lawful)
    (hs : f.step d = some f') (own : d.interferes i = false) :
    Told reports i f' (l ++ f.told i d) := by
  have handled := handling hs own
  generalize f.told i d = l' at *
  cases handled with
  | apart grips completion =>
      exact h.extend lawful hs own (by simp) (fun p phase hp => .inl (grips p phase hp))
        (fun p e hp => .inl (grips p _ hp)) fun r hr => .inl (completion ▸ hr)
  | @accept e t now id he hi ht settled grips completion =>
      have ends : t.status.isTerminal = true :=
        isTerminal_of_settle hi (fun s => h.loose e he hi s) (settled ▸ ht)
      refine h.extend lawful hs own (fun w hw => ?_) (fun p phase _ => .inr ⟨t.record id, by simp⟩)
        (fun p e' hp => ?_) fun r hr => .inl (completion ▸ hr)
      · obtain rfl := List.mem_singleton.mp hw
        exact ⟨t, ht, ends, rfl⟩
      · rcases grips p _ hp with ⟨r, hr⟩ | hp
        · simp at hr
        · exact .inl hp
  | @report p e r t u grip ht ht' hu grips =>
      obtain ⟨b, hb⟩ := h.gripped p _ grip
      obtain ⟨t₀, ht₀, ends, -⟩ := h.words _ hb
      obtain rfl : t = t₀ := Option.some.inj (ht.symm.trans ht₀)
      have completion : f'.completion? i = f.completion? i := by
        rw [completion?_of_task ht, completion?_of_task ht']
      refine h.extend lawful hs own (fun w hw => ?_)
        (fun q phase _ => .inr ⟨b, List.mem_append_left _ hb⟩) (fun q e' _ => .inr fun u' hu' => ?_)
        fun r hr => .inl (completion ▸ hr)
      · obtain rfl := List.mem_singleton.mp hw
        exact ⟨t, ht', ends, rfl⟩
      · rw [url?_of_task ht', hu] at hu'
        obtain rfl := Option.some.inj hu'
        exact ⟨t.result, by simp⟩
  | @finish p phase t grip ht ht' due grips =>
      obtain ⟨⟨b, hb⟩, reported⟩ := h.finished grip ht due
      obtain ⟨t₀, ht₀, ends, -⟩ := h.words _ hb
      obtain rfl : t = t₀ := Option.some.inj (ht.symm.trans ht₀)
      refine h.extend lawful hs own (fun w hw => ?_) (fun q phase hq => .inl (grips q phase hq))
        (fun q e hq => .inl (grips q _ hq)) fun r hr => ?_
      · split at hw
        next => simp at hw
        next hopen =>
          obtain rfl := List.mem_singleton.mp hw
          refine ⟨_, ht', ?_, ?_⟩ <;> simp [Task.concluded, hopen, ends, Word.status, Task.result]
      · rw [completion?_of_task ht', Task.completion_concluded] at hr
        cases hc : t.completion with
        | some r' =>
            obtain rfl : r' = r := by simpa [hc] using hr
            exact .inl ((completion?_of_task ht).trans hc)
        | none =>
            obtain rfl : t.result = r := by simpa [hc] using hr
            refine .inr ⟨by simp [Task.isCompleted, hc], ⟨b, List.mem_append_left _ hb⟩, ?_⟩
            intro hreports url hu
            rw [h.url_step hs hb] at hu
            exact (reported hreports url hu).imp fun _ => List.mem_append_left _

theorem told_of_run {reports : Bool} {ds : List Deed} (run : Run step (.empty reports) ds f)
    (own : ∀ d ∈ ds, d.interferes i = false) :
    Told reports i f (notes step (told i) (.empty reports) ds) := by
  induction run with
  | nil => exact told_empty reports i
  | snoc before last ih =>
      rw [notes_snoc _ before last]
      exact (ih fun d hd => own d (List.mem_append_left _ hd)).step (lawful_of_run before) last
        (own _ (by simp))

/-- In any run, whoever does what before, during and after the processing of a task, all that is told
of the task has one status, which ends it, and which it has ever after: the record that is saved, the
result that is reported and the one with which it is completed. No task is completed before its
record was told and its report, if one is due. The run brings in no entry of the task that it has not
made, and only processors complete it. -/
theorem reports_agree {reports : Bool} {ds : List Deed} (run : Run step (.empty reports) ds f)
    (own : ∀ d ∈ ds, d.interferes i = false) :
    (∀ w ∈ notes step (told i) (.empty reports) ds, w.status.isTerminal = true ∧
      (∀ w' ∈ notes step (told i) (.empty reports) ds, w'.status = w.status) ∧
      ∀ ds' f', Run step f ds' f' → ∃ t, f'.task? i = some t ∧ t.status = w.status) ∧
    ∀ t r, f.task? i = some t → t.completion = some r →
      .completion r ∈ notes step (told i) (.empty reports) ds ∧
      (∃ b, .record b ∈ notes step (told i) (.empty reports) ds) ∧
      (reports = true → ∀ url, t.job.callbackUrl = some url →
        ∃ r', .report url r' ∈ notes step (told i) (.empty reports) ds) := by
  have h := told_of_run run own
  refine ⟨fun w hw => ?_, fun t r ht hr => ?_⟩
  · obtain ⟨t, ht, ends, hstatus⟩ := h.words w hw
    refine ⟨by rw [hstatus, ends], fun w' hw' => ?_, fun ds' f' later => ?_⟩
    · obtain ⟨t', ht', -, hstatus'⟩ := h.words w' hw'
      obtain rfl : t = t' := Option.some.inj (ht.symm.trans ht')
      exact hstatus'.trans hstatus.symm
    · -- A task that is over keeps its status.
      induction later with
      | nil => exact ⟨t, ht, hstatus.symm⟩
      | snoc before last ih =>
          obtain ⟨u, hu, same⟩ := ih
          obtain ⟨u', hu', on⟩ := (onward_step last).tasks i u hu
          have lawful := lawful_of_run (run.trans before) i u hu
          exact ⟨u', hu', by rw [on.status_eq lawful (by rw [same, hstatus, ends]), same]⟩
  · have := h.completed r ((completion?_of_task ht).trans hr)
    rwa [url?_of_task ht] at this

/-- The driver fails a build, whose result is to be reported, and the build goes on being updated
while its record is saved and its result reported, and afterwards. -/
def aftermath (now : Instant) : List Deed := [
  .create ⟨⟨⟨1⟩, "app", "git", none, "make", .empty, []⟩, now, some "http://ci/done"⟩ now,
  .spawn,
  .update 0 now ⟨.build, .running⟩,
  .fail 0 ⟨"lost"⟩,
  .take now ⟨30⟩,
  .update 0 now ⟨.collectResults, .completed⟩,
  .saved 0,
  .setDetails 0 ⟨"app", none, true, "done"⟩,
  .update 0 now ⟨.collectResults, .failed⟩,
  .reported 0,
  .fail 0 ⟨"lost again"⟩]

theorem aftermath_runs : ((aftermath noon).foldlM step (.empty true)).isSome = true := by
  decide +kernel

theorem told_aftermath :
    (notes step (told 0) (.empty true) (aftermath noon)).map Word.status =
      [⟨.build, .systemError⟩, ⟨.build, .systemError⟩, ⟨.build, .systemError⟩] := by
  decide +kernel

theorem completed_aftermath :
    ((((aftermath noon).foldlM step (.empty true)).get aftermath_runs).completion? 0).isSome =
      true := by
  decide +kernel

theorem reports_agree_aftermath :
    ∃ f t r, Run step (.empty true) (aftermath noon) f ∧ f.task? 0 = some t ∧
      t.completion = some r ∧ t.status = ⟨.build, .systemError⟩ ∧ r.status = t.status ∧
      .completion r ∈ notes step (told 0) (.empty true) (aftermath noon) := by
  have run := Run.iff_foldlM.mpr (Option.some_get aftermath_runs).symm
  have own : ∀ d ∈ aftermath noon, d.interferes 0 = false := by simp [aftermath, Deed.interferes]
  obtain ⟨agree, complete⟩ := reports_agree run own
  obtain ⟨r, hr⟩ := Option.isSome_iff_exists.mp completed_aftermath
  obtain ⟨t, ht, hc⟩ := Option.bind_eq_some_iff.mp hr
  have told := (complete t r ht hc).1
  obtain ⟨-, -, later⟩ := agree _ told
  obtain ⟨t', ht', same⟩ := later [] _ .nil
  obtain rfl : t = t' := Option.some.inj (ht.symm.trans ht')
  have hs : (Word.completion r).status ∈
      (notes step (Floor.told 0) (.empty true) (aftermath noon)).map Word.status :=
    List.mem_map_of_mem told
  rw [told_aftermath] at hs
  have hs : (Word.completion r).status = ⟨.build, .systemError⟩ := by simpa using hs
  exact ⟨_, t, r, run, ht, hc, same.trans hs, same.symm, told⟩

end Floor

end Foreman
