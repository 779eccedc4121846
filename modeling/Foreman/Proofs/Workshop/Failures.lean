import Foreman.Proofs.Workshop.Reports

/-!
Builds that the driver has failed. Until a processor gets to such a build it stays open to updates, and
one that ends it comes before the error status. So what is told of the build says that it is a system
error exactly if no update has ended it otherwise.
-/

namespace Foreman

/-- The status of an update that ended the task. -/
def Outcome.ending? : Outcome → Option TaskStatus
  | .finished s => some s
  | .errored _ => none

namespace Floor

variable {f f' : Floor} {d : Deed} {i : Nat} {t : Task} {l : List TaskStatus}

def status? (f : Floor) (i : Nat) : Option TaskStatus := (f.task? i).map (·.status)

/-- The statuses of updates that end the task. -/
def endings (i : Nat) (f : Floor) (d : Deed) : List TaskStatus :=
  (f.causes i d).filterMap Outcome.ending?

/-- How a task that is at a status, if it is there, has been ended by updates: one has ended it, or
none, and then it goes on or has been settled. -/
inductive Ended : List TaskStatus → Option TaskStatus → Prop
  | absent : Ended [] none
  | goesOn {s} (hs : s.isTerminal = false) : Ended [] (some s)
  | updated {s} (hs : s.isTerminal = true) : Ended [s] (some s)
  | settled {s} (hs : s.state = .systemError) : Ended [] (some s)

theorem Ended.eq_nil {s : TaskStatus} (h : Ended l (some s)) (hs : s.isTerminal = false) :
    l = [] := by
  cases h with
  | goesOn | settled => rfl
  | updated hs' => simp [hs] at hs'

/-- Settling a failure ends no task but with the error status. -/
theorem Ended.settle (h : Ended l (some t.status)) (now : Instant) :
    Ended l (some (t.settle now).status) := by
  unfold Task.settle
  split
  next => exact h
  next hs =>
    obtain rfl := h.eq_nil (Bool.eq_false_iff.mpr hs)
    exact .settled rfl

theorem status?_replace {k : Nat} {u : Task}
    (task : ∀ j, f'.task? j = if k = j then some u else f.task? j) :
    f'.status? i = if k = i then some u.status else f.status? i := by
  rw [status?, task]
  split <;> rfl

theorem status?_of_face (h : f'.face? i = f.face? i) : f'.status? i = f.status? i := by
  have hmap (f : Floor) : f.status? i = (f.face? i).map (·.1) := by
    rw [status?, face?]
    cases f.task? i <;> rfl
  rw [hmap, hmap, h]

theorem Ended.step (h : Ended l (f.status? i)) (hs : f.step d = some f') :
    Ended (l ++ f.endings i d) (f'.status? i) := by
  have idle (hc : f.causes i d = []) (h' : Ended l (f'.status? i)) :
      Ended (l ++ f.endings i d) (f'.status? i) := by
    rwa [endings, hc, List.filterMap_nil, List.append_nil]
  cases step_change hs with
  | @create j now _ tasks =>
      refine idle rfl ?_
      have created : f'.task? i = (f.workshop.tasks ++ [.new j now])[i]? := by
        rw [← tasks]
        rfl
      cases hi : f'.task? i with
      | none =>
          have absent : f.task? i = none := by
            rw [created, List.getElem?_eq_none_iff, List.length_append] at hi
            exact List.getElem?_eq_none (Nat.le_trans (Nat.le_add_right ..) hi)
          rw [status?, absent] at h
          rwa [status?, hi]
      | some t =>
          rcases getElem?_concat_cases (created.symm.trans hi) with old | ⟨hlen, rfl⟩
          · have there : f.task? i = some t := old
            rw [status?, there] at h
            rwa [status?, hi]
          · have absent : f.task? i = none := List.getElem?_eq_none (Nat.le_of_eq hlen.symm)
            rw [status?, absent] at h
            cases h
            rw [status?, hi]
            exact .goesOn rfl
  | @update k now s t t' o _ ht hu task =>
      rw [status?_replace task]
      obtain ⟨hopen, hstatus, -⟩ := Task.update_ok hu
      have hok : (f.workshop.update k now s).isOk = true := by
        rw [isOk_update ht, hu]
        rfl
      split
      next hk =>
        subst hk
        rw [status?, ht] at h
        obtain rfl := h.eq_nil hopen
        rw [hstatus]
        cases hend : s.isTerminal with
        | true => simpa [endings, causes, hend, hok, Outcome.ending?] using Ended.updated hend
        | false => simpa [endings, causes, hend] using Ended.goesOn hend
      next hk => simpa [endings, causes, hk] using h
  | @refuse k now s t e ht hu =>
      have hok : (f.workshop.update k now s).isOk = false := by
        rw [isOk_update ht, hu]
        rfl
      exact idle (by simp [causes, hok]) h
  | @fail k e t _ ht task =>
      have none : f.endings i (.fail k e) = [] := by
        by_cases hk : k = i <;> simp [endings, causes, hk, Outcome.ending?]
      rw [none, List.append_nil, status?_replace task]
      split
      next hk =>
        subst hk
        rwa [status?, ht] at h
      next => exact h
  | @begin _ _ now hd task =>
      have hd' : d.decides = false := by cases d <;> simp_all [Deed.isProcessing, Deed.decides]
      refine idle (causes_eq_nil i f hd') ?_
      rcases task i with same | ⟨-, settled⟩
      · rwa [status?, same]
      · rw [status?, settled]
        cases hi : f.task? i with
        | none => rwa [status?, hi] at h
        | some t =>
            rw [status?, hi] at h
            exact h.settle now
  | quiet hd face =>
      refine idle (causes_eq_nil i f hd) ?_
      rwa [status?_of_face (face i)]
  | foreign hd tasks =>
      have hd' : d.decides = false := by cases d <;> simp_all [Deed.isForeign, Deed.decides]
      refine idle (causes_eq_nil i f hd') ?_
      rwa [status?, task?, Workshop.task?, tasks]

theorem notes_endings (s : Floor) (ds : List Deed) :
    notes step (endings i) s ds = (notes step (causes i) s ds).filterMap Outcome.ending? := by
  induction ds generalizing s with
  | nil => rfl
  | cons d ds ih =>
      cases hs : s.step d with
      | none => simp [notes, hs]
      | some s' => simp [notes, hs, ih, endings]

theorem ended_of_run {reports : Bool} {ds : List Deed} (run : Run step (.empty reports) ds f) :
    Ended ((notes step (causes i) (.empty reports) ds).filterMap Outcome.ending?) (f.status? i) := by
  rw [← notes_endings]
  induction run with
  | nil => exact .absent
  | snoc before last ih =>
      rw [notes_snoc _ before last]
      exact ih.step last

/-- What a deed puts into the queue for a task in whose processing nobody else has a hand. -/
theorem booked_step (hs : f.step d = some f') (own : d.interferes i = false) :
    outcomes i (f.additions d) =
        (if f.isEnqueued i then [] else (f.causes i d).head?.toList) ∧
      f'.isEnqueued i = (f.isEnqueued i || !(f.causes i d).isEmpty) := by
  cases hd : d.isForeign with
  | false => exact ⟨(booking hs hd).outcomes i, (booking hs hd).isEnqueued i⟩
  | true =>
      cases d with
      | enqueue e =>
          obtain rfl := Option.some.inj hs
          have hne : e.task ≠ i := by simpa [Deed.interferes] using own
          have entries := Workshop.entries_enqueue f.workshop e.task (some e.outcome)
          rw [additions_queued hs entries, outcomes_queued, if_neg hne]
          exact ⟨by simp [causes], by simp [causes]; rfl⟩
      | bring e =>
          obtain rfl := Option.some.inj hs
          rw [additions_eq_nil hs (Nat.le_refl _)]
          exact ⟨by simp [causes, outcomes], by simp [causes]; rfl⟩
      | _ => simp [Deed.isForeign] at hd

/-- The first cause is what the task has put into the queue. -/
theorem outcomes_of_run {reports : Bool} {ds : List Deed} (run : Run step (.empty reports) ds f)
    (own : ∀ d ∈ ds, d.interferes i = false) :
    outcomes i (notes step additions (.empty reports) ds) =
        (notes step (causes i) (.empty reports) ds).head?.toList ∧
      f.isEnqueued i = !(notes step (causes i) (.empty reports) ds).isEmpty := by
  induction run with
  | nil => exact ⟨rfl, rfl⟩
  | snoc before last ih =>
      obtain ⟨houtcomes, henqueued⟩ := ih fun d hd => own d (List.mem_append_left _ hd)
      obtain ⟨added, now⟩ := booked_step last (own _ (by simp))
      rw [notes_snoc additions before last, notes_snoc (causes i) before last, outcomes_append,
        houtcomes, added, now, henqueued]
      cases hn : notes step (causes i) _ _ with
      | nil => cases Floor.causes i _ _ <;> simp
      | cons o os => simp

/-- All that is told of a build which is in the queue for a failure says one thing. It is a system error
exactly if no update that followed the failure has ended the build otherwise, and it is a success
exactly if one has ended it as completed. The run brings in no entry of the task that it has not made,
and only processors complete it. -/
theorem failure_told_iff {reports : Bool} {ds : List Deed} (run : Run step (.empty reports) ds f)
    (own : ∀ d ∈ ds, d.interferes i = false) {e : DriverError}
    (failed : outcomes i (notes step additions (.empty reports) ds) = [.errored e]) {w : Word}
    (hw : w ∈ notes step (told i) (.empty reports) ds) :
    ∃ later, notes step (causes i) (.empty reports) ds = .errored e :: later ∧
      (w.status.state = .systemError ↔ ∀ s, .finished s ∈ later → s.state = .systemError) ∧
      (w.status.isSuccess = true ↔ ∃ s, .finished s ∈ later ∧ s.state = .completed) := by
  obtain ⟨t, ht, ends, hstatus⟩ := (told_of_run run own).words w hw
  have ended : Ended ((notes step (causes i) (.empty reports) ds).filterMap Outcome.ending?)
      (some w.status) := by
    have := ended_of_run (i := i) run
    rwa [status?, ht, Option.map_some, ← hstatus] at this
  have first := (outcomes_of_run run own).1.symm.trans failed
  cases hc : notes step (causes i) (.empty reports) ds with
  | nil => simp [hc] at first
  | cons o later =>
      obtain rfl : o = .errored e := by simpa [hc] using first
      rw [hc] at ended
      have mem (s : TaskStatus) : .finished s ∈ later ↔ s ∈ later.filterMap Outcome.ending? := by
        rw [List.mem_filterMap]
        constructor
        · exact fun h => ⟨_, h, rfl⟩
        · rintro ⟨o, ho, hs⟩
          cases o <;> simp_all [Outcome.ending?]
      simp only [List.filterMap_cons, Outcome.ending?] at ended
      refine ⟨later, rfl, ?_⟩
      simp only [mem]
      generalize later.filterMap Outcome.ending? = l at *
      generalize w.status = s at *
      cases ended with
      | goesOn hs => simp [hs, ← hstatus] at ends
      | updated => simp [TaskStatus.isSuccess]
      | settled hs => simp [TaskStatus.isSuccess, hs]

theorem failure_told_aftermath :
    ∃ f, Run step (.empty true) (aftermath noon) f ∧
      ∀ w ∈ notes step (told 0) (.empty true) (aftermath noon),
        w.status.state = .systemError ∧ w.status.isSuccess = false := by
  have run := Run.iff_foldlM.mpr (Option.some_get aftermath_runs).symm
  have own : ∀ d ∈ aftermath noon, d.interferes 0 = false := by simp [aftermath, Deed.interferes]
  have failed : outcomes 0 (notes step additions (.empty true) (aftermath noon)) =
      [.errored ⟨"lost"⟩] := by decide +kernel
  have causes : notes step (causes 0) (.empty true) (aftermath noon) =
      [.errored ⟨"lost"⟩, .errored ⟨"lost again"⟩] := by decide +kernel
  refine ⟨_, run, fun w hw => ?_⟩
  obtain ⟨later, hlater, error, success⟩ := failure_told_iff run own failed hw
  obtain rfl := List.tail_eq_of_cons_eq (causes.symm.trans hlater)
  exact ⟨error.mpr (by simp), Bool.eq_false_iff.mpr fun h => by simpa using success.mp h⟩

/-- The driver fails a build, and it is updated as completed before a processor gets to it. -/
def comeback (now : Instant) : List Deed := [
  .create ⟨⟨⟨1⟩, "app", "git", none, "make", .empty, []⟩, now, some "http://ci/done"⟩ now,
  .spawn,
  .update 0 now ⟨.build, .running⟩,
  .fail 0 ⟨"lost"⟩,
  .update 0 now ⟨.collectResults, .completed⟩,
  .take now ⟨30⟩,
  .saved 0,
  .reported 0]

/-- A failed build may be told to be a success: its record, its report and its result are. -/
theorem comeback_told_completed :
    (∃ f, Run step (.empty true) (comeback noon) f) ∧
      (∀ d ∈ comeback noon, d.interferes 0 = false) ∧
      outcomes 0 (notes step additions (.empty true) (comeback noon)) = [.errored ⟨"lost"⟩] ∧
      (notes step (told 0) (.empty true) (comeback noon)).map Word.status =
        [⟨.collectResults, .completed⟩, ⟨.collectResults, .completed⟩,
          ⟨.collectResults, .completed⟩] := by
  have runs : ((comeback noon).foldlM step (.empty true)).isSome = true := by decide +kernel
  refine ⟨⟨_, Run.iff_foldlM.mpr (Option.some_get runs).symm⟩, ?_, ?_, ?_⟩ <;> decide +kernel

end Floor

end Foreman
