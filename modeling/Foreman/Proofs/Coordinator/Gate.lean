import Foreman.Proofs.Coordinator.SingleFlight

/-!
The gate before a build. A build comes to run in the step in which its drive finds none of its
dependencies in the running set, and the driver is called for it in that step; on its way it passes
through few statuses.
-/

namespace Foreman

theorem BuildJob.mem_dependencies {j : BuildJob} {id : BuildIdentity} :
    id ∈ j.dependencies ↔
      ∃ d ∈ j.configuration.dependencies, BuildIdentity.mk d ≠ j.identity ∧ ⟨d⟩ = id := by
  simp only [dependencies, List.mem_filter, List.mem_map, decide_eq_true_eq]
  constructor
  · rintro ⟨⟨d, hd, rfl⟩, hne⟩
    exact ⟨d, hd, hne, rfl⟩
  · rintro ⟨d, hd, hne, rfl⟩
    exact ⟨⟨d, hd, rfl⟩, hne⟩

namespace Coordinator

/-- The task comes to the status in a step. -/
def Enters (c c' : Coordinator) (i : Nat) (s : TaskStatus) : Prop :=
  (∀ t, c.task? i = some t → t.status ≠ s) ∧ ∃ t, c'.task? i = some t ∧ t.status = s

section Step

variable {c c' : Coordinator} {a : Action} {o : Option Errand} {i : Nat} {t : Task}
  {l : List Answer}

/-- A build comes to run or to wait only as its drive looks at its dependencies. -/
theorem enters_cases {s : TaskStatus} (hs : s.isTerminal = false) (hi : s ≠ .initial)
    (turn : Turn c i a (c'.task? i)) (enters : Enters c c' i s) :
    ∃ now t, a = .drive i now ∧ c.task? i = some t ∧
      (s = ⟨.build, .running⟩ ∧ DependencyWait.pending t.job.dependencies c.running = 0 ∨
        s = ⟨.build, .waitingForDependencies⟩ ∧
          DependencyWait.pending t.job.dependencies c.running ≠ 0) := by
  obtain ⟨before, t, ht, rfl⟩ := enters
  rw [ht] at turn
  generalize hu : some t = u at turn
  cases turn with
  | stay => exact (before t hu.symm rfl).elim
  | enroll =>
      obtain rfl := Option.some.inj hu
      exact (hi rfl).elim
  | run _ _ ht₀ free =>
      obtain rfl := Option.some.inj hu
      exact ⟨_, _, rfl, ht₀, .inl ⟨rfl, free⟩⟩
  | wait _ ht₀ blocked =>
      obtain rfl := Option.some.inj hu
      exact ⟨_, _, rfl, ht₀, .inr ⟨rfl, blocked⟩⟩
  | fail _ _ _ ht₀ | complete _ _ _ ht₀ =>
      obtain rfl := Option.some.inj hu
      exact (before _ ht₀ rfl).elim
  | collect =>
      obtain rfl := Option.some.inj hu
      exact (Bool.false_ne_true (hs.symm.trans (isTerminal_endStatus _))).elim
  | settle =>
      obtain rfl := Option.some.inj hu
      exact (Bool.false_ne_true (hs.symm.trans (Task.isTerminal_settle ..))).elim

/-- With nothing to wait for, a look at the dependencies starts the build. -/
theorem start_of_free {now : Instant} (m : Move c (.drive i now) c' o) (ht : c.task? i = some t)
    (free : DependencyWait.pending t.job.dependencies c.running = 0) :
    o = some (.start i) ∧ c'.running = c.running := by
  cases m with
  | run => exact ⟨rfl, rfl⟩
  | wait _ ht' blocked | stay _ _ ht' blocked =>
      obtain rfl := Option.some.inj (ht.symm.trans ht')
      exact (blocked free).elim

theorem run_gate (h : c.Sound) (m : Move c a c' o) (enters : Enters c c' i ⟨.build, .running⟩) :
    ∃ t, c.task? i = some t ∧ o = some (.start i) ∧ c'.running = c.running ∧
      ∀ d ∈ t.job.configuration.dependencies, BuildIdentity.mk d ≠ t.identity →
        c.running.contains ⟨d⟩ = false := by
  obtain ⟨now, t, rfl, ht, ⟨-, free⟩ | ⟨hs, -⟩⟩ :=
    enters_cases rfl (by decide) (turn_move h m i) enters
  · obtain ⟨ho, running⟩ := start_of_free m ht free
    refine ⟨t, ht, ho, running, fun d hd hne => DependencyWait.pending_eq_zero.mp free _ ?_⟩
    exact BuildJob.mem_dependencies.mpr ⟨d, hd, hne, rfl⟩
  · simp at hs

theorem wait_gate (h : c.Sound) (m : Move c a c' o)
    (enters : Enters c c' i ⟨.build, .waitingForDependencies⟩) :
    ∃ t, c.task? i = some t ∧ ∃ d ∈ t.job.configuration.dependencies,
      BuildIdentity.mk d ≠ t.identity ∧ c.running.contains ⟨d⟩ = true := by
  obtain ⟨now, t, rfl, ht, ⟨hs, -⟩ | ⟨-, blocked⟩⟩ :=
    enters_cases rfl (by decide) (turn_move h m i) enters
  · simp at hs
  · obtain ⟨id, hid, hcontains⟩ := List.countP_pos_iff.mp (Nat.pos_of_ne_zero blocked)
    obtain ⟨d, hd, hne, rfl⟩ := BuildJob.mem_dependencies.mp hid
    exact ⟨t, ht, d, hd, hne, hcontains⟩

theorem enters_of_start (h : c.Sound) (m : Move c a c' (some (.start i))) :
    Enters c c' i ⟨.build, .running⟩ := by
  cases m with
  | @run k now phase t hd hp ht free =>
      refine ⟨fun t' ht' => ?_, _, (task?_revise ..).trans (by rw [if_pos rfl, ht]; rfl), rfl⟩
      obtain rfl : t = t' := Option.some.inj (ht.symm.trans ht')
      exact (h.steady.before_run hd hp ht).2

/-- A drive that looks and finds none of its dependencies has the build run. -/
theorem enters_of_free (h : c.Sound) {now : Instant} (m : Move c (.drive i now) c' o)
    (ht : c.task? i = some t)
    (free : ∀ d ∈ t.job.configuration.dependencies, BuildIdentity.mk d ≠ t.identity →
      c.running.contains ⟨d⟩ = false) : Enters c c' i ⟨.build, .running⟩ := by
  have pending : DependencyWait.pending t.job.dependencies c.running = 0 := by
    refine DependencyWait.pending_eq_zero.mpr fun id hid => ?_
    obtain ⟨d, hd, hne, rfl⟩ := BuildJob.mem_dependencies.mp hid
    exact free d hd hne
  obtain ⟨rfl, -⟩ := start_of_free m ht pending
  exact enters_of_start h m

/-- What a build publishes, and where it stands then. -/
theorem Course.path (course : Course (some t) l) :
    t.status = t.published.getLast?.getD .initial ∧
      ∃ s, s.isTerminal = true ∧ (t.published <+: [⟨.build, .running⟩, s] ∨
        t.published <+: [⟨.build, .waitingForDependencies⟩, ⟨.build, .running⟩, s]) := by
  have led {lead rest : List TaskStatus} (hlead : IsLead lead) {s : TaskStatus}
      (hrest : rest <+: [⟨.build, .running⟩, s]) :
      lead ++ rest <+: [⟨.build, .running⟩, s] ∨
        lead ++ rest <+: [⟨.build, .waitingForDependencies⟩, ⟨.build, .running⟩, s] := by
    rcases List.prefix_cons_iff.mp hlead with rfl | ⟨l, rfl, hl⟩
    · exact .inl hrest
    · obtain rfl := List.prefix_nil.mp hl
      exact .inr ((List.prefix_cons_inj _).mpr hrest)
  have fault : (TaskStatus.mk .build .systemError).isTerminal = true := rfl
  cases course with
  | fresh _ status published =>
      exact ⟨by rw [status, published]; rfl, _, fault, by simp [published]⟩
  | waiting _ status published =>
      refine ⟨by rw [status, published]; rfl, _, fault, .inr ?_⟩
      rw [published]
      exact (List.prefix_cons_inj _).mpr List.nil_prefix
  | running _ status lead published | failed _ status lead published =>
      refine ⟨by simp [status, published], _, fault, ?_⟩
      rw [published]
      exact led lead ((List.prefix_cons_inj _).mpr List.nil_prefix)
  | @settled _ _ v _ status lead published =>
      refine ⟨by simp [status, published], v.status, v.isTerminal_status, ?_⟩
      rw [published]
      exact led lead List.prefix_rfl

end Step

/-- A build comes to run in the one step in which the driver is called for it, and none of its
dependencies but itself is in the running set then; nor does it stay behind when its drive looks and
that is so. It waits only if one of them is in the set as it looks. It publishes no more than that it
waits, that it runs and how it ends, in this order. -/
theorem dependency_gate {reports : Bool} {as : List Action} {c : Coordinator}
    (run : Run next (.empty reports) as c) :
    (∀ a c' o i, c.step a = some (c', o) →
      (o = some (.start i) ↔ Enters c c' i ⟨.build, .running⟩) ∧
      ∀ t, c.task? i = some t →
        (Enters c c' i ⟨.build, .running⟩ → c'.running = c.running ∧
          ∀ d ∈ t.job.configuration.dependencies, BuildIdentity.mk d ≠ t.identity →
            c.running.contains ⟨d⟩ = false) ∧
        (∀ now, a = .drive i now →
          (∀ d ∈ t.job.configuration.dependencies, BuildIdentity.mk d ≠ t.identity →
            c.running.contains ⟨d⟩ = false) → Enters c c' i ⟨.build, .running⟩) ∧
        (Enters c c' i ⟨.build, .waitingForDependencies⟩ →
          ∃ d ∈ t.job.configuration.dependencies, BuildIdentity.mk d ≠ t.identity ∧
            c.running.contains ⟨d⟩ = true)) ∧
    ∀ i t, c.task? i = some t →
      t.status = t.published.getLast?.getD .initial ∧
        ∃ s, s.isTerminal = true ∧ (t.published <+: [⟨.build, .running⟩, s] ∨
          t.published <+: [⟨.build, .waitingForDependencies⟩, ⟨.build, .running⟩, s]) := by
  refine ⟨fun a c' o i hs => ?_, fun i t ht => ?_⟩
  · have h := sound_of_run run
    have m := step_move h.steady hs
    refine ⟨⟨fun ho => enters_of_start h (ho ▸ m), fun enters => ?_⟩,
      fun t ht => ⟨fun enters => ?_, fun now ha free => ?_, fun enters => ?_⟩⟩
    · obtain ⟨_, -, ho, -⟩ := run_gate h m enters
      exact ho
    · obtain ⟨t', ht', -, gate⟩ := run_gate h m enters
      obtain rfl : t = t' := Option.some.inj (ht.symm.trans ht')
      exact gate
    · subst ha
      exact enters_of_free h m ht free
    · obtain ⟨t', ht', blocked⟩ := wait_gate h m enters
      obtain rfl : t = t' := Option.some.inj (ht.symm.trans ht')
      exact blocked
  · have course := course_of_run run i
    rw [ht] at course
    exact course.path

/-- A build that depends on another one, twice, and on itself and an unknown one. It waits for the
other one, and at the end of this run it may go on. -/
def patience (now : Instant) : List Action := [
  .spawn,
  .submit ⟨⟨1⟩, "app", "git", none, "make", .empty, [⟨2⟩, ⟨1⟩, ⟨2⟩, ⟨9⟩]⟩ none now,
  .submit ⟨⟨2⟩, "lib", "git", none, "make", .empty, []⟩ none now,
  .drive 0 now, .drive 1 now, .started 1 (.ok ()),
  .monitored 1 (.ok ⟨"lib", none, true, ""⟩) now, .take now ⟨30⟩, .saved 0]

theorem patience_runs : ((patience noon).foldlM next (.empty false)).isSome = true := by
  decide +kernel

theorem patience_goes_on : startsAt (Option.get _ patience_runs) 0 noon = true := by decide +kernel

theorem patience_waited :
    ((Option.get _ patience_runs).task? 0).map
      (fun t => (t.published, t.identity, t.job.configuration.dependencies)) =
    some ([⟨.build, .waitingForDependencies⟩], ⟨⟨1⟩⟩, [⟨2⟩, ⟨1⟩, ⟨2⟩, ⟨9⟩]) := by
  decide +kernel

/-- Here the next step starts the build that has waited. -/
theorem dependency_gate_opens :
    ∃ c c' t, Run next (.empty false) (patience noon) c ∧
      c.step (.drive 0 noon) = some (c', some (.start 0)) ∧ c.task? 0 = some t ∧
      t.published = [⟨.build, .waitingForDependencies⟩] ∧
      t.job.configuration.dependencies = [⟨2⟩, ⟨1⟩, ⟨2⟩, ⟨9⟩] ∧ c.running.contains ⟨⟨1⟩⟩ = true ∧
      c.running.contains ⟨⟨2⟩⟩ = false ∧ Enters c c' 0 ⟨.build, .running⟩ := by
  have run := Run.iff_foldlM.mpr (Option.some_get patience_runs).symm
  obtain ⟨t, ht, waited⟩ := Option.map_eq_some_iff.mp patience_waited
  simp only [Prod.mk.injEq] at waited
  obtain ⟨published, identity, dependencies⟩ := waited
  have starts := patience_goes_on
  unfold startsAt at starts
  split at starts
  next c' j hs =>
    obtain rfl : j = 0 := by simpa using starts
    obtain ⟨entered, gate⟩ := (dependency_gate run).1 _ _ _ 0 hs
    have enters := entered.mp rfl
    have free := ((gate t ht).1 enters).2 ⟨2⟩ (by simp [dependencies]) (by rw [identity]; decide)
    exact ⟨_, c', t, run, hs, ht, published, dependencies, by decide +kernel, free, enters⟩
  next => cases starts

end Coordinator

end Foreman
