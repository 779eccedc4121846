import Foreman.Proofs.Chronology
import Foreman.Proofs.Coordinator.Course
import Foreman.Proofs.Coordinator.Effort
import Mathlib.Logic.Relation

/-!
How a coordinator goes on by itself from any moment on. It comes to rest after so many steps, no build
begins to wait for another one on the way, and unless some wait for each other in a circle all builds
are over in the end.
-/

namespace Foreman

open Relation (TransGen)

namespace Coordinator

/-- Some processor has not stopped and is not about to. -/
def StaysStaffed (c : Coordinator) : Prop :=
  ∃ r ∈ c.processors, r.phase ≠ .stopped ∧ r.stopping = false

theorem StaysStaffed.isStaffed {c : Coordinator} (h : c.StaysStaffed) : c.IsStaffed := by
  obtain ⟨r, hr, hphase, -⟩ := h
  exact ⟨r, hr, hphase⟩

section Move

variable {c c' : Coordinator} {a : Action} {o : Option Errand} {p : Nat} {b : Bool}

/-- A processor stops by itself only if it was told to. -/
theorem StaysStaffed.withProcessor (h : c.StaysStaffed) {phase : ProcessorPhase}
    (hp : c.processors[p]? = some ⟨phase, b⟩) (phase' : ProcessorPhase) (hstop : phase' = .stopped → b = true)
    (processors : c'.processors = (c.withProcessor p phase').processors) : c'.StaysStaffed := by
  obtain ⟨⟨phase₀, b₀⟩, hr, hphase, hb⟩ := h
  obtain ⟨q, hq⟩ := List.mem_iff_getElem?.mp hr
  have hq' := getElem?_withProcessor c p q phase'
  rw [← processors, hq] at hq'
  by_cases hpq : p = q
  · subst hpq
    obtain ⟨rfl, rfl⟩ : phase = phase₀ ∧ b = b₀ := by simpa [hp] using hq
    rw [if_pos rfl] at hq'
    exact ⟨_, List.mem_of_getElem? hq', fun hs => by simp [hstop hs] at hb, hb⟩
  · rw [if_neg hpq] at hq'
    exact ⟨_, List.mem_of_getElem? hq', hphase, hb⟩

theorem StaysStaffed.move (staffed : c.StaysStaffed) (h : c.Sound) (m : Move c a c' o)
    (ha : a.isBackground = true) : c'.StaysStaffed := by
  cases m with
  | refuse | enroll | spawn | stop => simp [Action.isBackground] at ha
  | run | wait | stay | started | unstarted | failed | finished | forward | forwarded =>
      exact staffed
  | take hk =>
      obtain ⟨b, hp⟩ := h.line.mem.mp (hk ▸ List.mem_cons_self)
      exact staffed.withProcessor hp (.saving ..) (by simp) rfl
  | report hp => exact staffed.withProcessor hp (.reporting _) (by simp) rfl
  | pass hp =>
      exact staffed.withProcessor hp _ (by simp) (processors_finish h hp (carries_saving ..))
  | reported hp =>
      exact staffed.withProcessor hp _ (by simp) (processors_finish h hp (carries_reporting ..))

/-- The running set lets builds go in the background, it does not take any in. -/
theorem get?_background (h : c.Sound) (m : Move c a c' o) (ha : a.isBackground = true)
    {id : BuildIdentity} {i : Nat} (hi : c'.running.get? id = some i) :
    c.running.get? id = some i := by
  cases turnover h m with
  | same kept running => rwa [running] at hi
  | enter j free kept running =>
      -- A new task would have its drive, but the drives are still as many.
      have hnew := kept c.workshop.tasks.length
      rw [if_pos rfl] at hnew
      obtain ⟨t, ht, -⟩ := exists_of_kept hnew
      have hlt : c.workshop.tasks.length < c'.workshop.tasks.length :=
        (List.getElem?_eq_some_iff.mp ht).1
      have hdrives := (nearer_move h m ha).drives
      have hlen := h.steady.length
      have hlen' := (Steady.move h m).length
      omega
  | leave k t ht hn hm kept running =>
      rw [running, get?_leave] at hi
      split at hi
      next => simp at hi
      next => exact hi

/-- A task keeps its job. -/
theorem job_move (h : c.Sound) (m : Move c a c' o) {i : Nat} {t t' : Task}
    (ht : c.task? i = some t) (ht' : c'.task? i = some t') : t'.job = t.job := by
  obtain ⟨t₁, ht₁, job⟩ := (turn_move h m i).job ht
  obtain rfl : t' = t₁ := Option.some.inj (ht'.symm.trans ht₁)
  exact job

/-- No build comes to depend on another one in the background. -/
theorem DependsOn.move (h : c.Sound) (m : Move c a c' o) (ha : a.isBackground = true)
    {id id' : BuildIdentity} (hdep : c'.DependsOn id id') : c.DependsOn id id' := by
  obtain ⟨i, t', hi, ht', hid, hcontains⟩ := hdep
  obtain ⟨j, hj⟩ := Option.isSome_iff_exists.mp hcontains
  have hi := get?_background h m ha hi
  have hj := get?_background h m ha hj
  obtain ⟨t, ht, -⟩ := h.members.mem.mp hi
  have hjob := job_move h m ht ht'
  exact ⟨i, t, hi, ht, hjob ▸ hid, Option.isSome_iff_exists.mpr ⟨j, hj⟩⟩

end Move

section Run

variable {c c' : Coordinator} {reports : Bool} {as bs : List Action}

/-- What background steps keep, and how many of them there may be. -/
theorem background_run (h : c.Sound) (background : ∀ a ∈ bs, a.isBackground = true)
    (run : Run next c bs c') :
    (c.StaysStaffed → c'.StaysStaffed) ∧
      (∀ {id id'}, TransGen c'.DependsOn id id' → TransGen c.DependsOn id id') ∧
      bs.length + c'.bound ≤ c.bound := by
  induction run with
  | nil => exact ⟨fun staffed => staffed, fun dep => dep, by simp⟩
  | snoc before last ih =>
      obtain ⟨staffed, dep, hlen⟩ := ih fun a ha => background a (List.mem_append_left _ ha)
      have ha := background _ (List.mem_append_right _ List.mem_cons_self)
      have hbound := bound_next (h.run before) ha last
      obtain ⟨⟨c', o⟩, hs, rfl⟩ := Option.map_eq_some_iff.mp last
      have m := step_move (h.run before).steady hs
      refine ⟨fun hc => (staffed hc).move (h.run before) m ha, fun hdep => dep ?_, ?_⟩
      · exact TransGen.mono (fun _ _ => DependsOn.move (h.run before) m ha) _ _ hdep
      · rw [List.length_append, List.length_singleton]
        omega

/-- From every state that a coordinator may reach it comes to rest after some background steps. Where
it rests while a processor is left, its builds are over, or those in the running set depend on each
other in a circle; and if there is no such circle at first, there is none in the end. -/
theorem stuck_only_on_cycle (run : Run next (.empty reports) as c) :
    (c.IsStaffed → c.AtRest →
      (c.running.isEmpty = true ∧ ∀ i t, c.task? i = some t → t.isCompleted = true) ∨
        ∃ id, TransGen c.DependsOn id id) ∧
      (∃ n, ∀ bs c', (∀ a ∈ bs, a.isBackground = true) → Run next c bs c' → bs.length ≤ n) ∧
      (c.StaysStaffed → (∀ id, ¬TransGen c.DependsOn id id) →
        ∀ bs c', (∀ a ∈ bs, a.isBackground = true) → Run next c bs c' → c'.AtRest →
          c'.running.isEmpty = true ∧ ∀ i t, c'.task? i = some t → t.isCompleted = true) := by
  have h := sound_of_run run
  refine ⟨fun staffed rest => rest.over_or_cycle h staffed, ⟨c.bound, fun bs c' background run => ?_⟩,
    fun staffed acyclic bs c' background run rest => ?_⟩
  · have hlen := (background_run h background run).2.2
    omega
  · obtain ⟨hstaffed, hdep, -⟩ := background_run h background run
    rcases rest.over_or_cycle (h.run run) (hstaffed staffed).isStaffed with hover | ⟨id, hid⟩
    · exact hover
    · exact (acyclic id (hdep hid)).elim

end Run

/-- Builds do not depend on each other in a circle if each one ranks below its dependencies. -/
theorem acyclic_of_rank {c : Coordinator} (rank : BuildIdentity → Nat) (h : c.Sound)
    (below : ∀ {i t id'}, c.task? i = some t → id' ∈ t.job.dependencies →
      rank t.identity < rank id') (id : BuildIdentity) : ¬TransGen c.DependsOn id id := by
  have lt {id id' : BuildIdentity} (hdep : c.DependsOn id id') : rank id < rank id' := by
    obtain ⟨i, t, hi, ht, hid, -⟩ := hdep
    obtain ⟨t', ht', rfl, -⟩ := h.members.mem.mp hi
    obtain rfl : t = t' := Option.some.inj (ht.symm.trans ht')
    exact below ht hid
  have trans {id id' : BuildIdentity} (hdep : TransGen c.DependsOn id id') :
      rank id < rank id' := by
    induction hdep with
    | single hdep => exact lt hdep
    | tail _ hdep ih => exact Nat.lt_trans ih (lt hdep)
  exact fun hcycle => Nat.lt_irrefl _ (trans hcycle)

/-- Two builds, the first of which depends on the second. -/
def pair (dependencies : List ResourceId) (now : Instant) : List Action := [
  .spawn,
  .submit ⟨⟨1⟩, "app", "git", none, "make", .empty, [⟨2⟩]⟩ none now,
  .submit ⟨⟨2⟩, "lib", "git", none, "make", .empty, dependencies⟩ none now]

/-- Each of the two waits for the other one. -/
def standoff (now : Instant) : List Action := [
  .drive 0 now, .drive 1 now, .forward 0, .forwarded 0, .forward 1, .forwarded 1]

/-- The first one waits until the second one is over. -/
def sequence (now : Instant) : List Action :=
  let build (k : Nat) : List Action := [
    .drive k now, .started k (.ok ()), .monitored k (.ok ⟨"job", none, true, ""⟩) now,
    .take now ⟨30⟩, .saved 0, .forward k, .forwarded k, .forward k, .forwarded k]
  [.drive 0 now, .forward 0, .forwarded 0] ++ build 1 ++ build 0

theorem standoff_runs :
    ((pair [⟨1⟩] noon ++ standoff noon).foldlM next (.empty false)).isSome = true := by
  decide +kernel

theorem pair_runs : ((pair [] noon).foldlM next (.empty false)).isSome = true := by decide +kernel

theorem sequence_runs :
    ((sequence noon).foldlM next
      (((pair [] noon).foldlM next (.empty false)).get pair_runs)).isSome = true := by
  decide +kernel

theorem stuck_in_standoff :
    (∃ c, Run next (.empty false) (pair [⟨1⟩] noon ++ standoff noon) c ∧ c.AtRest ∧
      ∃ id, TransGen c.DependsOn id id) ∧
      ∃ c c', Run next (.empty false) (pair [] noon) c ∧ Run next c (sequence noon) c' ∧
        c'.AtRest ∧ c'.running.isEmpty = true := by
  constructor
  · have run := Run.iff_foldlM.mpr (Option.some_get standoff_runs).symm
    have rest := atRest_of_isQuiet (c := Option.get _ standoff_runs) (by decide +kernel)
    refine ⟨_, run, rest, ?_⟩
    have staffed : (Option.get _ standoff_runs).IsStaffed := by
      unfold IsStaffed
      decide +kernel
    have busy : (Option.get _ standoff_runs).running.isEmpty = false := by decide +kernel
    rcases (stuck_only_on_cycle run).1 staffed rest with ⟨hempty, -⟩ | hcycle
    · exact absurd (busy.symm.trans hempty) (by decide)
    · exact hcycle
  · have run := Run.iff_foldlM.mpr (Option.some_get pair_runs).symm
    have run' := Run.iff_foldlM.mpr (Option.some_get sequence_runs).symm
    have rest := atRest_of_isQuiet (c := Option.get _ sequence_runs) (by decide +kernel)
    have staffed : (Option.get _ pair_runs).StaysStaffed := by
      unfold StaysStaffed
      decide +kernel
    refine ⟨_, _, run, run', rest, ?_⟩
    refine ((stuck_only_on_cycle run).2.2 staffed ?_ _ _ (by decide +kernel) run' rest).1
    have later : (Option.get _ pair_runs).workshop.tasks.all (fun t => t.job.dependencies.all
        (t.identity.configuration.bits.toNat < ·.configuration.bits.toNat)) = true := by
      decide +kernel
    refine acyclic_of_rank (·.configuration.bits.toNat) (sound_of_run run) fun {i t id'} ht hid => ?_
    have hall := List.all_eq_true.mp later t (List.mem_of_getElem? ht)
    exact of_decide_eq_true (List.all_eq_true.mp hall id' hid)

end Coordinator

end Foreman
