import Foreman.Proofs.Chronology
import Foreman.Proofs.Workshop.Floor
import Mathlib.Data.List.Induction

/-!
The statuses that a task publishes. Whatever is done to it, by whomever, they go no step back and
end with the first terminal one, and the task stands where it has published last.
-/

namespace Foreman

namespace State

variable {a b c : State}

theorem canBecome_iff : a.canBecome b = true ↔ a.isTerminal = false ∧ a.rank ≤ b.rank := by
  simp [canBecome]

theorem canBecome_trans (h : a.canBecome b = true) (h' : b.canBecome c = true) :
    a.canBecome c = true := by
  rw [canBecome_iff] at *
  exact ⟨h.1, Nat.le_trans h.2 h'.2⟩

theorem canBecome_systemError (h : a.isTerminal = false) : a.canBecome .systemError = true := by
  cases a <;> simp_all [canBecome, isTerminal, rank]

end State

namespace Task

/-- The task stands where it has published last, and each status that it has published could become
every later one. -/
structure Lawful (t : Task) : Prop where
  last : t.status = t.published.getLast?.getD .initial
  shown : t.shown = t.status
  forward : t.published.Pairwise fun a b => a.state.canBecome b.state = true

variable {t t' : Task} {now : Instant} {s : TaskStatus}

theorem lawful_new (j : BuildJob) (now : Instant) : (Task.new j now).Lawful :=
  ⟨rfl, rfl, .nil⟩

theorem Lawful.congr (h : t.Lawful) (face : t'.face = t.face) : t'.Lawful := by
  obtain ⟨last, shown, forward⟩ := h
  simp only [Task.face, Prod.mk.injEq] at face
  obtain ⟨hstatus, hshown, hpublished, -, -⟩ := face
  rw [← hstatus, ← hpublished] at last
  rw [← hstatus, ← hshown] at shown
  rw [← hpublished] at forward
  exact ⟨last, shown, forward⟩

theorem Lawful.publish (h : t.Lawful) (hs : t.status.state.canBecome s.state = true) :
    (t.publish now s).Lawful := by
  refine ⟨by simp [Task.publish], rfl, List.pairwise_append.mpr ⟨h.forward, by simp, ?_⟩⟩
  intro a ha b hb
  obtain rfl := List.mem_singleton.mp hb
  have last := h.last
  have forward := h.forward
  cases hp : t.published using List.reverseRecOn with
  | nil => simp [hp] at ha
  | append_singleton l c =>
      -- The task stands at `c`, which every earlier status could become.
      rw [hp] at ha last forward
      rw [List.getLast?_concat, Option.getD_some] at last
      rw [last] at hs
      rcases List.mem_append.mp ha with ha | ha
      · exact State.canBecome_trans
          ((List.pairwise_append.mp forward).2.2 a ha c List.mem_cons_self) hs
      · rwa [List.mem_singleton.mp ha]

theorem Lawful.update (h : t.Lawful) {o : Option Outcome} (hu : t.update now s = .ok (t', o)) :
    t'.Lawful := by
  unfold Task.update at hu
  split at hu
  next hs =>
    have published : (t.publish now s).Lawful := h.publish hs
    dsimp only at hu
    split at hu
    next =>
      obtain ⟨rfl, -⟩ := Prod.mk.inj (Except.ok.inj hu)
      exact ⟨published.last, published.shown, published.forward⟩
    next =>
      obtain ⟨rfl, -⟩ := Prod.mk.inj (Except.ok.inj hu)
      exact published
  next => simp at hu

theorem Lawful.settle (h : t.Lawful) (now : Instant) : (t.settle now).Lawful := by
  unfold Task.settle
  split
  next => exact h
  next hs => exact h.publish (State.canBecome_systemError (Bool.eq_false_iff.mpr hs))

theorem Lawful.forward_rank (h : t.Lawful) :
    t.published.Pairwise fun a b => a.state.rank ≤ b.state.rank :=
  h.forward.imp fun h => (State.canBecome_iff.mp h).2

theorem Lawful.terminal_last (h : t.Lawful) {l r : List TaskStatus}
    (hl : t.published = l ++ s :: r) (hs : s.isTerminal = true) : r = [] := by
  cases r with
  | nil => rfl
  | cons b r =>
      have forward := h.forward
      rw [hl] at forward
      have later := (List.pairwise_cons.mp (List.pairwise_append.mp forward).2.1).1 b
        List.mem_cons_self
      simp [(State.canBecome_iff.mp later).1, TaskStatus.isTerminal] at hs

end Task

namespace Floor

variable {f f' : Floor} {d : Deed} {i : Nat} {t : Task}

theorem exists_of_face (h : f'.face? i = f.face? i) (ht : f'.task? i = some t) :
    ∃ t₀, f.task? i = some t₀ ∧ t.face = t₀.face := by
  rw [face?, face?, ht] at h
  obtain ⟨t₀, ht₀, hface⟩ := Option.map_eq_some_iff.mp h.symm
  exact ⟨t₀, ht₀, hface.symm⟩

def Lawful (f : Floor) : Prop := ∀ i t, f.task? i = some t → t.Lawful

theorem Lawful.replace (h : f.Lawful) {k : Nat} {u : Task} (hu : u.Lawful)
    (task : ∀ i, f'.task? i = if k = i then some u else f.task? i) : f'.Lawful := by
  intro i t ht
  rw [task] at ht
  split at ht
  next =>
    obtain rfl := Option.some.inj ht
    exact hu
  next => exact h i t ht

theorem Lawful.change (h : f.Lawful) (hc : Change f d f') : f'.Lawful := by
  cases hc with
  | create tasks =>
      intro i t ht
      have ht : f'.workshop.tasks[i]? = some t := ht
      rw [tasks] at ht
      rcases getElem?_concat_cases ht with ht | ⟨-, rfl⟩
      · exact h i t ht
      · exact Task.lawful_new ..
  | update ht hu task => exact h.replace ((h _ _ ht).update hu) task
  | refuse => exact h
  | fail ht task =>
      have before := h _ _ ht
      refine h.replace ?_ task
      exact ⟨before.last, before.shown, before.forward⟩
  | begin now _ task =>
      intro i t ht
      rcases task i with same | ⟨-, settled⟩
      · exact h i t (same ▸ ht)
      · rw [settled] at ht
        obtain ⟨t₀, ht₀, rfl⟩ := Option.map_eq_some_iff.mp ht
        exact (h i t₀ ht₀).settle now
  | quiet _ face =>
      intro i t ht
      obtain ⟨t₀, ht₀, hface⟩ := exists_of_face (face i) ht
      exact (h i t₀ ht₀).congr hface
  | foreign _ tasks =>
      intro i t ht
      have ht : f'.workshop.tasks[i]? = some t := ht
      rw [tasks] at ht
      exact h i t ht

theorem lawful_of_run {reports : Bool} {ds : List Deed} (run : Run step (.empty reports) ds f) :
    f.Lawful := by
  refine run.invariant (fun i t ht => ?_) fun _ _ _ h hs => h.change (step_change hs)
  simp at ht

theorem update_cases (ht : f.task? i = some t) (now : Instant) (s : TaskStatus) :
    match f.workshop.update i now s with
    | .ok _ => t.status.state.canBecome s.state = true
    | .error fault => t.status.state.canBecome s.state = false ∧
        fault = .invalidTransition t.identity t.status.state s.state ∧
        f.step (.update i now s) = some f := by
  have ht' : f.workshop.task? i = some t := ht
  cases hs : t.status.state.canBecome s.state with
  | true =>
      have updated : (f.workshop.update i now s).isOk = true := by
        simp only [Workshop.update, ht', Task.update, hs, if_true]
        split <;> rfl
      cases hu : f.workshop.update i now s with
      | ok w => rfl
      | error e => simp [hu, Except.isOk, Except.toBool] at updated
  | false =>
      have refused : f.workshop.update i now s =
          .error (.invalidTransition t.identity t.status.state s.state) := by
        simp [Workshop.update, ht', Task.update, hs, bind, Except.bind]
      rw [refused]
      refine ⟨rfl, rfl, ?_⟩
      rw [step, ht, refused]
      rfl

/-- After any deeds of anybody, a task stands and is seen where it has published last; what it has
published goes no step back and has nothing after a terminal status; and an update of it fails
exactly if it would leave a terminal status or go back, which changes nothing. -/
theorem status_history {reports : Bool} {ds : List Deed} (run : Run step (.empty reports) ds f)
    (ht : f.task? i = some t) :
    t.status = t.published.getLast?.getD .initial ∧ t.shown = t.status ∧
      t.published.Pairwise (fun a b => a.state.rank ≤ b.state.rank) ∧
      (∀ l s r, t.published = l ++ s :: r → s.isTerminal = true → r = []) ∧
      ∀ now s,
        match f.workshop.update i now s with
        | .ok _ => t.status.isTerminal = false ∧ t.status.state.rank ≤ s.state.rank
        | .error fault => (t.status.isTerminal = true ∨ s.state.rank < t.status.state.rank) ∧
            fault = .invalidTransition t.identity t.status.state s.state ∧
            f.step (.update i now s) = some f := by
  have h := lawful_of_run run i t ht
  refine ⟨h.last, h.shown, h.forward_rank, fun _ _ _ => h.terminal_last, fun now s => ?_⟩
  have outcome := update_cases ht now s
  split at outcome
  next => exact State.canBecome_iff.mp outcome
  next =>
    obtain ⟨refused, outcome⟩ := outcome
    refine ⟨?_, outcome⟩
    rw [Bool.eq_false_iff, ne_eq, State.canBecome_iff, not_and_or, Bool.not_eq_false,
      Nat.not_le] at refused
    exact refused

/-- The driver fails a build, which goes on until a processor gets to it and which is updated once
more after that. -/
def mishap (now : Instant) : List Deed := [
  .create ⟨⟨⟨1⟩, "app", "git", none, "make", .empty, []⟩, now, none⟩ now,
  .update 0 now ⟨.build, .running⟩,
  .fail 0 ⟨"lost"⟩,
  .tryTake,
  .update 0 now ⟨.collectResults, .running⟩,
  .process 0 now ⟨30⟩,
  .update 0 now ⟨.collectResults, .completed⟩]

theorem mishap_runs : ((mishap noon).foldlM step (.empty false)).isSome = true := by decide +kernel

theorem published_mishap :
    ((((mishap noon).foldlM step (.empty false)).get mishap_runs).task? 0).map (·.published) =
      some [⟨.build, .running⟩, ⟨.collectResults, .running⟩, ⟨.collectResults, .systemError⟩] := by
  decide +kernel

theorem status_history_mishap :
    ∃ f t, Run step (.empty false) (mishap noon) f ∧ f.task? 0 = some t ∧
      t.published.length = 3 ∧ t.status = ⟨.collectResults, .systemError⟩ ∧ t.shown = t.status ∧
      t.published.Pairwise (fun a b => a.state.rank ≤ b.state.rank) ∧
      f.step (.update 0 noon ⟨.update, .completed⟩) = some f := by
  have run := Run.iff_foldlM.mpr (Option.some_get mishap_runs).symm
  obtain ⟨t, ht, hp⟩ := Option.map_eq_some_iff.mp published_mishap
  obtain ⟨last, shown, forward, -, update⟩ := status_history run ht
  have hs : t.status = ⟨.collectResults, .systemError⟩ := by rw [last, hp]; rfl
  refine ⟨_, t, run, ht, by rw [hp]; rfl, hs, shown, forward, ?_⟩
  have update := update noon ⟨.update, .completed⟩
  split at update
  next => simp [hs, TaskStatus.isTerminal, State.isTerminal] at update
  next => exact update.2.2

end Floor

end Foreman
