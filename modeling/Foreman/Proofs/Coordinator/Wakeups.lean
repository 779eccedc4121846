import Foreman.Proofs.Coordinator.Waiting
import Foreman.Proofs.Run

/-!
Waiting for builds while the running set changes. A change of the set and the signal that follows it
are two steps, and a pass looks the dependencies up one by one, so anything may come between. Still
nobody waits in vain: who has seen every signal waits for a build that is in the set.
-/

namespace Foreman

/-- The running set and those who wait for builds in it. -/
structure Vigil where
  set : RunningSet
  /-- How many changes of the set were made and are not signalled yet. -/
  unsignalled : Nat
  waits : List DependencyWait
deriving DecidableEq

namespace Vigil

def empty : Vigil := ⟨.empty, 0, []⟩

inductive Event where
  | enter (id : BuildIdentity) (task : Nat)
  | leave (id : BuildIdentity) (task : Nat)
  /-- One of those who have changed the set gives the signal. -/
  | signal
  | subscribe (dependencies : List BuildIdentity)
  /-- A waiter looks the next dependency up, or begins to wait after its last one. -/
  | look (k : Nat)
  | wake (k : Nat)
deriving DecidableEq

/-- The set after a change that is still to be signalled. -/
def change (v : Vigil) (s : RunningSet) : Vigil :=
  { v with set := s, unsignalled := v.unsignalled + 1 }

def withWait (v : Vigil) (k : Nat) (w : DependencyWait) : Vigil :=
  { v with waits := v.waits.set k w }

def step (v : Vigil) : Event → Option Vigil
  | .enter id task => if v.set.contains id then none else some (v.change (v.set.enter id task))
  | .leave id task => if v.set.holds id task then some (v.change (v.set.leave id)) else none
  | .signal =>
    match v.unsignalled with
    | 0 => none
    | n + 1 => some { v with set := v.set.signal, unsignalled := n }
  | .subscribe dependencies => some { v with waits := v.waits ++ [.start dependencies v.set] }
  | .look k => v.waits[k]?.map fun w => v.withWait k (w.look v.set)
  | .wake k => v.waits[k]?.map fun w => v.withWait k (w.wake v.set)

/-- What one event can do. -/
inductive Move (v : Vigil) : Event → Vigil → Prop
  | enter {id : BuildIdentity} {task : Nat} (free : v.set.contains id = false) :
      Move v (.enter id task) (v.change (v.set.enter id task))
  | leave {id : BuildIdentity} {task : Nat} (held : v.set.holds id task = true) :
      Move v (.leave id task) (v.change (v.set.leave id))
  | signal {n : Nat} (owed : v.unsignalled = n + 1) :
      Move v .signal { v with set := v.set.signal, unsignalled := n }
  | subscribe (dependencies : List BuildIdentity) :
      Move v (.subscribe dependencies) { v with waits := v.waits ++ [.start dependencies v.set] }
  | look {k : Nat} {w : DependencyWait} (here : v.waits[k]? = some w) :
      Move v (.look k) (v.withWait k (w.look v.set))
  | wake {k : Nat} {w : DependencyWait} (here : v.waits[k]? = some w) :
      Move v (.wake k) (v.withWait k (w.wake v.set))

variable {v u : Vigil} {e : Event} {es : List Event} {k : Nat} {w : DependencyWait}

theorem step_move (h : v.step e = some u) : Move v e u := by
  cases e with
  | enter id task =>
      simp only [step] at h
      split at h
      next => cases h
      next free =>
        obtain rfl := Option.some.inj h
        exact .enter (Bool.eq_false_iff.mpr free)
  | leave id task =>
      simp only [step] at h
      split at h
      next held =>
        obtain rfl := Option.some.inj h
        exact .leave held
      next => cases h
  | signal =>
      simp only [step] at h
      split at h
      next => cases h
      next owed =>
        obtain rfl := Option.some.inj h
        exact .signal owed
  | subscribe dependencies =>
      obtain rfl := Option.some.inj h
      exact .subscribe dependencies
  | look k =>
      obtain ⟨w, here, rfl⟩ := Option.map_eq_some_iff.mp h
      exact .look here
  | wake k =>
      obtain ⟨w, here, rfl⟩ := Option.map_eq_some_iff.mp h
      exact .wake here

/-! ### Submissions and removals -/

/-- A submission that is accepted is a change of the set with its signal. -/
theorem submit_run {s : RunningSet} {id : BuildIdentity} {task : Nat}
    (h : v.set.submit id task = .ok s) :
    Run step v [.enter id task, .signal] { v with set := s } := by
  simp only [RunningSet.submit] at h
  split at h
  next => cases h
  next free =>
    cases h
    refine Run.iff_foldlM.mpr ?_
    simp [step, free, change]

/-- A removal that takes a task out is a change of the set with its signal. -/
theorem remove_run {id : BuildIdentity} {task : Nat} (held : v.set.holds id task = true) :
    Run step v [.leave id task, .signal] { v with set := v.set.remove id task } := by
  refine Run.iff_foldlM.mpr ?_
  simp [step, held, change, RunningSet.remove]

/-! ### Watching over a wait -/

/-- What a wait can rely on. -/
structure Sound (v : Vigil) (w : DependencyWait) : Prop where
  /-- It has seen no signal that was not given. -/
  seen : w.seen ≤ v.set.signals
  ahead : ∀ ids, w.ahead = some ids → ids ⊆ w.dependencies
  waiting : w.ahead = none → w.found ≠ 0
  /-- What a pass has found is still there unless a signal has come since the pass began or is still to
  come. -/
  awake : w.found ≠ 0 → w.seen = v.set.signals → v.unsignalled = 0 →
    ∃ id ∈ w.dependencies, v.set.contains id = true

theorem sound_start (v : Vigil) (dependencies : List BuildIdentity) :
    Sound v (.start dependencies v.set) where
  seen := Nat.le_refl _
  ahead ids h := by
    obtain rfl := Option.some.inj h
    exact List.Subset.refl _
  waiting h := by cases h
  awake h := absurd rfl h

/-- After a change its own signal is still to come. -/
theorem Sound.change (h : Sound v w) {s : RunningSet} (same : s.signals = v.set.signals) :
    Sound (v.change s) w where
  seen := same ▸ h.seen
  ahead := h.ahead
  waiting := h.waiting
  awake _ _ signalled := by cases signalled

/-- A signal is one that nobody has seen before. -/
theorem Sound.signal (h : Sound v w) (n : Nat) :
    Sound { v with set := v.set.signal, unsignalled := n } w where
  seen := Nat.le_succ_of_le h.seen
  ahead := h.ahead
  waiting := h.waiting
  awake _ here := absurd (here ▸ h.seen) (Nat.not_succ_le_self _)

theorem Sound.look (h : Sound v w) : Sound v (w.look v.set) := by
  unfold DependencyWait.look
  split
  next id ids ahead =>
    -- Found now, it is there in this state; found before, the signals tell whether it still is.
    have listed : id :: ids ⊆ w.dependencies := h.ahead _ ahead
    refine ⟨h.seen, fun ids' heq => ?_, fun idle => ?_, fun found seen signalled => ?_⟩
    · obtain rfl := Option.some.inj heq
      exact List.Subset.trans (List.subset_cons_self id ids) listed
    · cases idle
    · by_cases inside : v.set.contains id = true
      · exact ⟨id, listed List.mem_cons_self, inside⟩
      · exact h.awake (by simpa [inside] using found) seen signalled
  next ahead =>
    split
    next => exact h
    next found => exact ⟨h.seen, fun _ idle => (by cases idle), fun _ => found, h.awake⟩
  next => exact h

theorem Sound.wake (h : Sound v w) : Sound v (w.wake v.set) := by
  unfold DependencyWait.wake
  split
  next => exact sound_start v w.dependencies
  next => exact h

theorem Sound.others {waits : List DependencyWait} (h : Sound v w) :
    Sound { v with waits } w := ⟨h.seen, h.ahead, h.waiting, h.awake⟩

theorem sound_step (m : Move v e u) (before : ∀ w ∈ v.waits, Sound v w) :
    ∀ w ∈ u.waits, Sound u w := by
  intro w hw
  cases m with
  | enter => exact (before w hw).change rfl
  | leave => exact (before w hw).change rfl
  | signal => exact (before w hw).signal _
  | subscribe dependencies =>
      rcases List.mem_append.mp hw with hw | hw
      · exact (before w hw).others
      · obtain rfl := List.mem_singleton.mp hw
        exact (sound_start v dependencies).others
  | look here =>
      rcases List.mem_or_eq_of_mem_set hw with hw | rfl
      · exact (before w hw).others
      · exact (before _ (List.mem_of_getElem? here)).look.others
  | wake here =>
      rcases List.mem_or_eq_of_mem_set hw with hw | rfl
      · exact (before w hw).others
      · exact (before _ (List.mem_of_getElem? here)).wake.others

theorem sound_of_run (run : Run step .empty es v) : ∀ w ∈ v.waits, Sound v w := by
  induction run with
  | nil => simp [empty]
  | snoc _ last ih => exact sound_step (step_move last) ih

/-! ### Waking up -/

theorem getElem?_withWait (here : v.waits[k]? = some w) (w' : DependencyWait) :
    (v.withWait k w').waits[k]? = some w' :=
  List.getElem?_set_self (List.getElem?_eq_some_iff.mp here).1

theorem withWait_withWait (v : Vigil) (k : Nat) (w w' : DependencyWait) :
    (v.withWait k w).withWait k w' = v.withWait k w' := by
  simp [withWait]

theorem withWait_self (here : v.waits[k]? = some w) : v.withWait k w = v := by
  obtain ⟨inside, rfl⟩ := List.getElem?_eq_some_iff.mp here
  simp [withWait]

/-- While nothing else happens a waiter looks up one dependency after the other. -/
theorem looks_run (here : v.waits[k]? = some w) (n : Nat) :
    Run step v (List.replicate n (.look k)) (v.withWait k (Nat.repeat (·.look v.set) n w)) := by
  induction n with
  | zero =>
      rw [show v.withWait k (Nat.repeat (·.look v.set) 0 w) = v from withWait_self here]
      exact .nil
  | succ n ih =>
      rw [List.replicate_succ']
      refine ih.snoc ?_
      simp only [step, getElem?_withWait here, Option.map_some, withWait_withWait]
      rfl

/-- Who has missed a signal and has nothing to wait for any more finds that out. -/
theorem wake_run (here : v.waits[k]? = some w) (waiting : w.isWaiting = true)
    (missed : w.seen ≠ v.set.signals) (gone : ∀ id ∈ w.dependencies, v.set.contains id = false) :
    Run step v (.wake k :: List.replicate w.dependencies.length (.look k))
      (v.withWait k (.after w.dependencies v.set.signals 0)) := by
  have again : w.wake v.set = .start w.dependencies v.set := by
    simp [DependencyWait.wake, DependencyWait.start, waiting, missed]
  have first : Run step v [.wake k] (v.withWait k (.start w.dependencies v.set)) :=
    .snoc .nil (by simp [step, here, again])
  have found : Nat.repeat (DependencyWait.look · v.set) w.dependencies.length
      (.start w.dependencies v.set) = .after w.dependencies v.set.signals 0 := by
    have pass := DependencyWait.repeat_look w.dependencies w.dependencies v.set.signals 0 v.set
    rw [DependencyWait.pending_eq_zero.mpr gone] at pass
    exact pass
  have rest := looks_run (getElem?_withWait here (.start w.dependencies v.set)) w.dependencies.length
  rw [withWait_withWait] at rest
  exact first.trans (found ▸ rest)

/-- In every state that can be reached, who waits and has seen every signal waits for a build that is in
the set, unless a change of the set is still to be signalled. So who waits although all its
dependencies have left has missed a signal, and the next pass is its last one. -/
theorem no_wakeup_lost (run : Run step .empty es v) (here : v.waits[k]? = some w)
    (waiting : w.isWaiting = true) (signalled : v.unsignalled = 0) :
    (w.seen = v.set.signals → ∃ id ∈ w.dependencies, v.set.contains id = true) ∧
      ((∀ id ∈ w.dependencies, v.set.contains id = false) →
        ∃ u, Run step v (.wake k :: List.replicate w.dependencies.length (.look k)) u ∧
          u.set = v.set ∧ ∃ w', u.waits[k]? = some w' ∧ w'.isOver = true) := by
  have sound : Sound v w := sound_of_run run w (List.mem_of_getElem? here)
  have found : w.found ≠ 0 := sound.waiting (Option.isNone_iff_eq_none.mp waiting)
  have awake : w.seen = v.set.signals → ∃ id ∈ w.dependencies, v.set.contains id = true :=
    fun seen => sound.awake found seen signalled
  refine ⟨awake, fun gone => ?_⟩
  have missed : w.seen ≠ v.set.signals := by
    intro seen
    obtain ⟨id, listed, inside⟩ := awake seen
    exact Bool.false_ne_true ((gone id listed).symm.trans inside)
  exact ⟨_, wake_run here waiting missed gone, rfl, _, getElem?_withWait here _,
    DependencyWait.isOver_after ..⟩

def first : BuildIdentity := ⟨⟨1⟩⟩

def second : BuildIdentity := ⟨⟨2⟩⟩

/-- A dependency leaves right after it was looked up, and its signal comes when the waiter waits. -/
def departure : List Event :=
  [.enter first 0, .enter second 1, .signal, .signal, .subscribe [first, second], .look 0,
    .leave first 0, .look 0, .look 0, .signal]

/-- The waiter looks again, and goes on waiting for the other one. -/
def secondLook : List Event := [.wake 0, .look 0, .look 0, .look 0]

theorem secondLook_runs : ((departure ++ secondLook).foldlM step .empty).isSome = true := by
  decide +kernel

def watchful : Vigil := ((departure ++ secondLook).foldlM step .empty).get secondLook_runs

theorem no_wakeup_lost_departure :
    ∃ w, watchful.waits[0]? = some w ∧ w.isWaiting = true ∧ w.seen = watchful.set.signals ∧
      watchful.unsignalled = 0 ∧ watchful.set.contains first = false ∧
      ∃ id ∈ w.dependencies, watchful.set.contains id = true := by
  have run : Run step .empty (departure ++ secondLook) watchful :=
    Run.iff_foldlM.mpr (Option.some_get secondLook_runs).symm
  have here : watchful.waits[0]? = some ⟨[first, second], 3, none, 1⟩ := by decide +kernel
  have seen : 3 = watchful.set.signals := by decide +kernel
  have signalled : watchful.unsignalled = 0 := by decide +kernel
  have gone : watchful.set.contains first = false := by decide +kernel
  exact ⟨_, here, rfl, seen, signalled, gone, (no_wakeup_lost run here rfl signalled).1 seen⟩

end Vigil

end Foreman
