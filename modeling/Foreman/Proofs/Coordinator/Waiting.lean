import Foreman.DependencyWait

/-!
What a whole pass over the dependencies finds while the running set stays as it is: how many of them
are in the set. The wait is over if there are none, and else goes on until the next signal.
-/

namespace Foreman

namespace DependencyWait

/-- How many of the dependencies are in the running set. -/
def pending (dependencies : List BuildIdentity) (s : RunningSet) : Nat :=
  dependencies.countP s.contains

theorem pending_eq_zero {dependencies : List BuildIdentity} {s : RunningSet} :
    pending dependencies s = 0 ↔ ∀ id ∈ dependencies, s.contains id = false := by
  simp [pending, List.countP_eq_zero]

/-- What is left of a wait after a pass that has found that many builds. -/
def after (dependencies : List BuildIdentity) (seen found : Nat) : DependencyWait :=
  ⟨dependencies, seen, if found = 0 then some [] else none, found⟩

theorem isOver_after (dependencies : List BuildIdentity) (seen found : Nat) :
    (after dependencies seen found).isOver = decide (found = 0) := by
  by_cases h : found = 0 <;> simp [isOver, after, h]

theorem repeat_comm {α : Type} (f : α → α) (n : Nat) (a : α) :
    Nat.repeat f n (f a) = f (Nat.repeat f n a) := by
  induction n with
  | zero => rfl
  | succ n ih => exact congrArg f ih

theorem repeat_look (dependencies ids : List BuildIdentity) (seen found : Nat) (s : RunningSet) :
    Nat.repeat (look · s) ids.length ⟨dependencies, seen, some ids, found⟩ =
      ⟨dependencies, seen, some [], found + pending ids s⟩ := by
  induction ids generalizing found with
  | nil => rfl
  | cons id ids ih =>
      rw [List.length_cons, Nat.repeat, ← repeat_comm (look · s)]
      by_cases h : s.contains id = true
      · have hlook : look ⟨dependencies, seen, some (id :: ids), found⟩ s =
            ⟨dependencies, seen, some ids, found + 1⟩ := by simp [look, h]
        rw [hlook, ih, pending, pending, List.countP_cons_of_pos h]
        congr 1
        omega
      · have hlook : look ⟨dependencies, seen, some (id :: ids), found⟩ s =
            ⟨dependencies, seen, some ids, found⟩ := by simp [look, h]
        rw [hlook, ih, pending, pending, List.countP_cons_of_neg h]

theorem pass_eq (dependencies : List BuildIdentity) (seen : Nat) (s : RunningSet) :
    pass ⟨dependencies, seen, some dependencies, 0⟩ s =
      after dependencies seen (pending dependencies s) := by
  rw [pass, Nat.repeat, repeat_look, Nat.zero_add]
  by_cases h : pending dependencies s = 0 <;> simp [look, after, h]

theorem pass_start (dependencies : List BuildIdentity) (s : RunningSet) :
    (start dependencies s).pass s = after dependencies s.signals (pending dependencies s) :=
  pass_eq ..

/-- A waiter that has missed a signal looks its dependencies up again. -/
theorem pass_wake {dependencies : List BuildIdentity} {seen found : Nat} {s : RunningSet}
    (h : seen ≠ s.signals) (hf : found ≠ 0) :
    ((after dependencies seen found).wake s).pass s =
      after dependencies s.signals (pending dependencies s) := by
  have hw : (after dependencies seen found).wake s =
      ⟨dependencies, s.signals, some dependencies, 0⟩ := by
    simp [wake, isWaiting, after, h, hf]
  rw [hw, pass_eq]

end DependencyWait

end Foreman
