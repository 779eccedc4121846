import Foreman.RunningSet
import Foreman.Task
import Foreman.TaskQueue

/-!
The tasks with the running set and the queue that they report to. A task is known by its number,
its place in the order in which the tasks were made.
-/

namespace Foreman

structure QueuedTask where
  task : Nat
  outcome : Outcome
deriving DecidableEq

structure Workshop where
  tasks : List Task
  running : RunningSet
  queue : TaskQueue QueuedTask

namespace Workshop

def empty : Workshop := ⟨[], .empty, .empty⟩

def task? (w : Workshop) (i : Nat) : Option Task := w.tasks[i]?

def change (w : Workshop) (i : Nat) (f : Task → Task) : Workshop :=
  { w with tasks := w.tasks.modify i f }

/-- Makes a task; its number is the count of those before it. -/
def create (w : Workshop) (t : Task) : Workshop := { w with tasks := w.tasks ++ [t] }

def enqueue (w : Workshop) (i : Nat) : Option Outcome → Workshop
  | some o => { w with queue := w.queue.add ⟨i, o⟩ }
  | none => w

def submit (w : Workshop) (i : Nat) : Except Fault Workshop :=
  match w.task? i with
  | some t => return { w with running := ← w.running.submit t.identity i }
  | none => .ok w

def remove (w : Workshop) (i : Nat) : Workshop :=
  match w.task? i with
  | some t => { w with running := w.running.remove t.identity i }
  | none => w

def update (w : Workshop) (i : Nat) (now : Instant) (s : TaskStatus) : Except Fault Workshop :=
  match w.task? i with
  | some t => do
    let (t, outcome) ← t.update now s
    return (w.change i fun _ => t).enqueue i outcome
  | none => .ok w

def fail (w : Workshop) (i : Nat) (e : DriverError) : Workshop :=
  match w.task? i with
  | some t =>
    let (t, outcome) := t.fail e
    (w.change i fun _ => t).enqueue i outcome
  | none => w

/-- The task has its result handed out. -/
def handOut (w : Workshop) (i : Nat) (r : BuildResult) : Workshop :=
  w.change i fun t => { t with completion := some r }

/-- What is done to complete a task. -/
inductive Act where
  | leave (i : Nat)
  | send (i : Nat) (r : BuildResult)
deriving DecidableEq

def act (w : Workshop) : Act → Workshop
  | .leave i => w.remove i
  | .send i r => w.handOut i r

/-- The acts of a completion in order. Once the result is claimed the task leaves the running set, and
only then is the result handed out, so that whoever gets it may submit the build again. -/
def completing (w : Workshop) (i : Nat) : Except Fault (List Act) :=
  match w.task? i with
  | some t => do
    let r ← t.claim
    return [.leave i, .send i r]
  | none => .ok []

def complete (w : Workshop) (i : Nat) : Except Fault Workshop := do
  return (← w.completing i).foldl act w

/-- Settles the status of a task that was queued for a failure of the driver. -/
def settle (w : Workshop) (e : QueuedTask) (now : Instant) : Workshop :=
  match e.outcome with
  | .finished _ => w
  | .errored _ => w.change e.task (·.settle now)

end Workshop

end Foreman
