import Foreman.Task

/-!
One who watches a task: its status, the stream of its statuses, of which there is one, and its
result, which comes once.
-/

namespace Foreman

structure Watcher where
  /-- The revision of the status that was seen. -/
  revision : Nat
  /-- Whether the stream was taken, and whether it is still held. -/
  tookStream : Bool
  holdsStream : Bool
  /-- How many statuses were read from the stream. -/
  read : Nat
  hasResult : Bool
  gaveUpResult : Bool
deriving DecidableEq

/-- What one who waits for a result finds. -/
inductive ResultState where
  | pending
  | ready (r : BuildResult)
  /-- It was taken before. -/
  | closed
  /-- Nobody waits for it any more. -/
  | dropped

namespace Watcher

/-- From the making of the task on. -/
def start : Watcher := ⟨0, false, false, 0, false, false⟩

def hasChanged (w : Watcher) (t : Task) : Bool := w.revision < t.revision

def look (w : Watcher) (t : Task) : Watcher := { w with revision := t.revision }

def takeStream (w : Watcher) : Watcher :=
  if w.tookStream then w else { w with tookStream := true, holdsStream := true }

def dropStream (w : Watcher) : Watcher := { w with holdsStream := false }

/-- The statuses that were published since the last reading, for one who holds the stream. -/
def news? (w : Watcher) (t : Task) : Option (List TaskStatus) :=
  if w.holdsStream then some (t.published.drop w.read) else none

def readStream (w : Watcher) (t : Task) : Watcher := { w with read := t.published.length }

def result (w : Watcher) (t : Task) : ResultState :=
  if w.gaveUpResult then .dropped
  else if w.hasResult then .closed
  else match t.completion with
    | some r => .ready r
    | none => .pending

def takeResult (w : Watcher) (t : Task) : Watcher := { w with hasResult := t.isCompleted }

def dropResult (w : Watcher) : Watcher := { w with gaveUpResult := true }

end Watcher

end Foreman
