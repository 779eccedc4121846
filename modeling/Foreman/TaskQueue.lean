/-!
A queue whose takers wait in line: the first entry goes to the taker that began to wait first. The
count of entries is kept apart from them; it grows before an entry is put in and shrinks after one
was handed out.
-/

namespace Foreman

structure TaskQueue (α : Type) where
  /-- Oldest first. -/
  entries : List α
  /-- Those who wait, by number, in the order in which they came. -/
  takers : List Nat
  count : Int

namespace TaskQueue

variable {α : Type}

def empty : TaskQueue α := ⟨[], [], 0⟩

def announce (q : TaskQueue α) : TaskQueue α := { q with count := q.count + 1 }

def put (q : TaskQueue α) (a : α) : TaskQueue α := { q with entries := q.entries ++ [a] }

def add (q : TaskQueue α) (a : α) : TaskQueue α := q.announce.put a

/-- Begins to wait. -/
def wait (q : TaskQueue α) (taker : Nat) : TaskQueue α := { q with takers := q.takers ++ [taker] }

/-- Gives up waiting. -/
def cancel (q : TaskQueue α) (taker : Nat) : TaskQueue α :=
  { q with takers := q.takers.filter (· ≠ taker) }

/-- Hands the first entry to the first taker; it is still counted. -/
def handOut? (q : TaskQueue α) : Option (Nat × α × TaskQueue α) :=
  match q.takers, q.entries with
  | taker :: takers, a :: entries => some (taker, a, { q with takers, entries })
  | _, _ => none

/-- Counts an entry no more that was handed out. -/
def discount (q : TaskQueue α) : TaskQueue α := { q with count := q.count - 1 }

def take? (q : TaskQueue α) : Option (Nat × α × TaskQueue α) :=
  q.handOut?.map fun (taker, a, q) => (taker, a, q.discount)

/-- Takes an entry past the line, which is possible only when nobody waits. -/
def tryTake? (q : TaskQueue α) : Option (α × TaskQueue α) :=
  match q.takers, q.entries with
  | [], a :: entries => some (a, { q with entries }.discount)
  | _, _ => none

end TaskQueue

end Foreman
