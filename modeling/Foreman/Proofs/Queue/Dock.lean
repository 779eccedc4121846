import Foreman.Proofs.Workshop.Presence

/-!
The queue of finished builds with all who use it. Whoever puts an entry in announces it first, and
whoever is handed one counts it no more afterwards, so others may come between. Takers wait in line:
processors, which process what they get and get in line again until they are stopped, and guests, who
wait for one entry only and may give up. A processor that has been handed an entry is not aware of a stop
before it is done with it.
-/

namespace Foreman

namespace TaskQueue

variable {α : Type}

/-- Gets the first entry past the line if nobody waits; it is still counted. -/
def pass? (q : TaskQueue α) : Option (α × TaskQueue α) :=
  match q.takers, q.entries with
  | [], a :: entries => some (a, { q with entries })
  | _, _ => none

theorem tryTake?_eq (q : TaskQueue α) : q.tryTake? = q.pass?.map fun r => (r.1, r.2.discount) := by
  obtain ⟨entries, takers, count⟩ := q
  cases takers <;> cases entries <;> rfl

end TaskQueue

namespace Coordinator

def withQueue (c : Coordinator) (queue : TaskQueue QueuedTask) : Coordinator :=
  { c with workshop := { c.workshop with queue } }

/-- The entries that processors have in hand. -/
def hands (c : Coordinator) : List (Option Nat × QueuedTask) :=
  (List.range c.processors.length).filterMap fun p => (c.hand? p).map (some p, ·)

end Coordinator

structure Dock where
  coordinator : Coordinator
  /-- The takers that are no processors. -/
  guests : List Nat
  /-- The entries that were announced and are not put in yet. -/
  arriving : List QueuedTask
  /-- The entries that were handed out and are still counted, with their takers; one that was handed
  out past the line has none. -/
  leaving : List (Option Nat × QueuedTask)

namespace Dock

def empty (reports : Bool) : Dock := ⟨.empty reports, [], [], []⟩

def workshop (d : Dock) : Workshop := d.coordinator.workshop

def queue (d : Dock) : TaskQueue QueuedTask := d.workshop.queue

def entries (d : Dock) : List QueuedTask := d.queue.entries

def takers (d : Dock) : List Nat := d.queue.takers

def task? (d : Dock) (i : Nat) : Option Task := d.workshop.task? i

def hand? (d : Dock) (p : Nat) : Option QueuedTask := d.coordinator.hand? p

/-- How many have been takers. -/
def size (d : Dock) : Nat := d.coordinator.processors.length

/-- The entries that were handed out and are not settled yet, with their takers. -/
def pending (d : Dock) : List (Option Nat × QueuedTask) := d.leaving ++ d.coordinator.hands

/-- Those who are in line or have an entry. -/
def places (d : Dock) : List Nat := d.takers ++ d.pending.filterMap (·.1)

/-- The entries that were announced and are not settled yet. -/
def load (d : Dock) : List QueuedTask := d.arriving ++ d.entries ++ d.pending.map (·.2)

def withCoordinator (d : Dock) (c : Coordinator) : Dock := { d with coordinator := c }

def withWorkshop (d : Dock) (w : Workshop) : Dock :=
  d.withCoordinator { d.coordinator with workshop := w }

def withQueue (d : Dock) (q : TaskQueue QueuedTask) : Dock :=
  d.withCoordinator (d.coordinator.withQueue q)

inductive Act where
  | create (j : BuildJob) (now : Instant)
  /-- Somebody submits, removes or completes a task. -/
  | call (c : Workshop.Call)
  | announce (e : QueuedTask)
  /-- Puts in an entry that was announced. -/
  | put (k : Nat)
  /-- Gets an entry past the line. -/
  | pass
  /-- A guest gets in line. -/
  | wait
  | cancel (p : Nat)
  | spawn
  | stop (p : Nat)
  | handOut
  /-- The taker of an entry counts it no more; a processor begins with it. -/
  | discount (k : Nat) (now : Instant) (id : ResourceId)
  | saved (p : Nat)
  | reported (p : Nat)

/-- A processor is aware of a stop at once unless it was handed an entry just now. -/
def stop (d : Dock) (p : Nat) : Coordinator :=
  if some p ∈ d.leaving.map (·.1) then
    { d.coordinator with
      processors := d.coordinator.processors.modify p fun r => { r with stopping := true } }
  else d.coordinator.stop p

/-- The entry is handed out and still counted. -/
def handed (d : Dock) (taker : Option Nat) (e : QueuedTask) (q : TaskQueue QueuedTask) : Dock :=
  { d.withQueue q with leaving := d.leaving ++ [(taker, e)] }

/-- The taker of the entry counts it no more. -/
def discounted (d : Dock) (k : Nat) : Dock :=
  { d.withQueue d.queue.discount with leaving := d.leaving.eraseIdx k }

/-- One act, if it is possible. -/
def step (d : Dock) : Act → Option Dock
  | .create j now => some (d.withWorkshop (d.workshop.create (.new j now)))
  | .call c => (d.task? c.task).map fun _ => d.withWorkshop (d.workshop.perform c)
  | .announce e => (d.task? e.task).map fun _ =>
    { d.withQueue d.queue.announce with arriving := d.arriving ++ [e] }
  | .put k => (d.arriving[k]?).map fun e =>
    { d.withQueue (d.queue.put e) with arriving := d.arriving.eraseIdx k }
  | .pass => d.queue.pass?.map fun (e, q) => d.handed none e q
  | .wait => some
    { d.withCoordinator ((Rehearsal.Bench.addProcessor d.coordinator).withQueue
        (d.queue.wait d.size)) with
      guests := d.guests ++ [d.size] }
  | .cancel p => if p ∈ d.guests then some (d.withQueue (d.queue.cancel p)) else none
  | .spawn => some (d.withCoordinator d.coordinator.spawn)
  | .stop p => some (d.withCoordinator (d.stop p))
  | .handOut => d.queue.handOut?.map fun (p, e, q) => d.handed (some p) e q
  | .discount k now id => do
    let (taker, e) ← d.leaving[k]?
    match taker.filter (· ∉ d.guests) with
    | some p =>
      ((d.discounted k).coordinator.accept p e now id).map fun r => (d.discounted k).withCoordinator r.1
    | none => some (d.discounted k)
  | .saved p => (d.coordinator.saved p).map fun r => d.withCoordinator r.1
  | .reported p => (d.coordinator.reported p).map fun r => d.withCoordinator r.1

/-- What happens to entries and takers. -/
inductive Event where
  | put (e : QueuedTask)
  | joined (p : Nat)
  /-- Leaves the line without an entry. -/
  | quit (p : Nat)
  | handed (taker : Option Nat) (e : QueuedTask)
  /-- The entry is given to a guest or to one who got it past the line. -/
  | returned (taker : Option Nat) (e : QueuedTask)
  /-- The processor is done with the entry. -/
  | processed (p : Nat) (e : QueuedTask)
deriving DecidableEq

def Event.put? : Event → Option QueuedTask
  | .put e => some e
  | _ => none

def Event.joined? : Event → Option Nat
  | .joined p => some p
  | _ => none

def Event.quit? : Event → Option Nat
  | .quit p => some p
  | _ => none

def Event.handed? : Event → Option (Option Nat × QueuedTask)
  | .handed taker e => some (taker, e)
  | _ => none

/-- Who in the line is handed an entry. -/
def Event.served? : Event → Option Nat
  | .handed taker _ => taker
  | _ => none

/-- The entry has come to where it was to go. -/
def Event.settled? : Event → Option (Option Nat × QueuedTask)
  | .returned taker e => some (taker, e)
  | .processed p e => some (some p, e)
  | _ => none

/-- What happens in a change that `p` makes. -/
def ownEvents (d d' : Dock) (p : Nat) : List Event :=
  (match d.hand? p, d'.hand? p with
    | some e, none => [.processed p e]
    | _, _ => []) ++
  (if p ∈ d.takers ∧ p ∉ d'.takers then [.quit p] else []) ++
  (if p ∉ d.takers ∧ p ∈ d'.takers then [.joined p] else [])

/-- What happens in an act that leads to `d'`. -/
def eventsOf (d d' : Dock) : Act → List Event
  | .put k => (d.arriving[k]?).toList.map .put
  | .pass => d.queue.pass?.toList.map fun r => .handed none r.1
  | .handOut => d.queue.handOut?.toList.map fun r => .handed (some r.1) r.2.1
  | .discount k _ _ =>
    ((d.leaving[k]?).toList.filter fun r => r.1.all (· ∈ d.guests)).map fun r => .returned r.1 r.2
  | .wait | .spawn => d.ownEvents d' d.size
  | .cancel p | .stop p | .saved p | .reported p => d.ownEvents d' p
  | .create .. | .call _ | .announce _ => []

def events (d : Dock) (a : Act) : List Event :=
  match d.step a with
  | some d' => d.eventsOf d' a
  | none => []

section Whole

variable {d : Dock} {p : Nat} {e : QueuedTask} {now : Instant} {id : ResourceId}

/-- A processor begins with its entry. -/
theorem step_discount {k : Nat} (hk : d.leaving[k]? = some (some p, e)) (guest : p ∉ d.guests) :
    d.step (.discount k now id) = ((d.discounted k).coordinator.accept p e now id).map fun r =>
      (d.discounted k).withCoordinator r.1 := by
  simp [step, hk, Option.filter, guest]

/-! ### Whole operations -/

theorem eraseIdx_concat {α : Type} (l : List α) (a : α) : (l ++ [a]).eraseIdx l.length = l := by
  rw [List.eraseIdx_append_of_length_le (Nat.le_refl _), Nat.sub_self]
  exact List.append_nil l

theorem getElem?_handed (d : Dock) (taker : Option Nat) (e : QueuedTask) (q : TaskQueue QueuedTask) :
    (d.handed taker e q).leaving[d.leaving.length]? = some (taker, e) :=
  List.getElem?_concat_length ..

theorem discounted_handed (d : Dock) (taker : Option Nat) (e : QueuedTask)
    (q : TaskQueue QueuedTask) :
    (d.handed taker e q).discounted d.leaving.length = d.withQueue q.discount := by
  simp only [handed, discounted, eraseIdx_concat]
  rfl

theorem run_pair {d d' d'' : Dock} {a b : Act} (first : d.step a = some d')
    (second : d'.step b = some d'') : Run step d [a, b] d'' :=
  (Run.nil.snoc first).snoc second

theorem run_add {t : Task} (ht : d.task? e.task = some t) :
    Run step d [.announce e, .put d.arriving.length] (d.withQueue (d.queue.add e)) := by
  refine run_pair (congrArg (Option.map _) ht) ?_
  simp only [step, List.getElem?_concat_length, Option.map_some, eraseIdx_concat]
  rfl

theorem run_tryTake {q : TaskQueue QueuedTask} (h : d.queue.tryTake? = some (e, q)) :
    Run step d [.pass, .discount d.leaving.length now id] (d.withQueue q) := by
  rw [TaskQueue.tryTake?_eq] at h
  obtain ⟨⟨e, q⟩, hq, h⟩ := Option.map_eq_some_iff.mp h
  obtain ⟨rfl, rfl⟩ := Prod.mk.inj h
  refine run_pair (congrArg (Option.map _) hq) ?_
  simp only [step, getElem?_handed, discounted_handed]
  rfl

theorem run_take {c : Coordinator} {o : Option Errand} (h : d.coordinator.take now id = some (c, o))
    (own : ∀ p ∈ d.takers.head?, p ∉ d.guests) :
    Run step d [.handOut, .discount d.leaving.length now id] (d.withCoordinator c) := by
  simp only [Coordinator.take, TaskQueue.take?, Option.bind_eq_bind, Option.bind_eq_some_iff,
    Option.map_eq_some_iff] at h
  obtain ⟨_, ⟨⟨p, e, q⟩, hq, rfl⟩, ha⟩ := h
  have guest : p ∉ (d.handed (some p) e q).guests := by
    refine own p ?_
    unfold TaskQueue.handOut? at hq
    split at hq
    next ht _ =>
      obtain ⟨rfl, -⟩ := Prod.mk.inj (Option.some.inj hq)
      exact congrArg List.head? ht
    next => simp at hq
  refine run_pair (congrArg (Option.map _) hq) ?_
  dsimp only
  rw [step_discount (getElem?_handed d (some p) e q) guest, discounted_handed]
  exact congrArg (Option.map _) ha

end Whole

/-- What of a dock only concerns the queue and the entries on their way into it and out of it. -/
structure Books where
  queue : TaskQueue QueuedTask
  arriving : List QueuedTask
  leaving : List (Option Nat × QueuedTask)

def books (d : Dock) : Books := ⟨d.queue, d.arriving, d.leaving⟩

/-- What an act does to the books and to the hands of the processors, with what happens in it. -/
inductive Move (d d' : Dock) : List Event → Prop
  | quiet (books : d'.books = d.books) (hands : d'.coordinator.hands.Perm d.coordinator.hands) :
      Move d d' []
  | announce {e} (there : (d.task? e.task).isSome = true)
      (books : d'.books =
        { d.books with queue := d.queue.announce, arriving := d.arriving ++ [e] })
      (hands : d'.coordinator.hands.Perm d.coordinator.hands) : Move d d' []
  | put {k e} (he : d.arriving[k]? = some e)
      (books : d'.books =
        { d.books with queue := d.queue.put e, arriving := d.arriving.eraseIdx k })
      (hands : d'.coordinator.hands.Perm d.coordinator.hands) : Move d d' [.put e]
  | handOut {taker e takers entries} (ht : d.takers = taker.toList ++ takers)
      (he : d.entries = e :: entries)
      (books : d'.books =
        { d.books with
          queue := ⟨entries, takers, d.queue.count⟩
          leaving := d.leaving ++ [(taker, e)] })
      (hands : d'.coordinator.hands.Perm d.coordinator.hands) : Move d d' [.handed taker e]
  | join {p} (fresh : d.size ≤ p) (there : p < d'.size)
      (books : d'.books = { d.books with queue := d.queue.wait p })
      (hands : d'.coordinator.hands.Perm d.coordinator.hands) : Move d d' [.joined p]
  | quit {p} (hp : p ∈ d.takers) (books : d'.books = { d.books with queue := d.queue.cancel p })
      (hands : d'.coordinator.hands.Perm d.coordinator.hands) : Move d d' [.quit p]
  | deliver {k taker e} (he : d.leaving[k]? = some (taker, e)) (guest : ∀ p ∈ taker, p ∈ d.guests)
      (books : d'.books =
        { d.books with queue := d.queue.discount, leaving := d.leaving.eraseIdx k })
      (hands : d'.coordinator.hands.Perm d.coordinator.hands) : Move d d' [.returned taker e]
  | begin {k p e} (he : d.leaving[k]? = some (some p, e))
      (books : d'.books =
        { d.books with queue := d.queue.discount, leaving := d.leaving.eraseIdx k })
      (hands : d'.coordinator.hands.Perm ((some p, e) :: d.coordinator.hands)) : Move d d' []
  | finish {p e} (hands : d.coordinator.hands.Perm ((some p, e) :: d'.coordinator.hands))
      (completed : ∃ t, d'.task? e.task = some t ∧ t.isCompleted = true)
      (books : d'.books = d.books) : Move d d' [.processed p e]
  | rejoin {p e} (hands : d.coordinator.hands.Perm ((some p, e) :: d'.coordinator.hands))
      (completed : ∃ t, d'.task? e.task = some t ∧ t.isCompleted = true)
      (books : d'.books = { d.books with queue := d.queue.wait p }) :
      Move d d' [.processed p e, .joined p]

/-- Nobody is in two places, and all entries are counted and have their tasks. -/
structure Sound (d : Dock) : Prop where
  places : d.places.Nodup
  numbers : ∀ p ∈ d.places, p < d.size
  count : d.queue.count = d.entries.length + d.arriving.length + d.leaving.length
  tasks : ∀ e ∈ d.load, (d.task? e.task).isSome = true

end Dock

end Foreman
