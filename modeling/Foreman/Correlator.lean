import Foreman.Instant
import Foreman.Table
import Foreman.Workflow

/-!
Listeners for the events of remote processes, by correlation id and event type. A listener is taken
out when it is called, and a process is forgotten with its last listener.
-/

namespace Foreman

structure Registration (L : Type) where
  /-- The number of the start call that made it. -/
  call : Nat
  listener : L

structure PendingProcess (L : Type) where
  process : String
  startedAt : Instant
  listeners : Table EventType (Registration L)

structure Correlator (L : Type) where
  processes : Table CorrelationId (PendingProcess L)
  /-- How many start calls there were; the next one takes this number. -/
  calls : Nat

namespace Correlator

variable {L : Type}

def empty : Correlator L := ⟨.empty, 0⟩

def isPending (c : Correlator L) (id : CorrelationId) : Bool := c.processes.contains id

def pendingCount (c : Correlator L) : Nat := c.processes.size

/-- The newest registration for an event of a process. -/
def registration? (c : Correlator L) (id : CorrelationId) (e : EventType) :
    Option (Registration L) :=
  (c.processes.get? id).bind (·.listeners.get? e)

/-- Keeps a process only while it has listeners. -/
def keep (c : Correlator L) (id : CorrelationId) (p : PendingProcess L) : Correlator L :=
  { c with
    processes := if p.listeners.isEmpty then c.processes.erase id else c.processes.insert id p }

/-- The start call: each of its listeners takes the place of an older one for the same event. -/
def register (c : Correlator L) (id : CorrelationId) (process : String) (now : Instant)
    (listeners : List (EventType × L)) : Correlator L :=
  if listeners.isEmpty then { c with calls := c.calls + 1 }
  else
    let p := (c.processes.get? id).getD ⟨process, now, .empty⟩
    { processes := c.processes.insert id { p with
        listeners := listeners.foldl (fun t l => t.insert l.1 ⟨c.calls, l.2⟩) p.listeners }
      calls := c.calls + 1 }

/-- Takes back what is left of the registrations of a start call. -/
def withdraw (c : Correlator L) (id : CorrelationId) (call : Nat) : Correlator L :=
  match c.processes.get? id with
  | some p => c.keep id { p with listeners := p.listeners.filter fun _ r => r.call ≠ call }
  | none => c

/-- Takes a registration out. -/
def consume (c : Correlator L) (id : CorrelationId) (e : EventType) : Correlator L :=
  match c.processes.get? id with
  | some p => c.keep id { p with listeners := p.listeners.erase e }
  | none => c

/-- Forgets a process with all its listeners. -/
def abandon (c : Correlator L) (id : CorrelationId) : Correlator L :=
  { c with processes := c.processes.erase id }

end Correlator

end Foreman
