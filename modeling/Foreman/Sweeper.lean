import Foreman.Notifier

/-!
Sweeping at intervals: a sweeper at work detaches the disabled clients whenever its time is due. It
works until it notices that its handle was dropped or asked it to stop. Times are in milliseconds since
some fixed moment.
-/

namespace Foreman

inductive Sweeper.Duty where
  /-- The handle is alive. -/
  | held
  /-- The handle was dropped, or asked the sweeper to stop and waits for its end. The sweeper has not
  noticed yet. -/
  | cancelled
  | ended
deriving DecidableEq

structure Sweeper where
  interval : Nat
  due : Nat
  duty : Sweeper.Duty
  interval_pos : 0 < interval

namespace Sweeper

/-- The first round comes one interval after the start. -/
def start (interval now : Nat) (h : 0 < interval) : Sweeper := ⟨interval, now + interval, .held, h⟩

/-- How late a round may be without putting off the next one. -/
def tolerance : Nat := 5

/-- After a round at time `now` the next one is an interval after this one was due, or after `now`
if this one came too late. -/
def next (s : Sweeper) (now : Nat) : Sweeper :=
  { s with due := (if s.due + tolerance < now then now else s.due) + s.interval }

theorem due_lt_next (s : Sweeper) (now : Nat) : s.due < (s.next now).due := by
  have := s.interval_pos
  simp only [next]
  split <;> omega

/-- All rounds that are due at time `now`. -/
def catchUp (s : Sweeper) (now : Nat) : Sweeper :=
  if s.due ≤ now then (s.next now).catchUp now else s
termination_by now + 1 - s.due
decreasing_by
  have := s.due_lt_next now
  omega

end Sweeper

/-- A notifier, the time, and all sweepers that were started, by number. -/
structure Patrol (C : Type) where
  notifier : Notifier C
  now : Nat
  sweepers : Table Nat Sweeper

namespace Patrol

variable {C : Type} [Recipient C]

/-- Runs the rounds of one sweeper that are due. -/
def round (p : Patrol C) (k : Nat) : Patrol C :=
  match p.sweepers.get? k with
  | some s =>
    if s.duty ≠ .ended ∧ s.due ≤ p.now then
      { p with notifier := p.notifier.cleanUp, sweepers := p.sweepers.insert k (s.catchUp p.now) }
    else p
  | none => p

/-- Moves the clock and then runs what is due. -/
def advance (p : Patrol C) (ms : Nat) : Patrol C :=
  p.sweepers.keys.foldl round { p with now := p.now + ms }

def start (p : Patrol C) (k interval : Nat) (h : 0 < interval) : Patrol C :=
  { p with sweepers := p.sweepers.insert k (.start interval p.now h) }

/-- Puts the sweeper from one duty on another. -/
def post (p : Patrol C) (k : Nat) (was becomes : Sweeper.Duty) : Option (Patrol C) :=
  match p.sweepers.get? k with
  | some s =>
    if s.duty = was then
      some { p with sweepers := p.sweepers.insert k { s with duty := becomes } }
    else none
  | none => none

/-- The handle is dropped, or asks the sweeper to stop. This makes itself felt at the next look only. -/
def cancel (p : Patrol C) (k : Nat) : Option (Patrol C) := p.post k .held .cancelled

/-- The sweeper notices that it was cancelled, and ends. If a round is due as well, either of the two
may come first. A handle that waits for the end goes on now. -/
def quit (p : Patrol C) (k : Nat) : Option (Patrol C) := p.post k .cancelled .ended

/-- The sweeper is cancelled while nothing is due, and notices at once. -/
def dismiss (p : Patrol C) (k : Nat) : Patrol C := ((p.cancel k).bind (·.quit k)).getD p

end Patrol

end Foreman
