import Foreman.Proofs.Listeners
import Foreman.Proofs.Lists
import Foreman.Proofs.Run
import Foreman.Release.Desk

/-!
The traffic at a correlator. Processes are started, while the engine answers late or never; events
are delivered, and the listeners that they find go on by themselves. What is done may be done from
anywhere, also from within a listener that is running, so that any event may come at any time.
-/

namespace Foreman

namespace Correlator

variable {L : Type}

/-- Takes out the listener that waits for an event. -/
def take (c : Correlator L) (id : CorrelationId) (e : EventType) :
    Option (Registration L) × Correlator L :=
  match c.registration? id e with
  | some r => (some r, c.consume id e)
  | none => (none, c)

/-- Forgets a process and says whether there was one. -/
def giveUp (c : Correlator L) (id : CorrelationId) : Bool × Correlator L :=
  match c.processes.get? id with
  | some _ => (true, c.abandon id)
  | none => (false, c)

variable (c : Correlator L) (id id' : CorrelationId) (e e' : EventType)

theorem take_fst : (c.take id e).1 = c.registration? id e := by
  unfold take
  split
  next h => exact h.symm
  next h => exact h.symm

theorem registration?_take :
    (c.take id e).2.registration? id' e' =
      if id = id' ∧ e = e' then none else c.registration? id' e' := by
  unfold take
  split
  next => exact registration?_consume ..
  next h =>
    split
    next heq =>
      obtain ⟨rfl, rfl⟩ := heq
      exact h
    next => rfl

theorem giveUp_eq : c.giveUp id = (c.isPending id, c.abandon id) := by
  unfold giveUp isPending abandon Table.contains
  cases h : c.processes.get? id with
  | some p => rfl
  | none => simp [Table.erase_eq_self h]

theorem registration?_giveUp :
    (c.giveUp id).2.registration? id' e =
      if id = id' then none else c.registration? id' e := by
  rw [giveUp_eq]
  exact registration?_abandon ..

theorem calls_withdraw (call : Nat) : (c.withdraw id call).calls = c.calls := by
  unfold withdraw
  split <;> rfl

theorem calls_take : (c.take id e).2.calls = c.calls := by
  unfold take consume
  split
  next => split <;> rfl
  next => rfl

theorem calls_giveUp : (c.giveUp id).2.calls = c.calls := by
  rw [giveUp_eq]
  rfl

theorem calls_register (process : String) (now : Instant) (listeners : List (EventType × L)) :
    (c.register id process now listeners).calls = c.calls + 1 := by
  unfold register
  split <;> rfl

end Correlator

/-- The desk takes the listener of an event out in the same way, and an event that finds none is
unmatched. -/
theorem ReleaseDesk.dispatch_take (d : ReleaseDesk) (id : CorrelationId) (e : EventType)
    (payload : Json) :
    (d.dispatch id e payload).2.correlator = (d.correlator.take id e).2 ∧
      ((d.dispatch id e payload).1 = .unmatched ↔ (d.correlator.take id e).1 = none) := by
  unfold dispatch Correlator.take
  cases d.correlator.registration? id e with
  | none => exact ⟨rfl, by simp⟩
  | some r =>
      dsimp only
      split
      next => split <;> exact ⟨rfl, by simp⟩
      next => exact ⟨rfl, by simp⟩
      next => exact ⟨rfl, by simp⟩

namespace Traffic

inductive CallPhase where
  /-- The engine has not answered yet. -/
  | asking
  | accepted
  | refused
  /-- The caller gave up. -/
  | dropped
deriving DecidableEq

/-- A call that starts a process. -/
structure Call where
  id : CorrelationId
  phase : CallPhase
deriving DecidableEq

inductive Ending where
  /-- The payload could not be read, so the callback was not called. -/
  | unread
  | returned
  | panicked
deriving DecidableEq

inductive DeliveryPhase (L : Type) where
  | unmatched
  /-- The listener is taken out and has not begun. -/
  | taken (r : Registration L)
  /-- The callback was called. -/
  | running (r : Registration L)
  | ended (r : Registration L) (how : Ending)

def DeliveryPhase.begin {L : Type} : Option (Registration L) → DeliveryPhase L
  | some r => .taken r
  | none => .unmatched

/-- The registration that was taken. -/
def DeliveryPhase.registration? {L : Type} : DeliveryPhase L → Option (Registration L)
  | .unmatched => none
  | .taken r | .running r | .ended r _ => some r

structure Delivery (L : Type) where
  id : CorrelationId
  /-- None if the event came under a name that is unknown. -/
  event : Option EventType
  payload : Json
  phase : DeliveryPhase L
  /-- Whether the caller still waits for the listener. -/
  attended : Bool

inductive Outcome where
  | delivered
  | unmatched
deriving DecidableEq

variable {L : Type}

/-- What the caller gets; nothing before the listener has ended, in whatever way. -/
def Delivery.outcome? (d : Delivery L) : Option Outcome :=
  match d.phase with
  | .unmatched => some .unmatched
  | .taken _ | .running _ => none
  | .ended _ _ => if d.attended then some .delivered else none

inductive Event (L : Type) where
  | start (id : CorrelationId) (process : String) (now : Instant)
    (listeners : List (EventType × L))
  /-- The engine answers a call. -/
  | answer (call : Nat) (answer : Except EngineFault Unit)
  /-- The caller gives up a call while the engine is asked. -/
  | dropCall (call : Nat)
  | dispatch (id : CorrelationId) (e : EventType) (payload : Json)
  | dispatchNamed (id : CorrelationId) (name : String) (payload : Json)
  /-- The listener of a delivery begins. -/
  | enter (k : Nat)
  /-- The listener comes to its end, by a panic or not. -/
  | finish (k : Nat) (panics : Bool)
  /-- The caller does not wait for the listener any longer. -/
  | leave (k : Nat)
  | abandon (id : CorrelationId)

/-- What an event delivers: to whom, which event if its name is known, and the payload. -/
def Event.delivery? : Event L → Option (CorrelationId × Option EventType × Json)
  | .dispatch id e payload => some (id, some e, payload)
  | .dispatchNamed id name payload => some (id, (EventType.read name).toOption, payload)
  | _ => none

end Traffic

/-- Calls and deliveries are numbered in the order in which they came. -/
structure Traffic (L : Type) where
  correlator : Correlator L
  calls : List Traffic.Call
  deliveries : List (Traffic.Delivery L)

namespace Traffic

variable {L : Type}

def empty : Traffic L := ⟨.empty, [], []⟩

def withCall (t : Traffic L) (n : Nat) (p : CallPhase) : Traffic L :=
  { t with calls := t.calls.modify n fun c => { c with phase := p } }

def withDelivery (t : Traffic L) (k : Nat) (p : DeliveryPhase L) : Traffic L :=
  { t with deliveries := t.deliveries.modify k fun d => { d with phase := p } }

/-- The listeners are in place before the engine is asked. -/
def start (t : Traffic L) (id : CorrelationId) (process : String) (now : Instant)
    (listeners : List (EventType × L)) : Traffic L :=
  { t with
    correlator := t.correlator.register id process now listeners
    calls := t.calls ++ [⟨id, .asking⟩] }

/-- What is left of the registrations of a call that is refused is taken back. -/
def answer (t : Traffic L) (n : Nat) (a : Except EngineFault Unit) : Option (Traffic L) := do
  let c ← t.calls[n]?
  match c.phase, a with
  | .asking, .ok () => some (t.withCall n .accepted)
  | .asking, .error _ =>
    some ({ t with correlator := t.correlator.withdraw c.id n }.withCall n .refused)
  | _, _ => none

def dropCall (t : Traffic L) (n : Nat) : Option (Traffic L) := do
  let c ← t.calls[n]?
  if c.phase = .asking then some (t.withCall n .dropped) else none

/-- An event with an unknown name matches nothing. -/
def deliver (t : Traffic L) (id : CorrelationId) (e : Option EventType) (payload : Json) :
    Traffic L :=
  let (r, c) := match e with
    | some e => t.correlator.take id e
    | none => (none, t.correlator)
  { t with
    correlator := c
    deliveries := t.deliveries ++ [⟨id, e, payload, .begin r, true⟩] }

/-- The listener calls its callback if that can read the payload. -/
def enter (reads : L → Json → Bool) (t : Traffic L) (k : Nat) : Option (Traffic L) := do
  let d ← t.deliveries[k]?
  match d.phase with
  | .taken r =>
    some (t.withDelivery k (if reads r.listener d.payload then .running r else .ended r .unread))
  | _ => none

def finish (t : Traffic L) (k : Nat) (panics : Bool) : Option (Traffic L) := do
  let d ← t.deliveries[k]?
  match d.phase with
  | .running r => some (t.withDelivery k (.ended r (if panics then .panicked else .returned)))
  | _ => none

def leave (t : Traffic L) (k : Nat) : Option (Traffic L) := do
  let d ← t.deliveries[k]?
  if d.outcome? = none then
    some { t with deliveries := t.deliveries.modify k fun d => { d with attended := false } }
  else none

/-- One event, if it is possible. The payloads that each callback can read are given. -/
def step (reads : L → Json → Bool) (t : Traffic L) : Event L → Option (Traffic L)
  | .start id process now listeners => some (t.start id process now listeners)
  | .answer n a => t.answer n a
  | .dropCall n => t.dropCall n
  | .dispatch id e payload => some (t.deliver id (some e) payload)
  | .dispatchNamed id name payload =>
    some (t.deliver id (EventType.read name).toOption payload)
  | .enter k => t.enter reads k
  | .finish k panics => t.finish k panics
  | .leave k => t.leave k
  | .abandon id => some { t with correlator := (t.correlator.giveUp id).2 }

/-- The events and what each of them leads to. -/
inductive Step (reads : L → Json → Bool) (t : Traffic L) : Event L → Traffic L → Prop
  | start {id process now listeners} :
      Step reads t (.start id process now listeners) (t.start id process now listeners)
  | accept {n c} (hc : t.calls[n]? = some c) (hp : c.phase = .asking) :
      Step reads t (.answer n (.ok ())) (t.withCall n .accepted)
  | refuse {n c f} (hc : t.calls[n]? = some c) (hp : c.phase = .asking) :
      Step reads t (.answer n (.error f))
        ({ t with correlator := t.correlator.withdraw c.id n }.withCall n .refused)
  | dropCall {n c} (hc : t.calls[n]? = some c) (hp : c.phase = .asking) :
      Step reads t (.dropCall n) (t.withCall n .dropped)
  | deliver {ev id e payload} (h : ev.delivery? = some (id, e, payload)) :
      Step reads t ev (t.deliver id e payload)
  | enter {k d r} (hd : t.deliveries[k]? = some d) (hp : d.phase = .taken r) :
      Step reads t (.enter k)
        (t.withDelivery k (if reads r.listener d.payload then .running r else .ended r .unread))
  | finish {k d r panics} (hd : t.deliveries[k]? = some d) (hp : d.phase = .running r) :
      Step reads t (.finish k panics)
        (t.withDelivery k (.ended r (if panics then .panicked else .returned)))
  | leave {k d} (hd : t.deliveries[k]? = some d) (hp : d.outcome? = none) :
      Step reads t (.leave k)
        { t with deliveries := t.deliveries.modify k fun d => { d with attended := false } }
  | abandon {id} :
      Step reads t (.abandon id) { t with correlator := (t.correlator.giveUp id).2 }

section Cases

variable {reads : L → Json → Bool} {t t' : Traffic L}

theorem answer_cases {n : Nat} {a : Except EngineFault Unit} (h : t.answer n a = some t') :
    Step reads t (.answer n a) t' := by
  simp only [answer, Option.bind_eq_bind, Option.bind_eq_some_iff] at h
  obtain ⟨c, hc, h⟩ := h
  split at h
  next hp =>
    obtain rfl := Option.some.inj h
    exact .accept hc hp
  next hp =>
    obtain rfl := Option.some.inj h
    exact .refuse hc hp
  next => simp at h

theorem dropCall_cases {n : Nat} (h : t.dropCall n = some t') : Step reads t (.dropCall n) t' := by
  simp only [dropCall, Option.bind_eq_bind, Option.bind_eq_some_iff] at h
  obtain ⟨c, hc, h⟩ := h
  split at h
  next hp =>
    obtain rfl := Option.some.inj h
    exact .dropCall hc hp
  next => simp at h

theorem enter_cases {k : Nat} (h : t.enter reads k = some t') : Step reads t (.enter k) t' := by
  simp only [enter, Option.bind_eq_bind, Option.bind_eq_some_iff] at h
  obtain ⟨d, hd, h⟩ := h
  split at h
  next r hp =>
    obtain rfl := Option.some.inj h
    exact .enter hd hp
  next => simp at h

theorem finish_cases {k : Nat} {panics : Bool} (h : t.finish k panics = some t') :
    Step reads t (.finish k panics) t' := by
  simp only [finish, Option.bind_eq_bind, Option.bind_eq_some_iff] at h
  obtain ⟨d, hd, h⟩ := h
  split at h
  next r hp =>
    obtain rfl := Option.some.inj h
    exact .finish hd hp
  next => simp at h

theorem leave_cases {k : Nat} (h : t.leave k = some t') : Step reads t (.leave k) t' := by
  simp only [leave, Option.bind_eq_bind, Option.bind_eq_some_iff] at h
  obtain ⟨d, hd, h⟩ := h
  split at h
  next hp =>
    obtain rfl := Option.some.inj h
    exact .leave hd hp
  next => simp at h

theorem step_cases {ev : Event L} (h : step reads t ev = some t') : Step reads t ev t' := by
  cases ev with
  | start id process now listeners =>
      obtain rfl := Option.some.inj h
      exact .start
  | answer n a => exact answer_cases h
  | dropCall n => exact dropCall_cases h
  | dispatch id e payload =>
      obtain rfl := Option.some.inj h
      exact .deliver rfl
  | dispatchNamed id name payload =>
      obtain rfl := Option.some.inj h
      exact .deliver rfl
  | enter k => exact enter_cases h
  | finish k panics => exact finish_cases h
  | leave k => exact leave_cases h
  | abandon id =>
      obtain rfl := Option.some.inj h
      exact .abandon

end Cases

/-! ### The calls -/

section Frame

variable (t : Traffic L) (n k : Nat) (id : CorrelationId) (e : Option EventType) (payload : Json)

theorem ids_withCall (p : CallPhase) :
    (t.withCall n p).calls.map Call.id = t.calls.map Call.id := by
  apply List.ext_getElem?
  intro j
  by_cases hj : n = j
  · subst hj
    simp [withCall, Function.comp_def]
  · simp [withCall, hj]

theorem calls_deliver : (t.deliver id e payload).correlator.calls = t.correlator.calls := by
  cases e with
  | none => rfl
  | some e => exact t.correlator.calls_take id e

theorem registration?_deliver (id' : CorrelationId) (e' : EventType) :
    (t.deliver id e payload).correlator.registration? id' e' =
      if id = id' ∧ e = some e' then none else t.correlator.registration? id' e' := by
  cases e with
  | none => simp [deliver]
  | some e =>
      simp only [Option.some.injEq]
      exact t.correlator.registration?_take id id' e e'

theorem deliveries_deliver :
    (t.deliver id e payload).deliveries = t.deliveries ++
      [⟨id, e, payload, .begin (e.bind (t.correlator.registration? id)), true⟩] := by
  cases e with
  | none => rfl
  | some e =>
      rw [Option.bind_some, ← t.correlator.take_fst id e]
      rfl

end Frame

end Traffic

end Foreman
