import Foreman.Proofs.Correlator.Depletion
import Mathlib.Order.WellFounded

/-!
Cascades. A listener that is called may deliver events itself, to whomever it likes, and give up
processes, and it waits for what comes of that before it goes on. The listeners that it calls may do the
same, so an event can set off a whole cascade of calls, each within the one before. It comes to an end
in any case: a listener is taken out before it is called, so there is always one less to be called.
-/

namespace Foreman

open Traffic

/-- What a listener does when it is called, one thing after the other. It goes on by the answers that it
gets. -/
inductive Script where
  | done (panics : Bool)
  | dispatch (id : CorrelationId) (e : EventType) (payload : Json) (next : Traffic.Outcome → Script)
  | dispatchNamed (id : CorrelationId) (name : String) (payload : Json)
    (next : Traffic.Outcome → Script)
  | abandon (id : CorrelationId) (next : Bool → Script)
  /-- It goes on by something that it finds elsewhere, where others may have changed it. -/
  | consult (next : Json → Script)

namespace Script

/-- What is left of a script after its first step. -/
inductive Rest : Script → Script → Prop
  | dispatch {id e payload next} (o : Traffic.Outcome) : Rest (next o) (dispatch id e payload next)
  | dispatchNamed {id name payload next} (o : Traffic.Outcome) :
      Rest (next o) (dispatchNamed id name payload next)
  | abandon {id next} (wasPending : Bool) : Rest (next wasPending) (abandon id next)
  | consult {next} (found : Json) : Rest (next found) (consult next)

theorem rest_wellFounded : WellFounded Rest := by
  refine ⟨fun s => ?_⟩
  induction s with
  | done panics => exact ⟨_, fun _ h => by cases h⟩
  | dispatch id e payload next ih => exact ⟨_, fun _ h => by cases h; exact ih _⟩
  | dispatchNamed id name payload next ih => exact ⟨_, fun _ h => by cases h; exact ih _⟩
  | abandon id next ih => exact ⟨_, fun _ h => by cases h; exact ih _⟩
  | consult next ih => exact ⟨_, fun _ h => by cases h; exact ih _⟩

end Script

/-- A listener that waits for another, by the number of its own delivery, and how it goes on. -/
abbrev Cascade.Caller := Nat × (Traffic.Outcome → Script)

/-- The calls of a cascade, each by the number of its delivery. -/
structure Cascade (L : Type) where
  traffic : Traffic L
  /-- The listener that is at work, and what it has still to do. -/
  running : Option (Nat × Script)
  /-- Those that wait for another, the last one first. -/
  waiting : List Cascade.Caller

namespace Cascade

variable {L : Type}

/-- The deliveries whose listeners have been called and have not come to their end. -/
def frames (s : Cascade L) : List Nat := (s.running.map (·.1)).toList ++ s.waiting.map (·.1)

/-- An answer to the one who waits for it. -/
def answer (t : Traffic L) (o : Traffic.Outcome) : List Caller → Cascade L
  | [] => ⟨t, none, []⟩
  | (k, next) :: rest => ⟨t, some (k, next o), rest⟩

/-- An event is delivered for those who wait. It is answered at once if nobody listens for it or if the
payload cannot be read; else its listener is called. -/
def send (callback : L → Json → Option Script) (t : Traffic L) (id : CorrelationId)
    (e : Option EventType) (payload : Json) (callers : List Caller) : Cascade L :=
  let u := t.deliver id e payload
  let k := t.deliveries.length
  match e.bind (t.correlator.registration? id) with
  | none => answer u .unmatched callers
  | some r =>
    match callback r.listener payload with
    | none => answer (u.withDelivery k (.ended r .unread)) .delivered callers
    | some script => ⟨u.withDelivery k (.running r), some (k, script), callers⟩

/-- The next thing that the listener at work does; `found` is what it finds if it looks elsewhere. -/
def step (callback : L → Json → Option Script) (s : Cascade L) (found : Json) :
    Option (Cascade L) :=
  match s.running with
  | none => none
  | some (k, .done panics) =>
    (s.traffic.finish k panics).map fun t => answer t .delivered s.waiting
  | some (k, .dispatch id e payload next) =>
    some (send callback s.traffic id (some e) payload ((k, next) :: s.waiting))
  | some (k, .dispatchNamed id name payload next) =>
    some (send callback s.traffic id (EventType.read name).toOption payload
      ((k, next) :: s.waiting))
  | some (k, .abandon id next) =>
    let (wasPending, c) := s.traffic.correlator.giveUp id
    some { s with
      traffic := { s.traffic with correlator := c }
      running := some (k, next wasPending) }
  | some (k, .consult next) => some { s with running := some (k, next found) }

/-- How the delivery of an event begins. -/
inductive Sent (callback : L → Json → Option Script) (t : Traffic L) (id : CorrelationId)
    (e : Option EventType) (payload : Json) (callers : List Caller) : Cascade L → Prop
  | unmatched (nobody : e.bind (t.correlator.registration? id) = none) :
      Sent callback t id e payload callers (answer (t.deliver id e payload) .unmatched callers)
  | unread {r} (found : e.bind (t.correlator.registration? id) = some r)
      (unreadable : callback r.listener payload = none) :
      Sent callback t id e payload callers
        (answer ((t.deliver id e payload).withDelivery t.deliveries.length (.ended r .unread))
          .delivered callers)
  | called {r script} (found : e.bind (t.correlator.registration? id) = some r)
      (readable : callback r.listener payload = some script) :
      Sent callback t id e payload callers
        ⟨(t.deliver id e payload).withDelivery t.deliveries.length (.running r),
          some (t.deliveries.length, script), callers⟩

theorem send_sent (callback : L → Json → Option Script) (t : Traffic L) (id : CorrelationId)
    (e : Option EventType) (payload : Json) (callers : List Caller) :
    Sent callback t id e payload callers (send callback t id e payload callers) := by
  unfold send
  split
  next nobody => exact .unmatched nobody
  next r found =>
    split
    next unreadable => exact .unread found unreadable
    next script readable => exact .called found readable

/-- What one step can be. -/
inductive Move (callback : L → Json → Option Script) (s : Cascade L) : Cascade L → Prop
  | finish {k panics t} (atWork : s.running = some (k, .done panics))
      (finished : s.traffic.finish k panics = some t) :
      Move callback s (answer t .delivered s.waiting)
  | send {k script id e payload next u} (atWork : s.running = some (k, script))
      (rest : ∀ o, (next o).Rest script)
      (sent : Sent callback s.traffic id e payload ((k, next) :: s.waiting) u) : Move callback s u
  | abandon {k id next} (atWork : s.running = some (k, .abandon id next)) :
      Move callback s { s with
        traffic := { s.traffic with correlator := (s.traffic.correlator.giveUp id).2 }
        running := some (k, next (s.traffic.correlator.giveUp id).1) }
  | consult {k next} (atWork : s.running = some (k, .consult next)) (found : Json) :
      Move callback s { s with running := some (k, next found) }

section Step

variable {callback : L → Json → Option Script} {s u : Cascade L} {found : Json}

theorem step_move (h : s.step callback found = some u) : Move callback s u := by
  unfold step at h
  split at h
  next => cases h
  next k panics atWork =>
    obtain ⟨t, finished, rfl⟩ := Option.map_eq_some_iff.mp h
    exact .finish atWork finished
  next k id e payload next atWork =>
    obtain rfl := Option.some.inj h
    exact .send atWork (fun o => .dispatch o) (send_sent ..)
  next k id name payload next atWork =>
    obtain rfl := Option.some.inj h
    exact .send atWork (fun o => .dispatchNamed o) (send_sent ..)
  next k id next atWork =>
    obtain rfl := Option.some.inj h
    exact .abandon atWork
  next k next atWork =>
    obtain rfl := Option.some.inj h
    exact .consult atWork found

end Step

@[simp] theorem traffic_answer (t : Traffic L) (o : Traffic.Outcome) (callers : List Caller) :
    (answer t o callers).traffic = t := by
  cases callers <;> rfl

@[simp] theorem frames_answer (t : Traffic L) (o : Traffic.Outcome) (callers : List Caller) :
    (answer t o callers).frames = callers.map (·.1) := by
  cases callers <;> rfl

theorem frames_of_running {s : Cascade L} {k : Nat} {script : Script}
    (atWork : s.running = some (k, script)) : s.frames = k :: s.waiting.map (·.1) := by
  rw [frames, atWork]
  rfl

/-! ### Cascades as traffic -/

/-- The payloads that a callback can read. -/
def reads (callback : L → Json → Option Script) (l : L) (payload : Json) : Bool :=
  (callback l payload).isSome

section Traffic

variable {callback : L → Json → Option Script} {t : Traffic L} {id : CorrelationId}
  {e : Option EventType} {payload : Json} {callers : List Caller} {s u : Cascade L}

theorem deliveries_land (t : Traffic L) (id : CorrelationId) (e : Option EventType) (payload : Json)
    (p : DeliveryPhase L) :
    ((t.deliver id e payload).withDelivery t.deliveries.length p).deliveries =
      t.deliveries ++ [⟨id, e, payload, p, true⟩] := by
  have last : (t.deliver id e payload).deliveries[t.deliveries.length]? =
      some ⟨id, e, payload, .begin (e.bind (t.correlator.registration? id)), true⟩ := by
    simp [deliveries_deliver]
  rw [withDelivery, modify_eq_set _ last, deliveries_deliver,
    List.set_append_right _ _ (Nat.le_refl _), Nat.sub_self]
  rfl

/-- Events of the traffic, with nothing started, lead from one to the other. -/
def Calmly (callback : L → Json → Option Script) (t t' : Traffic L) : Prop :=
  ∃ es, Run (Traffic.step (reads callback)) t es t' ∧ ∀ ev ∈ es, ev.started? = none

theorem Calmly.refl (t : Traffic L) : Calmly callback t t := ⟨[], .nil, by simp⟩

theorem Calmly.snoc {t' t'' : Traffic L} (h : Calmly callback t t') (ev : Event L)
    (last : t'.step (reads callback) ev = some t'') (calm : ev.started? = none) :
    Calmly callback t t'' := by
  obtain ⟨es, run, before⟩ := h
  refine ⟨es ++ [ev], run.snoc last, fun ev' h => ?_⟩
  rcases List.mem_append.mp h with h | h
  · exact before ev' h
  · exact List.mem_singleton.mp h ▸ calm

theorem Calmly.deliver {t' : Traffic L} (h : Calmly callback t t') (id : CorrelationId)
    (e : Option EventType) (payload : Json) : Calmly callback t (t'.deliver id e payload) := by
  cases e with
  | none => exact h.snoc (.dispatchNamed id "" payload) rfl rfl
  | some e => exact h.snoc (.dispatch id e payload) rfl rfl

/-- The listener that was taken begins. -/
theorem Calmly.enter {t' : Traffic L} {r : Registration L} (h : Calmly callback t t')
    (found : e.bind (t'.correlator.registration? id) = some r) (payload : Json) :
    Calmly callback t ((t'.deliver id e payload).withDelivery t'.deliveries.length
      (if reads callback r.listener payload then .running r else .ended r .unread)) := by
  refine (h.deliver id e payload).snoc (.enter t'.deliveries.length) ?_ rfl
  have last : (t'.deliver id e payload).deliveries[t'.deliveries.length]? =
      some ⟨id, e, payload, .taken r, true⟩ := by
    simp [deliveries_deliver, found, DeliveryPhase.begin]
  simp [Traffic.step, Traffic.enter, last]

theorem Calmly.sent {t' : Traffic L} (h : Calmly callback t t')
    (sent : Sent callback t' id e payload callers u) : Calmly callback t u.traffic := by
  cases sent with
  | unmatched => simpa using h.deliver id e payload
  | unread found unreadable =>
      have entered := h.enter found payload
      rw [if_neg (by simp [reads, unreadable])] at entered
      simpa using entered
  | called found readable =>
      have entered := h.enter found payload
      rwa [if_pos (by simp [reads, readable])] at entered

theorem Calmly.move (h : Calmly callback t s.traffic) (m : Move callback s u) :
    Calmly callback t u.traffic := by
  cases m with
  | @finish k panics _ _ finished => simpa using h.snoc (.finish k panics) finished rfl
  | send _ _ sent => exact h.sent sent
  | @abandon _ id => exact h.snoc (.abandon id) rfl rfl
  | consult => exact h

theorem registered_deliver_lt {r : Registration L}
    (found : e.bind (t.correlator.registration? id) = some r) (payload : Json) :
    (t.deliver id e payload).correlator.registered.length < t.correlator.registered.length := by
  obtain ⟨e, rfl, here⟩ := Option.bind_eq_some_iff.mp found
  have was : t.correlator.registration? id e ≠ none := by
    rw [here]
    exact Option.some_ne_none r
  refine (within_deliver t id (some e) payload).length_lt was ?_
  rw [registration?_deliver, if_pos ⟨rfl, rfl⟩]

end Traffic

/-! ### Coming to an end -/

/-- What is still to do: how many listeners are left, how many calls are open, and what the listener at
work has still to do. -/
def rank (s : Cascade L) : Nat × Nat × Script :=
  (s.traffic.correlator.registered.length, s.frames.length,
    (s.running.map (·.2)).getD (.done false))

def Falls : Nat × Nat × Script → Nat × Nat × Script → Prop :=
  Prod.Lex (· < ·) (Prod.Lex (· < ·) Script.Rest)

theorem falls_wellFounded : WellFounded Falls :=
  WellFounded.prod_lex Nat.lt_wfRel.wf (WellFounded.prod_lex Nat.lt_wfRel.wf Script.rest_wellFounded)

theorem Falls.of_le {m n : Nat} {x y : Nat × Script} (le : m ≤ n)
    (h : Prod.Lex (· < ·) Script.Rest x y) : Falls (m, x) (n, y) := by
  rcases Nat.lt_or_eq_of_le le with lt | rfl
  · exact .left _ _ lt
  · exact .right _ h

section Ends

variable {callback : L → Json → Option Script} {s u : Cascade L}

/-- A call leaves fewer listeners, and where none is called the listener at work has less to do or comes
to its end. -/
theorem Move.falls (m : Move callback s u) : Falls u.rank s.rank := by
  cases m with
  | @finish k panics t atWork finished =>
      have same : t.correlator = s.traffic.correlator := by
        have ending : Traffic.Step (reads callback) s.traffic (.finish k panics) t :=
          finish_cases finished
        cases ending with
        | finish => rfl
        | deliver hev => cases hev
      -- The one that is answered may have any amount to do, but a call is over.
      refine .of_le ?_ (.left _ _ ?_)
      · rw [traffic_answer, same]
      · rw [frames_answer, frames_of_running atWork, List.length_cons]
        exact Nat.lt_succ_self _
  | @send k script id e payload next _ atWork rest sent =>
      cases sent with
      | unmatched =>
          have left := (within_deliver s.traffic id e payload).length_le
          rw [rank, rank, frames_of_running atWork, atWork]
          exact .of_le left (.right _ (rest .unmatched))
      | unread found =>
          -- Its listener was not called, but it is taken out all the same.
          refine .left _ _ ?_
          rw [traffic_answer]
          exact registered_deliver_lt found payload
      | called found => exact .left _ _ (registered_deliver_lt found payload)
  | @abandon k id next atWork =>
      have left := (s.traffic.correlator.within_giveUp id).length_le
      rw [rank, rank, frames_of_running atWork, atWork]
      exact .of_le left (.right _ (.abandon _))
  | @consult k next atWork found =>
      rw [rank, rank, frames_of_running atWork, atWork]
      exact .right _ (.right _ (.consult found))

/-- No cascade goes on forever, whatever its listeners find elsewhere. -/
theorem step_wellFounded (callback : L → Json → Option Script) :
    WellFounded fun u s : Cascade L => ∃ found, s.step callback found = some u :=
  Subrelation.wf (fun ⟨_, h⟩ => (step_move h).falls) (InvImage.wf rank falls_wellFounded)

end Ends

/-! ### Returning -/

/-- What the caller is answered, by what the delivery took. -/
def outcomeOf (taken : Option (Registration L)) : Traffic.Outcome :=
  if taken.isSome then .delivered else .unmatched

/-- The calls of `frames` are open, and every other delivery from number `n` on has been answered. -/
structure Sound (n : Nat) (t : Traffic L) (frames : List Nat) : Prop where
  nodup : frames.Nodup
  isOpen : ∀ k ∈ frames, ∃ d r, t.deliveries[k]? = some d ∧ d.phase = .running r ∧
    d.attended = true
  answered : ∀ k d, n ≤ k → t.deliveries[k]? = some d → k ∉ frames →
    d.outcome? = some (outcomeOf d.phase.registration?)

section Sound

variable {n : Nat} {t t' : Traffic L} {frames : List Nat} {d : Traffic.Delivery L}

theorem sound_nil (t : Traffic L) : Sound t.deliveries.length t [] where
  nodup := List.nodup_nil
  isOpen _ h := by cases h
  answered k d hk hd _ := by
    rw [List.getElem?_eq_none hk] at hd
    cases hd

theorem Sound.lt (h : Sound n t frames) {k : Nat} (hk : k ∈ frames) : k < t.deliveries.length := by
  obtain ⟨d, _, hd, -⟩ := h.isOpen k hk
  exact (List.getElem?_eq_some_iff.mp hd).1

theorem Sound.congr (h : Sound n t frames) (same : t'.deliveries = t.deliveries) :
    Sound n t' frames where
  nodup := h.nodup
  isOpen := same ▸ h.isOpen
  answered := same ▸ h.answered

/-- A delivery that is answered at once. -/
theorem Sound.land (h : Sound n t frames) (grown : t'.deliveries = t.deliveries ++ [d])
    (returned : d.outcome? = some (outcomeOf d.phase.registration?)) : Sound n t' frames where
  nodup := h.nodup
  isOpen k hk := by
    obtain ⟨d', r, hd', open'⟩ := h.isOpen k hk
    exact ⟨d', r, by rw [grown, List.getElem?_append_left (h.lt hk), hd'], open'⟩
  answered k d' hk hd' other := by
    rw [grown] at hd'
    rcases getElem?_concat_cases hd' with hd' | ⟨-, rfl⟩
    · exact h.answered k d' hk hd' other
    · exact returned

/-- A delivery whose listener begins. -/
theorem Sound.call {r : Registration L} (h : Sound n t frames)
    (grown : t'.deliveries = t.deliveries ++ [d]) (running : d.phase = .running r)
    (attended : d.attended = true) : Sound n t' (t.deliveries.length :: frames) where
  nodup := List.nodup_cons.mpr ⟨fun hk => Nat.lt_irrefl _ (h.lt hk), h.nodup⟩
  isOpen k hk := by
    rcases List.mem_cons.mp hk with rfl | hk
    · exact ⟨d, r, by simp [grown], running, attended⟩
    · obtain ⟨d', r', hd', open'⟩ := h.isOpen k hk
      exact ⟨d', r', by rw [grown, List.getElem?_append_left (h.lt hk), hd'], open'⟩
  answered k d' hk hd' other := by
    rw [List.mem_cons, not_or] at other
    rw [grown] at hd'
    rcases getElem?_concat_cases hd' with hd' | ⟨last, -⟩
    · exact h.answered k d' hk hd' other.2
    · exact absurd last other.1

/-- The innermost call comes to its end. -/
theorem Sound.finish {k : Nat} (h : Sound n t (k :: frames)) (panics : Bool) :
    ∃ t', t.finish k panics = some t' ∧ Sound n t' frames := by
  obtain ⟨d, r, hd, running, attended⟩ := h.isOpen k List.mem_cons_self
  obtain ⟨fresh, nodup⟩ := List.nodup_cons.mp h.nodup
  refine ⟨t.withDelivery k (.ended r (if panics then .panicked else .returned)),
    by simp [Traffic.finish, hd, running], nodup, fun j hj => ?_, fun j d' hj hd' other => ?_⟩
  · have apart : k ≠ j := fun heq => fresh (heq ▸ hj)
    obtain ⟨d', r', hd', open'⟩ := h.isOpen j (List.mem_cons_of_mem _ hj)
    exact ⟨d', r', by simp [withDelivery, apart, hd'], open'⟩
  · by_cases same : k = j
    · subst same
      obtain rfl : { d with phase := .ended r (if panics then .panicked else .returned) } = d' := by
        simpa [withDelivery, List.getElem?_modify, hd] using hd'
      simp [Traffic.Delivery.outcome?, attended, outcomeOf, DeliveryPhase.registration?]
    · have before : t.deliveries[j]? = some d' := by
        simpa [withDelivery, List.getElem?_modify, same] using hd'
      exact h.answered j d' hj before fun hj => (List.mem_cons.mp hj).elim (same ·.symm) other

theorem Sound.sent {callback : L → Json → Option Script} {id : CorrelationId}
    {e : Option EventType} {payload : Json} {callers : List Caller}
    {u : Cascade L} (h : Sound n t (callers.map (·.1)))
    (sent : Sent callback t id e payload callers u) : Sound n u.traffic u.frames := by
  cases sent with
  | unmatched nobody =>
      rw [traffic_answer, frames_answer]
      refine h.land (t.deliveries_deliver id e payload) ?_
      rw [nobody]
      rfl
  | unread =>
      rw [traffic_answer, frames_answer]
      exact h.land (deliveries_land t id e payload _) rfl
  | called => exact h.call (deliveries_land t id e payload _) rfl rfl

theorem Sound.move {callback : L → Json → Option Script} {s u : Cascade L}
    (h : Sound n s.traffic s.frames) (m : Move callback s u) : Sound n u.traffic u.frames := by
  cases m with
  | @finish k panics t atWork finished =>
      rw [frames_of_running atWork] at h
      obtain ⟨t', finished', after⟩ := h.finish panics
      obtain rfl := Option.some.inj (finished.symm.trans finished')
      rwa [traffic_answer, frames_answer]
  | send atWork _ sent =>
      rw [frames_of_running atWork] at h
      exact h.sent sent
  | abandon atWork =>
      rw [frames_of_running atWork] at h
      exact h.congr rfl
  | consult atWork =>
      rw [frames_of_running atWork] at h
      exact h

/-- The listener at work can go on. -/
theorem Sound.exists_step {s : Cascade L} (h : Sound n s.traffic s.frames)
    (busy : s.running ≠ none) (callback : L → Json → Option Script) (found : Json) :
    ∃ u, s.step callback found = some u := by
  obtain ⟨⟨k, script⟩, atWork⟩ := Option.ne_none_iff_exists'.mp busy
  rw [frames_of_running atWork] at h
  unfold step
  rw [atWork]
  cases script with
  | done panics =>
      obtain ⟨t, finished, -⟩ := h.finish panics
      exact ⟨answer t .delivered s.waiting, by simp [finished]⟩
  | dispatch | dispatchNamed | abandon | consult => exact ⟨_, rfl⟩

end Sound

/-- Nobody waits once nobody is at work. -/
def IsSettled (s : Cascade L) : Prop := s.running = none → s.frames = []

theorem isSettled_answer (t : Traffic L) (o : Traffic.Outcome) (callers : List Caller) :
    (answer t o callers).IsSettled := by
  intro idle
  cases callers with
  | nil => rfl
  | cons caller rest => cases idle

theorem isSettled_sent {callback : L → Json → Option Script} {t : Traffic L} {id : CorrelationId}
    {e : Option EventType} {payload : Json} {callers : List Caller}
    {u : Cascade L} (sent : Sent callback t id e payload callers u) : u.IsSettled := by
  cases sent with
  | unmatched | unread => exact isSettled_answer _ _ _
  | called => exact fun idle => by cases idle

theorem isSettled_move {callback : L → Json → Option Script} {s u : Cascade L}
    (m : Move callback s u) : u.IsSettled := by
  cases m with
  | finish => exact isSettled_answer _ _ _
  | send _ _ sent => exact isSettled_sent sent
  | abandon | consult => exact fun idle => by cases idle

/-! ### Cascades from outside -/

/-- An event is delivered by somebody who is not a listener. -/
def start (callback : L → Json → Option Script) (t : Traffic L) (id : CorrelationId)
    (e : Option EventType) (payload : Json) : Cascade L := send callback t id e payload []

/-- What holds of a cascade that an event for `id` has set off in the traffic `t`. -/
structure Contained (callback : L → Json → Option Script) (t : Traffic L) (id : CorrelationId)
    (e : Option EventType) (s : Cascade L) : Prop where
  /-- It is traffic in which nothing is started. -/
  calmly : Calmly callback t s.traffic
  /-- Not more listeners are called than were registered. -/
  bounded : s.traffic.countTaken ≤ t.countTaken + t.correlator.registered.length
  /-- Those that were called are registered no more. -/
  gone : ∀ k d e', t.deliveries.length ≤ k → s.traffic.deliveries[k]? = some d →
    d.phase.registration? ≠ none → d.event = some e' →
      s.traffic.correlator.registration? d.id e' = none
  goesOn : s.running ≠ none → ∀ found, ∃ u, s.step callback found = some u
  ends : ∃ founds u, Run (step callback) s founds u ∧ u.running = none
  /-- At the end every delivery has returned. -/
  returned : s.running = none → ∀ k d, t.deliveries.length ≤ k →
    s.traffic.deliveries[k]? = some d → d.outcome? = some (outcomeOf d.phase.registration?)
  /-- The first one has found whoever was registered for it before. -/
  first : s.running = none → ∃ d, s.traffic.deliveries[t.deliveries.length]? = some d ∧
    d.outcome? = some (outcomeOf (e.bind (t.correlator.registration? id)))

section Start

variable {callback : L → Json → Option Script} {t : Traffic L} {id : CorrelationId}
  {e : Option EventType} {payload : Json} {s u : Cascade L} {founds : List Json}

theorem sound_of_run {n : Nat} (h : Sound n s.traffic s.frames)
    (run : Run (step callback) s founds u) : Sound n u.traffic u.frames := by
  induction run with
  | nil => exact h
  | snoc _ last ih => exact ih.move (step_move last)

theorem calmly_of_run (h : Calmly callback t s.traffic) (run : Run (step callback) s founds u) :
    Calmly callback t u.traffic := by
  induction run with
  | nil => exact h
  | snoc _ last ih => exact ih.move (step_move last)

theorem isSettled_of_run (h : s.IsSettled) (run : Run (step callback) s founds u) :
    u.IsSettled := by
  cases run with
  | nil => exact h
  | snoc _ last => exact isSettled_move (step_move last)

/-- Whatever is still open can be brought to its end. -/
theorem exists_end {n : Nat} (callback : L → Json → Option Script)
    (h : Sound n s.traffic s.frames) :
    ∃ founds u, Run (step callback) s founds u ∧ u.running = none := by
  induction s using (step_wellFounded callback).induction with
  | _ s ih =>
    by_cases busy : s.running = none
    · exact ⟨[], s, .nil, busy⟩
    · obtain ⟨u, first⟩ := h.exists_step busy callback .null
      obtain ⟨founds, v, rest, idle⟩ := ih u ⟨.null, first⟩ (h.move (step_move first))
      exact ⟨[.null] ++ founds, v, Run.trans (.snoc .nil first) rest, idle⟩

/-- A delivery is noted with the registration that it took. -/
theorem ticket_sent {callers : List Caller}
    (sent : Sent callback t id e payload callers u) :
    (u.traffic.deliveries.map Traffic.Delivery.ticket)[t.deliveries.length]? =
      some ((id, e, payload), e.bind (t.correlator.registration? id)) := by
  cases sent with
  | unmatched nobody => simp [deliveries_deliver, Traffic.Delivery.ticket, registration?_begin]
  | unread found | called found =>
      simp [deliveries_land, Traffic.Delivery.ticket, found, DeliveryPhase.registration?]

theorem Calmly.depletes {t' : Traffic L} (h : Calmly callback t t') : t.Depletes t' := by
  obtain ⟨es, run, calm⟩ := h
  exact depletes_of_run run calm

/-- What every state of a cascade has in common. -/
theorem contained_of_run (run : Run (step callback) (start callback t id e payload) founds s) :
    Contained callback t id e s := by
  have sent : Sent callback t id e payload [] (start callback t id e payload) := send_sent ..
  have sound : Sound t.deliveries.length s.traffic s.frames :=
    sound_of_run ((sound_nil t).sent sent) run
  have calmly : Calmly callback t s.traffic := calmly_of_run ((Calmly.refl t).sent sent) run
  have returned (idle : s.running = none) (k : Nat) (d : Traffic.Delivery L)
      (hk : t.deliveries.length ≤ k) (hd : s.traffic.deliveries[k]? = some d) :
      d.outcome? = some (outcomeOf d.phase.registration?) := by
    refine sound.answered k d hk hd ?_
    rw [isSettled_of_run (isSettled_sent sent) run idle]
    exact List.not_mem_nil
  refine ⟨calmly, ?_, calmly.depletes.gone, fun busy => sound.exists_step busy callback,
    exists_end callback sound, returned, fun idle => ?_⟩
  · have := calmly.depletes.bounded
    omega
  · obtain ⟨more, later⟩ := (calmly_of_run (Calmly.refl _) run).depletes.tickets
    have early := (List.getElem?_eq_some_iff.mp (ticket_sent sent)).1
    have ticket : (s.traffic.deliveries.map Traffic.Delivery.ticket)[t.deliveries.length]? =
        some ((id, e, payload), e.bind (t.correlator.registration? id)) := by
      rw [← later, List.getElem?_append_left early, ticket_sent sent]
    obtain ⟨d, hd, same⟩ := by simpa using ticket
    have took : d.phase.registration? = e.bind (t.correlator.registration? id) :=
      congrArg Prod.snd same
    exact ⟨d, hd, took ▸ returned idle _ d (Nat.le_refl _) hd⟩

/-- Whatever listeners do when they are called, short of starting processes, a cascade does not go on
forever. It never gets stuck, calls no more listeners than were registered when it began, each of which
is gone then, and at its end every delivery has returned, the one from outside included. -/
theorem cascade_ends (callback : L → Json → Option Script) (t : Traffic L) (id : CorrelationId)
    (e : Option EventType) (payload : Json) :
    (∀ f : Nat → Cascade L, f 0 = start callback t id e payload →
        ¬∀ n, ∃ found, (f n).step callback found = some (f (n + 1))) ∧
      ∀ founds s, Run (step callback) (start callback t id e payload) founds s →
        Contained callback t id e s := by
  refine ⟨fun f _ forever => ?_, fun _ _ => contained_of_run⟩
  have never := wellFounded_iff_isEmpty_descending_chain.mp (step_wellFounded callback)
  exact never.false ⟨f, forever⟩

end Start

/-! ### A circle -/

/-- Of the four listeners, two call each other in a circle, and the first of them tries itself as well.
The third can read nothing, and the fourth is forgotten before it is called. -/
def circular (l : Nat) (_ : Json) : Option Script :=
  match l with
  | 0 => some <|
      .dispatch ⟨"a"⟩ .importSuccess .null fun _ =>
      .dispatchNamed ⟨"b"⟩ "IMPORT_SUCCESS" .null fun _ =>
      .done false
  | 1 => some <|
      .dispatch ⟨"a"⟩ .importSuccess .null fun _ =>
      .abandon ⟨"c"⟩ fun wasPending =>
      .dispatch ⟨"a"⟩ .importError .null fun _ =>
      .done wasPending
  | 2 => none
  | _ => some (.done false)

def gathering : List (Event Nat) := [
  .start ⟨"a"⟩ "release" noon [(.importSuccess, 0), (.importError, 2)],
  .start ⟨"b"⟩ "release" noon [(.importSuccess, 1)],
  .start ⟨"c"⟩ "build" noon [(.processProgress, 3)]]

theorem gathering_runs :
    (gathering.foldlM (Traffic.step (reads circular)) Traffic.empty).isSome = true := by
  decide +kernel

def gathered : Traffic Nat :=
  (gathering.foldlM (Traffic.step (reads circular)) Traffic.empty).get gathering_runs

def circle : Cascade Nat := start circular gathered ⟨"a"⟩ (some .importSuccess) .null

theorem circle_runs : ((List.replicate 7 .null).foldlM (step circular) circle).isSome = true := by
  decide +kernel

/-- After seven steps. -/
def exhausted : Cascade Nat :=
  ((List.replicate 7 .null).foldlM (step circular) circle).get circle_runs

theorem cascade_ends_circle :
    gathered.correlator.registered.length = 4 ∧ exhausted.running = none ∧
      exhausted.traffic.countTaken = 3 ∧ exhausted.traffic.correlator.registered = [] ∧
      exhausted.traffic.deliveries.map Traffic.Delivery.outcome? =
        [some .delivered, some .unmatched, some .delivered, some .unmatched, some .delivered] ∧
      ∃ d, exhausted.traffic.deliveries[0]? = some d ∧ d.outcome? = some .delivered := by
  have run : Run (step circular) circle (List.replicate 7 .null) exhausted :=
    Run.iff_foldlM.mpr (Option.some_get circle_runs).symm
  have idle : exhausted.running = none := Option.isNone_iff_eq_none.mp (by decide +kernel)
  obtain ⟨d, first, outcome⟩ :=
    ((cascade_ends circular gathered ⟨"a"⟩ (some .importSuccess) .null).2 _ _ run).first idle
  have fresh : gathered.deliveries.length = 0 := by decide +kernel
  have found : outcomeOf ((some EventType.importSuccess).bind
      (gathered.correlator.registration? ⟨"a"⟩)) = .delivered := by decide +kernel
  rw [fresh] at first
  rw [found] at outcome
  exact ⟨by decide +kernel, idle, by decide +kernel, by decide +kernel, by decide +kernel, d, first,
    outcome⟩

end Cascade

end Foreman
