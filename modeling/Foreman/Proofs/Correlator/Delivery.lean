import Foreman.Proofs.Correlator.Standing

/-!
Whom a delivery reaches. It takes the registration that stands for its event when it comes, and
nobody takes that again; the callback is called by this delivery only, once, if it can read the
payload.
-/

namespace Foreman

namespace Traffic

variable {L : Type}

/-! ### What was delivered -/

/-- What was delivered and the registration that it took. This stays as it is. -/
def Delivery.ticket (d : Delivery L) :
    (CorrelationId × Option EventType × Json) × Option (Registration L) :=
  ((d.id, d.event, d.payload), d.phase.registration?)

/-- The call and the event for which a ticket's registration was made. -/
def keyOf (x : (CorrelationId × Option EventType × Json) × Option (Registration L)) :
    Option (Nat × EventType) := do
  let e ← x.1.2.1
  let r ← x.2
  return (r.call, e)

/-- The registration whose callback was called. -/
def DeliveryPhase.called? : DeliveryPhase L → Option (Registration L)
  | .running r | .ended r .returned | .ended r .panicked => some r
  | .unmatched | .taken _ | .ended _ .unread => none

/-- The registration whose callback is called if the listener begins. -/
def Delivery.calling? (reads : L → Json → Bool) (d : Delivery L) : Option (Registration L) :=
  match d.phase with
  | .taken r => if reads r.listener d.payload then some r else none
  | _ => none

/-- The call and event of a registration that a delivery has to do with. -/
def Delivery.key? (d : Delivery L) (r : Option (Registration L)) : Option (Nat × EventType) :=
  keyOf ((d.id, d.event, d.payload), r)

/-- The registration that a delivery takes, by its call and event. -/
def taking? (t : Traffic L) (ev : Event L) : Option (Nat × EventType) := do
  let x ← ev.delivery?
  let e ← x.2.1
  let r ← t.correlator.registration? x.1 e
  return (r.call, e)

def takings (t : Traffic L) (ev : Event L) : List (Nat × EventType) := (t.taking? ev).toList

/-- The callback that is called in an event, by its call and event. -/
def callbacks (reads : L → Json → Bool) (t : Traffic L) : Event L → List (Nat × EventType)
  | .enter k => ((t.deliveries[k]?).bind fun d => d.key? (d.calling? reads)).toList
  | _ => []

/-- The callbacks that were called, one place for each delivery. -/
def called (t : Traffic L) : List (Option (Nat × EventType)) :=
  t.deliveries.map fun d => d.key? d.phase.called?

section Tickets

variable {reads : L → Json → Bool} {t t' : Traffic L} {ev : Event L} {k : Nat}

theorem map_modify_of_eq {α β : Type} {g : α → β} {f : α → α} {l : List α} {k : Nat} {a : α}
    (h : l[k]? = some a) (hf : g (f a) = g a) : (l.modify k f).map g = l.map g := by
  apply List.ext_getElem?
  intro j
  by_cases hj : k = j
  · subst hj
    simp [h, hf]
  · simp [hj]

theorem ticket_withDelivery {d : Delivery L} {p : DeliveryPhase L} (hd : t.deliveries[k]? = some d)
    (hp : p.registration? = d.phase.registration?) :
    (t.withDelivery k p).deliveries.map Delivery.ticket = t.deliveries.map Delivery.ticket :=
  map_modify_of_eq hd (by simp [Delivery.ticket, hp])

theorem registration?_begin (r : Option (Registration L)) :
    (DeliveryPhase.begin r).registration? = r := by
  cases r <;> rfl

/-- A delivery takes what is registered for its event; nothing else changes a ticket. -/
theorem tickets_step (s : Step reads t ev t') :
    t'.deliveries.map Delivery.ticket = t.deliveries.map Delivery.ticket ++
      (ev.delivery?.map fun x => (x, x.2.1.bind (t.correlator.registration? x.1))).toList := by
  cases s with
  | start | accept | refuse | dropCall | abandon => exact (List.append_nil _).symm
  | enter hd hp =>
      refine (ticket_withDelivery hd ?_).trans (List.append_nil _).symm
      rw [hp]
      split <;> rfl
  | finish hd hp =>
      refine (ticket_withDelivery hd ?_).trans (List.append_nil _).symm
      rw [hp]
      rfl
  | leave hd hp =>
      exact (map_modify_of_eq hd rfl).trans (List.append_nil _).symm
  | @deliver ev id e payload hev =>
      rw [deliveries_deliver, hev, List.map_append]
      simp [Delivery.ticket, registration?_begin]

/-- The calls and events of the registrations that were taken. -/
def taken (t : Traffic L) : List (Nat × EventType) :=
  (t.deliveries.map Delivery.ticket).filterMap keyOf

theorem taken_step (s : Step reads t ev t') : t'.taken = t.taken ++ t.takings ev := by
  unfold taken
  rw [tickets_step s, List.filterMap_append]
  congr 1
  unfold takings taking?
  cases ev.delivery? with
  | none => rfl
  | some x =>
      obtain ⟨id, e, payload⟩ := x
      cases e with
      | none => rfl
      | some e => cases h : t.correlator.registration? id e <;> simp [keyOf, h]

theorem taking?_eq_some {x : Nat × EventType} :
    t.taking? ev = some x ↔ ∃ id payload r, ev.delivery? = some (id, some x.2, payload) ∧
      t.correlator.registration? id x.2 = some r ∧ r.call = x.1 := by
  unfold taking?
  constructor
  · intro h
    simp only [Option.bind_eq_bind, Option.bind_eq_some_iff] at h
    obtain ⟨⟨id, _, payload⟩, hev, e, rfl, r, hr, hx⟩ := h
    obtain rfl := Option.some.inj hx
    exact ⟨id, payload, r, hev, hr, rfl⟩
  · rintro ⟨id, payload, r, hev, hr, hcall⟩
    simp [hev, hr, hcall]

end Tickets

section Run

variable {reads : L → Json → Bool} {t t' : Traffic L} {es : List (Event L)} {ev : Event L}
  {id : CorrelationId} {e : EventType} {r : Registration L} {x : Nat × EventType}

theorem taken_of_run (run : Run (step reads) .empty es t) :
    t.taken = notes (step reads) takings .empty es := by
  induction run with
  | nil => rfl
  | snoc before last ih => rw [notes_snoc takings before last, ← ih, taken_step (step_cases last)]

/-- A registration that was taken is gone, and its number is not given again. -/
structure Spent (t : Traffic L) : Prop where
  nodup : t.taken.Nodup
  past : ∀ {x}, x ∈ t.taken → x.1 < t.correlator.calls
  gone : ∀ {x}, x ∈ t.taken → ∀ {id r}, t.correlator.registration? id x.2 = some r → r.call ≠ x.1

theorem spent_of_run (run : Run (step reads) .empty es t) : t.Spent := by
  induction run with
  | nil => exact ⟨List.nodup_nil, by simp [taken, empty], by simp [taken, empty]⟩
  | @snoc es t t' ev before last ih =>
      have htaken := taken_step (step_cases last)
      have after : Run (step reads) .empty (es ++ [ev]) t' := .snoc before last
      have hle := countStarts_concat_le es ev
      have hcalls := calls_of_run before
      -- One that is taken now stood before and does not stand any longer.
      have new {x : Nat × EventType} (hx : t.taking? ev = some x) :
          x.1 < countStarts es ∧
            ∀ {id r}, Stands es id x.2 r → ¬ev.Ends id x.2 r.call → r.call ≠ x.1 := by
        obtain ⟨id₀, payload, r₀, hev, hr₀, hcall⟩ := taking?_eq_some.mp hx
        have stood := (registration?_iff_stands before).mp hr₀
        refine ⟨hcall ▸ stood.call_lt, fun {id r} h stays heq => stays ?_⟩
        have hid := h.call_id
        rw [heq, ← hcall, stood.call_id] at hid
        exact (ends_of_delivery hev).mpr ⟨Option.some.inj hid, rfl⟩
      refine ⟨?_, fun {x} hx => ?_, fun {x} hx id r hr => ?_⟩
      · rw [htaken, takings]
        cases hx : t.taking? ev with
        | none => simpa using ih.nodup
        | some x =>
            refine nodup_concat ih.nodup fun hmem => ?_
            obtain ⟨id, payload, r, -, hr, hcall⟩ := taking?_eq_some.mp hx
            exact ih.gone hmem hr hcall
      · rw [calls_of_run after]
        rw [htaken, List.mem_append] at hx
        rcases hx with hx | hx
        · have := ih.past hx
          omega
        · have := (new (Option.mem_toList.mp hx)).1
          omega
      · rw [registration?_iff_stands after, stands_concat] at hr
        rw [htaken, List.mem_append] at hx
        rcases hr with made | ⟨stood, stays⟩
        · have hcall := made.call_eq
          rcases hx with hx | hx
          · have := ih.past hx
            omega
          · have := (new (Option.mem_toList.mp hx)).1
            omega
        · rcases hx with hx | hx
          · exact ih.gone hx ((registration?_iff_stands before).mpr stood)
          · exact (new (Option.mem_toList.mp hx)).2 stood stays

/-- How many events are delivered. -/
def countDeliveries (es : List (Event L)) : Nat := es.countP fun ev => ev.delivery?.isSome

theorem length_deliveries_of_run (run : Run (step reads) .empty es t) :
    t.deliveries.length = countDeliveries es := by
  induction run with
  | nil => rfl
  | @snoc es t t' ev before last ih =>
      have hlen := congrArg List.length (tickets_step (step_cases last))
      rw [List.length_append, List.length_map, List.length_map, ih] at hlen
      rw [hlen, countDeliveries, countDeliveries, List.countP_append]
      cases h : ev.delivery? <;> simp [h]

/-- A delivery took what stood for its event when it came. -/
theorem ticket_origin (run : Run (step reads) .empty es t) {k : Nat}
    {x : (CorrelationId × Option EventType × Json) × Option (Registration L)}
    (hx : (t.deliveries.map Delivery.ticket)[k]? = some x) :
    ∃ es₁ ev es₂, es = es₁ ++ ev :: es₂ ∧ countDeliveries es₁ = k ∧ ev.delivery? = some x.1 ∧
      ∀ r, x.2 = some r ↔ ∃ e, x.1.2.1 = some e ∧ Stands es₁ x.1.1 e r := by
  induction run with
  | nil => simp [empty] at hx
  | @snoc es t t' ev before last ih =>
      have older (hx : (t.deliveries.map Delivery.ticket)[k]? = some x) :
          ∃ es₁ ev' es₂, es ++ [ev] = es₁ ++ ev' :: es₂ ∧ countDeliveries es₁ = k ∧
            ev'.delivery? = some x.1 ∧
            ∀ r, x.2 = some r ↔ ∃ e, x.1.2.1 = some e ∧ Stands es₁ x.1.1 e r := by
        obtain ⟨es₁, ev', es₂, rfl, h⟩ := ih hx
        exact ⟨es₁, ev', es₂ ++ [ev], by simp, h⟩
      rw [tickets_step (step_cases last)] at hx
      cases hev : ev.delivery? with
      | none =>
          rw [hev] at hx
          exact older (by simpa using hx)
      | some y =>
          rw [hev] at hx
          rcases getElem?_concat_cases hx with hx | ⟨hk, rfl⟩
          · exact older hx
          · refine ⟨es, ev, [], rfl, ?_, hev, fun r => ?_⟩
            · rw [hk, List.length_map, length_deliveries_of_run before]
            · simp only [Option.bind_eq_some_iff, registration?_iff_stands before]

/-! ### Callbacks -/

theorem registration?_of_called {p : DeliveryPhase L} (h : p.called? = some r) :
    p.registration? = some r := by
  cases p with
  | running => exact h
  | ended r' how =>
      cases how with
      | unread => cases h
      | returned | panicked => exact h
  | unmatched | taken => cases h

theorem key?_eq_some {d : Delivery L} {o : Option (Registration L)} :
    d.key? o = some x ↔ d.event = some x.2 ∧ ∃ r, o = some r ∧ r.call = x.1 := by
  obtain ⟨n, e⟩ := x
  simp [Delivery.key?, keyOf, Option.bind_eq_some_iff]

theorem registration?_of_calling {d : Delivery L} (h : d.calling? reads = some r) :
    d.phase = .taken r ∧ reads r.listener d.payload = true := by
  unfold Delivery.calling? at h
  split at h
  next r' hp =>
    split at h
    next hr =>
      obtain rfl := Option.some.inj h
      exact ⟨hp, hr⟩
    next => cases h
  next => cases h

theorem called?_enter {d : Delivery L} (hp : d.phase = .taken r) :
    (if reads r.listener d.payload then DeliveryPhase.running r else .ended r .unread).called? =
      d.calling? reads := by
  unfold Delivery.calling?
  rw [hp]
  dsimp only
  split <;> rfl

/-- No two deliveries have taken the same registration. -/
theorem Spent.key_unique (h : t.Spent) {j k : Nat} {d d' : Delivery L}
    (hj : t.deliveries[j]? = some d) (hd : keyOf d.ticket = some x)
    (hk : t.deliveries[k]? = some d') (hd' : keyOf d'.ticket = some x) : j = k := by
  have hcount := List.nodup_iff_count_le_one.mp h.nodup x
  rw [taken, List.filterMap_map, List.count_filterMap] at hcount
  exact eq_of_countP_le_one hcount hj (by simp [hd]) hk (by simp [hd'])

theorem mem_map_modify {α β : Type} {g : α → Option β} {f : α → α} {l : List α} {k : Nat} {a : α}
    (h : l[k]? = some a) (ha : g a = none) (b : β) :
    some b ∈ (l.modify k f).map g ↔ some b ∈ l.map g ∨ g (f a) = some b := by
  induction l generalizing k with
  | nil => simp at h
  | cons c l ih =>
      cases k with
      | zero =>
          obtain rfl : c = a := by simpa using h
          simp [ha, or_comm, eq_comm]
      | succ k =>
          rw [List.modify_succ_cons, List.map_cons, List.map_cons, List.mem_cons, List.mem_cons,
            ih (by simpa using h), or_assoc]

theorem callbacks_of_delivery {y : CorrelationId × Option EventType × Json}
    (h : ev.delivery? = some y) : callbacks reads t ev = [] := by
  cases ev with
  | dispatch | dispatchNamed => rfl
  | start | answer | dropCall | enter | finish | leave | abandon => cases h

theorem called_step (s : Step reads t ev t') (x : Nat × EventType) :
    some x ∈ t'.called ↔ some x ∈ t.called ∨ x ∈ callbacks reads t ev := by
  have quiet {l : List (Option (Nat × EventType))} (h : l = t.called) :
      some x ∈ l ↔ some x ∈ t.called ∨ x ∈ [] := by simp [h]
  cases s with
  | start | accept | refuse | dropCall | abandon => exact quiet rfl
  | @deliver ev id e payload hev =>
      rw [callbacks_of_delivery hev]
      have hnew :
          (DeliveryPhase.begin (e.bind (t.correlator.registration? id))).called? = none := by
        cases e.bind (t.correlator.registration? id) <;> rfl
      simp [called, deliveries_deliver, hnew, Delivery.key?, keyOf]
  | @enter k d r hd hp =>
      have hnone : d.key? d.phase.called? = none := by
        simp [Delivery.key?, keyOf, hp, DeliveryPhase.called?]
      refine (mem_map_modify hd hnone x).trans (or_congr_right ?_)
      have hcall : (if reads r.listener d.payload then DeliveryPhase.running r
          else .ended r .unread).called? = d.calling? reads := called?_enter hp
      simp only [callbacks, hd, Option.bind_some, Option.mem_toList, ← hcall]
      exact Iff.rfl
  | @finish k d r panics hd hp =>
      refine quiet (map_modify_of_eq hd ?_)
      rw [hp]
      cases panics <;> rfl
  | leave hd hp => exact quiet (map_modify_of_eq hd rfl)

theorem nodup_callbacks (t : Traffic L) (ev : Event L) : (callbacks reads t ev).Nodup := by
  unfold callbacks
  split
  next k => cases (t.deliveries[k]?).bind fun d => d.key? (d.calling? reads) <;> simp
  next => exact List.nodup_nil

/-- A callback that is called now was not called before, since no other delivery has its
registration and this one has only taken it. -/
theorem Spent.uncalled (h : t.Spent) (hx : x ∈ callbacks reads t ev) : some x ∉ t.called := by
  intro hcalled
  unfold callbacks at hx
  split at hx
  next k =>
    obtain ⟨d, hd, hkey⟩ := Option.bind_eq_some_iff.mp (Option.mem_toList.mp hx)
    obtain ⟨he, r, hr, hcall⟩ := key?_eq_some.mp hkey
    obtain ⟨hp, -⟩ := registration?_of_calling hr
    obtain ⟨d', hd', hkey'⟩ := List.mem_map.mp hcalled
    obtain ⟨he', r', hr', hcall'⟩ := key?_eq_some.mp hkey'
    obtain ⟨j, hj⟩ := List.mem_iff_getElem?.mp hd'
    have ticket : keyOf d.ticket = some x :=
      key?_eq_some.mpr ⟨he, r, by rw [hp]; rfl, hcall⟩
    have ticket' : keyOf d'.ticket = some x :=
      key?_eq_some.mpr ⟨he', r', registration?_of_called hr', hcall'⟩
    obtain rfl := h.key_unique hd ticket hj ticket'
    obtain rfl : d = d' := Option.some.inj (hd.symm.trans hj)
    rw [hp] at hr'
    cases hr'
  next => cases hx

/-- Each callback is called at most once, and it is one that some delivery has called. -/
theorem callbacks_of_run (run : Run (step reads) .empty es t) :
    (notes (step reads) (callbacks reads) .empty es).Nodup ∧
      ∀ x, x ∈ notes (step reads) (callbacks reads) .empty es ↔ some x ∈ t.called := by
  induction run with
  | nil => exact ⟨List.nodup_nil, by simp [notes, called, empty]⟩
  | @snoc es t t' ev before last ih =>
      obtain ⟨nodup, mem⟩ := ih
      rw [notes_snoc (callbacks reads) before last]
      refine ⟨List.nodup_append.mpr ⟨nodup, nodup_callbacks t ev, ?_⟩, fun x => ?_⟩
      · rintro x hx y hy rfl
        exact (spent_of_run before).uncalled hy ((mem x).mp hx)
      · rw [List.mem_append, mem, called_step (step_cases last)]

/-- A callback is called just if it can read the payload. -/
def Delivery.Fits (reads : L → Json → Bool) (d : Delivery L) : Prop :=
  match d.phase with
  | .running r | .ended r .returned | .ended r .panicked => reads r.listener d.payload = true
  | .ended r .unread => reads r.listener d.payload = false
  | .unmatched | .taken _ => True

theorem fits_modify {l : List (Delivery L)} {k : Nat} {d : Delivery L} {f : Delivery L → Delivery L}
    (h : ∀ d ∈ l, d.Fits reads) (hd : l[k]? = some d) (hf : (f d).Fits reads) :
    ∀ d ∈ l.modify k f, d.Fits reads := by
  intro d' hd'
  rw [modify_eq_set f hd] at hd'
  rcases List.mem_or_eq_of_mem_set hd' with hd' | rfl
  · exact h d' hd'
  · exact hf

theorem fits_step (h : ∀ d ∈ t.deliveries, d.Fits reads) (s : Step reads t ev t') :
    ∀ d ∈ t'.deliveries, d.Fits reads := by
  cases s with
  | start | accept | refuse | dropCall | abandon => exact h
  | @deliver ev id e payload hev =>
      rw [deliveries_deliver]
      intro d hd
      rcases List.mem_append.mp hd with hd | hd
      · exact h d hd
      · obtain rfl := List.mem_singleton.mp hd
        cases e.bind (t.correlator.registration? id) <;> trivial
  | @enter k d r hd hp =>
      refine fits_modify h hd ?_
      cases hr : reads r.listener d.payload with
      | true => exact hr
      | false => exact hr
  | @finish k d r panics hd hp =>
      refine fits_modify h hd ?_
      have fits := h d (List.mem_of_getElem? hd)
      unfold Delivery.Fits at fits
      rw [hp] at fits
      cases panics <;> exact fits
  | @leave k d hd hp => exact fits_modify h hd (h d (List.mem_of_getElem? hd))

theorem fits_of_run (run : Run (step reads) .empty es t) : ∀ d ∈ t.deliveries, d.Fits reads := by
  refine run.invariant (I := fun t => ∀ d ∈ t.deliveries, d.Fits reads) ?_ ?_
  · intro d hd
    cases hd
  · intro t ev t' h hs
    exact fits_step h (step_cases hs)

/-- An event for which nothing stands is unmatched, and all else stays as it is. -/
theorem deliver_unmatched {id : CorrelationId} {e : Option EventType} {payload : Json}
    (h : ∀ e', e = some e' → t.correlator.registration? id e' = none) :
    t.deliver id e payload =
      { t with deliveries := t.deliveries ++ [⟨id, e, payload, .unmatched, true⟩] } := by
  cases e with
  | none => rfl
  | some e => simp [deliver, Correlator.take, h e rfl, DeliveryPhase.begin]

theorem deliver_of_step {id : CorrelationId} {e : Option EventType} {payload : Json}
    (hs : step reads t ev = some t') (hev : ev.delivery? = some (id, e, payload)) :
    t' = t.deliver id e payload := by
  cases ev with
  | dispatch | dispatchNamed =>
      cases hev
      exact (Option.some.inj hs).symm
  | start | answer | dropCall | enter | finish | leave | abandon => cases hev

/-- A caller that learns anything learns whether a registration was taken. -/
theorem delivered_iff {d : Delivery L} {o : Outcome} (h : d.outcome? = some o) :
    o = .delivered ↔ ∃ r, d.phase.registration? = some r := by
  unfold Delivery.outcome? at h
  split at h
  next hp =>
    obtain rfl := Option.some.inj h
    simp [hp, DeliveryPhase.registration?]
  next => cases h
  next => cases h
  next r how hp =>
    split at h
    next =>
      obtain rfl := Option.some.inj h
      simp [hp, DeliveryPhase.registration?]
    next => cases h

/-- Each registered listener is taken by one delivery at most and its callback is called at most
once. A delivery takes the registration that stands for its event when it comes, and the caller
learns that it was delivered just if there was one, however its listener ended. If there was none,
nothing happens. -/
theorem delivered_at_most_once (run : Run (step reads) .empty es t) :
    (notes (step reads) takings .empty es).Nodup ∧
      (notes (step reads) (callbacks reads) .empty es).Nodup ∧
      (∀ x, x ∈ notes (step reads) (callbacks reads) .empty es ↔ some x ∈ t.called) ∧
      (∀ k d, t.deliveries[k]? = some d →
        d.Fits reads ∧
        ∃ es₁ ev es₂, es = es₁ ++ ev :: es₂ ∧ countDeliveries es₁ = k ∧
          ev.delivery? = some (d.id, d.event, d.payload) ∧
          (∀ r, d.phase.registration? = some r ↔ ∃ e, d.event = some e ∧ Stands es₁ d.id e r) ∧
          ∀ o, d.outcome? = some o →
            (o = .delivered ↔ ∃ e r, d.event = some e ∧ Stands es₁ d.id e r)) ∧
      ∀ ev id e payload t', step reads t ev = some t' → ev.delivery? = some (id, e, payload) →
        (∀ e' r, e = some e' → ¬Stands es id e' r) →
        t' = { t with deliveries := t.deliveries ++ [⟨id, e, payload, .unmatched, true⟩] } := by
  obtain ⟨nodup, mem⟩ := callbacks_of_run run
  refine ⟨taken_of_run run ▸ (spent_of_run run).nodup, nodup, mem, fun k d hd => ?_, ?_⟩
  · refine ⟨fits_of_run run d (List.mem_of_getElem? hd), ?_⟩
    have hticket : (t.deliveries.map Delivery.ticket)[k]? = some d.ticket := by simp [hd]
    obtain ⟨es₁, ev, es₂, rfl, hk, hev, took⟩ := ticket_origin run hticket
    refine ⟨es₁, ev, es₂, rfl, hk, hev, took, fun o ho => ?_⟩
    rw [delivered_iff ho, exists_comm]
    exact exists_congr took
  · intro ev id e payload t' hs hev none
    rw [deliver_of_step hs hev]
    refine deliver_unmatched fun e' he => Option.eq_none_iff_forall_ne_some.mpr fun r hr => ?_
    exact none e' r he ((registration?_iff_stands run).mp hr)

end Run

/-- A process is started anew and both its listeners are called, the second from within the first
one, which panics then. The payload of the second cannot be read, and a third event finds nobody.
-/
def restart (now : Instant) : List (Event Nat) := [
  .start ⟨"a"⟩ "release" now [(.importSuccess, 0), (.importError, 1)],
  .start ⟨"a"⟩ "release" now [(.importSuccess, 2)],
  .dispatchNamed ⟨"a"⟩ "IMPORT_SUCCESS" .null,
  .enter 0,
  .dispatch ⟨"a"⟩ .importError .null,
  .enter 1,
  .finish 0 true,
  .answer 1 (.error .notConfigured),
  .dispatch ⟨"a"⟩ .importSuccess .null]

/-- The callback of listener 1 reads no payload at all. -/
def readsSome (l : Nat) (_ : Json) : Bool := l ≠ 1

theorem restart_runs : ((restart noon).foldlM (step readsSome) .empty).isSome = true := by
  decide +kernel

theorem callbacks_restart :
    notes (step readsSome) (callbacks readsSome) .empty (restart noon) = [(1, .importSuccess)] := by
  decide +kernel

theorem outcomes_restart :
    ((restart noon).foldlM (step readsSome) .empty).map
        (fun t => t.deliveries.map Delivery.outcome?) =
      some [some .delivered, some .delivered, some .unmatched] := by
  decide +kernel

/-- Here the listener whose payload could not be read was taken from a registration that stood, the
caller learned that it was delivered, and its callback was not called. -/
theorem restart_delivered :
    ∃ (t : Traffic Nat) (d : Delivery Nat) (es₁ : List (Event Nat)) (e : EventType)
        (r : Registration Nat),
      Run (step readsSome) .empty (restart noon) t ∧ t.deliveries[1]? = some d ∧
        d.outcome? = some .delivered ∧ es₁ <+: restart noon ∧ Stands es₁ d.id e r ∧
        some (0, .importError) ∉ t.called := by
  obtain ⟨t, ht⟩ := Option.isSome_iff_exists.mp restart_runs
  have run := Run.iff_foldlM.mpr ht
  have outcomes := outcomes_restart
  rw [ht, Option.map_some, Option.some.injEq] at outcomes
  have second : (t.deliveries.map Delivery.outcome?)[1]? = some (some .delivered) := by
    rw [outcomes]
    rfl
  rw [List.getElem?_map, Option.map_eq_some_iff] at second
  obtain ⟨d, hd, ho⟩ := second
  obtain ⟨-, -, mem, deliveries, -⟩ := delivered_at_most_once run
  obtain ⟨-, es₁, ev, es₂, heq, -, -, -, told⟩ := deliveries 1 d hd
  obtain ⟨e, r, -, stood⟩ := (told _ ho).mp rfl
  refine ⟨t, d, es₁, e, r, run, hd, ho, ⟨ev :: es₂, heq.symm⟩, stood, ?_⟩
  rw [← mem, callbacks_restart]
  decide

end Traffic

end Foreman
