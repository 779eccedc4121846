import Foreman.Proofs.Correlator.Delivery
import Mathlib.Data.List.Perm.Subperm

/-!
Traffic in which no process is started. Listeners are only taken, and each of them once, so there cannot
be more calls than there are listeners at first.
-/

namespace Foreman

namespace Correlator

variable {L : Type} {c c' : Correlator L} {id : CorrelationId} {e : EventType}

/-- The ids and events for which listeners are registered. -/
def registered (c : Correlator L) : List (CorrelationId × EventType) :=
  c.processes.entries.flatMap fun p => p.2.listeners.keys.map (p.1, ·)

theorem mem_registered : (id, e) ∈ c.registered ↔ c.registration? id e ≠ none := by
  simp only [registered, List.mem_flatMap, List.mem_map, Prod.exists, Prod.mk.injEq, registration?,
    ← Table.contains_iff_mem, Table.contains, ← Option.isSome_iff_ne_none]
  constructor
  · rintro ⟨_, p, stored, _, listening, rfl, rfl⟩
    rw [c.processes.get?_eq_some.mpr stored]
    exact listening
  · intro h
    obtain ⟨r, hr⟩ := Option.isSome_iff_exists.mp h
    obtain ⟨p, stored, listening⟩ := Option.bind_eq_some_iff.mp hr
    exact ⟨id, p, c.processes.get?_eq_some.mp stored, e, by rw [listening]; rfl, rfl, rfl⟩

theorem nodup_registered (c : Correlator L) : c.registered.Nodup := by
  refine List.nodup_flatMap.mpr ⟨fun p _ => ?_, ?_⟩
  · exact p.2.listeners.distinct.map fun e e' h => (Prod.mk.inj h).2
  · refine (List.pairwise_map.mp c.processes.distinct).imp fun {p q} other => ?_
    rintro ⟨id, e⟩ hp hq
    obtain ⟨_, -, hp⟩ := List.mem_map.mp hp
    obtain ⟨_, -, hq⟩ := List.mem_map.mp hq
    exact other ((Prod.mk.inj hp).1.trans (Prod.mk.inj hq).1.symm)

/-- Whoever is registered in `c'` is registered in `c` under the same id and event. -/
def Within (c' c : Correlator L) : Prop :=
  ∀ ⦃id e r⦄, c'.registration? id e = some r → c.registration? id e = some r

theorem Within.eq_none (h : c'.Within c) (gone : c.registration? id e = none) :
    c'.registration? id e = none := by
  refine Option.eq_none_iff_forall_ne_some.mpr fun r hr => ?_
  rw [h hr] at gone
  cases gone

theorem Within.subset (h : c'.Within c) : c'.registered ⊆ c.registered := by
  rintro ⟨id, e⟩ listed
  obtain ⟨r, hr⟩ := Option.ne_none_iff_exists'.mp (mem_registered.mp listed)
  exact mem_registered.mpr (by rw [h hr]; exact Option.some_ne_none r)

theorem Within.length_le (h : c'.Within c) : c'.registered.length ≤ c.registered.length :=
  (List.subperm_of_subset c'.nodup_registered h.subset).length_le

/-- If one of them is gone, fewer are left. -/
theorem Within.length_lt (h : c'.Within c) (was : c.registration? id e ≠ none)
    (gone : c'.registration? id e = none) : c'.registered.length < c.registered.length := by
  have fresh : (id, e) ∉ c'.registered := fun listed => mem_registered.mp listed gone
  have all : (id, e) :: c'.registered ⊆ c.registered :=
    List.cons_subset.mpr ⟨mem_registered.mpr was, h.subset⟩
  exact (List.subperm_of_subset (List.nodup_cons.mpr ⟨fresh, c'.nodup_registered⟩) all).length_le

theorem within_giveUp (c : Correlator L) (id : CorrelationId) : (c.giveUp id).2.Within c := by
  intro id' e r h
  rw [giveUp_eq] at h
  exact registration?_of_abandon h

end Correlator

namespace Traffic

variable {L : Type} {reads : L → Json → Bool} {t t' : Traffic L} {ev : Event L} {es : List (Event L)}

/-- How many deliveries have taken a listener out. -/
def countTaken (t : Traffic L) : Nat := t.deliveries.countP (·.phase.registration?.isSome)

theorem countTaken_eq (t : Traffic L) :
    t.countTaken = (t.deliveries.map Delivery.ticket).countP (·.2.isSome) := by
  rw [List.countP_map]
  rfl

theorem within_deliver (t : Traffic L) (id : CorrelationId) (e : Option EventType) (payload : Json) :
    (t.deliver id e payload).correlator.Within t.correlator := by
  intro id' e' r h
  rw [registration?_deliver] at h
  split at h
  next => cases h
  next => exact h

/-- Only a start registers listeners. -/
theorem within_step (s : Step reads t ev t') (calm : ev.started? = none) :
    t'.correlator.Within t.correlator := by
  cases s with
  | start => cases calm
  | accept | dropCall | enter | finish | leave => exact fun _ _ _ h => h
  | refuse => exact fun _ _ _ h => Correlator.registration?_of_withdraw h
  | deliver => exact within_deliver t _ _ _
  | abandon => exact t.correlator.within_giveUp _

/-- Nobody is registered any more for an event that was just delivered. -/
theorem registration?_of_delivery (s : Step reads t ev t') {id : CorrelationId} {e : EventType}
    {payload : Json} (hev : ev.delivery? = some (id, some e, payload)) :
    t'.correlator.registration? id e = none := by
  cases s with
  | deliver hev' =>
      obtain ⟨rfl, rfl, rfl⟩ := by simpa using hev.symm.trans hev'
      rw [registration?_deliver, if_pos ⟨rfl, rfl⟩]
  | start | accept | refuse | dropCall | enter | finish | leave | abandon => cases hev

/-- Each listener that is taken out is one registration less. -/
theorem spending_step (s : Step reads t ev t') (calm : ev.started? = none) :
    t'.countTaken + t'.correlator.registered.length ≤
      t.countTaken + t.correlator.registered.length := by
  have less := within_step s calm
  -- The deliveries grow by one exactly if the event delivers something, whether or not it takes anyone.
  rw [countTaken_eq, countTaken_eq, tickets_step s, List.countP_append]
  cases hev : ev.delivery? with
  | none =>
      have := less.length_le
      simpa using this
  | some x =>
      obtain ⟨id, e, payload⟩ := x
      cases hr : e.bind (t.correlator.registration? id) with
      | none =>
          have := less.length_le
          simpa [hr] using this
      | some r =>
          obtain ⟨e, rfl, hr'⟩ := Option.bind_eq_some_iff.mp hr
          have was : t.correlator.registration? id e ≠ none := by simp [hr']
          have := less.length_lt was (registration?_of_delivery s hev)
          simp only [Option.map_some, hr, Option.toList_some, List.countP_singleton,
            Option.isSome_some, if_true]
          omega

/-- What has become of the listeners between two states. -/
structure Depletes (t t' : Traffic L) : Prop where
  within : t'.correlator.Within t.correlator
  bounded : t'.countTaken + t'.correlator.registered.length ≤
    t.countTaken + t.correlator.registered.length
  tickets : t.deliveries.map Delivery.ticket <+: t'.deliveries.map Delivery.ticket
  /-- Those that deliveries have taken since are gone. -/
  gone : ∀ k d e, t.deliveries.length ≤ k → t'.deliveries[k]? = some d →
    d.phase.registration? ≠ none → d.event = some e → t'.correlator.registration? d.id e = none

theorem Depletes.refl (t : Traffic L) : t.Depletes t where
  within _ _ _ h := h
  bounded := Nat.le_refl _
  tickets := List.prefix_refl _
  gone k d _ hk hd := by
    rw [List.getElem?_eq_none hk] at hd
    cases hd

theorem Depletes.step {u : Traffic L} (h : u.Depletes t) (s : Step reads t ev t')
    (calm : ev.started? = none) : u.Depletes t' where
  within _ _ _ hr := h.within (within_step s calm hr)
  bounded := (spending_step s calm).trans h.bounded
  tickets := by
    rw [tickets_step s]
    exact h.tickets.trans (List.prefix_append _ _)
  gone k d e hk hd taken own := by
    have ticket : (t'.deliveries.map Delivery.ticket)[k]? = some d.ticket := by simp [hd]
    rw [tickets_step s] at ticket
    -- What was taken before is not registered again, as nothing is started.
    have older (ticket : (t.deliveries.map Delivery.ticket)[k]? = some d.ticket) :
        t'.correlator.registration? d.id e = none := by
      obtain ⟨d', hd', same⟩ := by simpa using ticket
      obtain ⟨⟨hid, hevent, -⟩, hphase⟩ := by simpa [Delivery.ticket] using same
      rw [← hphase] at taken
      have before := h.gone k d' e hk hd' taken (hevent.trans own)
      rw [hid] at before
      exact (within_step s calm).eq_none before
    cases hev : ev.delivery? with
    | none => exact older (by simpa [hev] using ticket)
    | some x =>
        rw [hev, Option.map_some, Option.toList_some] at ticket
        rcases getElem?_concat_cases ticket with ticket | ⟨-, new⟩
        · exact older ticket
        · obtain ⟨rfl, -⟩ := Prod.mk.inj new
          exact registration?_of_delivery s (by rw [hev, own])

/-- While nothing is started, every listener is called once at most and is gone then. -/
theorem depletes_of_run (run : Run (step reads) t es t') (calm : ∀ ev ∈ es, ev.started? = none) :
    t.Depletes t' := by
  induction run with
  | nil => exact .refl t
  | snoc _ last ih =>
      exact (ih fun ev h => calm ev (List.mem_append_left _ h)).step (step_cases last)
        (calm _ (List.mem_append_right _ (List.mem_singleton.mpr rfl)))

end Traffic

end Foreman
