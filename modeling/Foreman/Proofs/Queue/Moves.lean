import Foreman.Proofs.Coordinator.Deadlock
import Foreman.Proofs.Queue.Dock
import Mathlib.Data.List.Nodup

/-!
What each act does to the queue, to the entries on their way and to the hands of the processors, while
nobody is in two places.
-/

namespace Foreman

namespace Workshop

theorem queue_remove (w : Workshop) (i : Nat) : (w.remove i).queue = w.queue := by
  unfold remove
  split <;> rfl

theorem queue_complete (w : Workshop) (i : Nat) :
    ((w.complete i).toOption.getD w).queue = w.queue := by
  cases ht : w.task? i with
  | none =>
      rw [complete_of_none ht]
      rfl
  | some t =>
      rw [complete_of_task ht]
      split
      next => rfl
      next => exact queue_remove w i

theorem queue_perform (w : Workshop) (c : Call) : (w.perform c).queue = w.queue := by
  cases c with
  | submit i =>
      rw [perform]
      unfold submit
      split
      next t _ => cases w.running.submit t.identity i <;> rfl
      next => rfl
  | remove i => exact queue_remove w i
  | complete i => exact queue_complete w i

end Workshop

namespace Coordinator

variable {c c' : Coordinator} {p : Nat} {e : QueuedTask} {taker : Option Nat}
  {phase phase' : ProcessorPhase} {b : Bool}

theorem lt_of_hand (h : c.hand? p = some e) : p < c.processors.length := by
  obtain ⟨r, hr, -⟩ := Option.bind_eq_some_iff.mp h
  exact (List.getElem?_eq_some_iff.mp hr).1

theorem mem_hands : (taker, e) ∈ c.hands ↔ ∃ p, taker = some p ∧ c.hand? p = some e := by
  simp only [hands, List.mem_filterMap, List.mem_range, Option.map_eq_some_iff, Prod.mk.injEq]
  constructor
  · rintro ⟨p, -, e', he, rfl, rfl⟩
    exact ⟨p, rfl, he⟩
  · rintro ⟨p, rfl, he⟩
    exact ⟨p, lt_of_hand he, e, he, rfl, rfl⟩

theorem nodup_hands (c : Coordinator) : c.hands.Nodup := by
  refine List.Nodup.filterMap (fun p q x hp hq => ?_) List.nodup_range
  obtain ⟨e, -, rfl⟩ := Option.map_eq_some_iff.mp hp
  obtain ⟨e', -, h⟩ := Option.map_eq_some_iff.mp hq
  exact (Option.some.inj (Prod.mk.inj h).1).symm

theorem hands_perm (h : ∀ p, c'.hand? p = c.hand? p) : c'.hands.Perm c.hands := by
  refine (List.perm_ext_iff_of_nodup c'.nodup_hands c.nodup_hands).mpr fun ⟨taker, e⟩ => ?_
  simp only [mem_hands, h]

/-- One processor has got an entry into its hand. -/
theorem hands_perm_cons (before : c.hand? p = none) (after : c'.hand? p = some e)
    (others : ∀ q, p ≠ q → c'.hand? q = c.hand? q) : c'.hands.Perm ((some p, e) :: c.hands) := by
  have fresh : (some p, e) ∉ c.hands := by simp [mem_hands, before]
  refine (List.perm_ext_iff_of_nodup c'.nodup_hands
    (List.nodup_cons.mpr ⟨fresh, c.nodup_hands⟩)).mpr fun ⟨taker, e'⟩ => ?_
  rw [List.mem_cons, mem_hands, mem_hands]
  constructor
  · rintro ⟨q, rfl, hq⟩
    by_cases hpq : p = q
    · subst hpq
      exact .inl (by rw [Option.some.inj (hq.symm.trans after)])
    · exact .inr ⟨q, rfl, others q hpq ▸ hq⟩
  · rintro (h | ⟨q, rfl, hq⟩)
    · obtain ⟨rfl, rfl⟩ := Prod.mk.inj h
      exact ⟨p, rfl, after⟩
    · have hpq : p ≠ q := by
        rintro rfl
        simp [before] at hq
      exact ⟨q, rfl, (others q hpq).trans hq⟩

theorem hand?_withProcessor_of_ne
    (processors : c'.processors = (c.withProcessor p phase').processors) (q : Nat) (hq : p ≠ q) :
    c'.hand? q = c.hand? q := by
  rw [hand?, hand?, processors, getElem?_withProcessor, if_neg hq]

/-- A processor that is done with an entry lays it down and gets in line again unless it stops. -/
theorem finish_cases (hp : c.processors[p]? = some ⟨phase, b⟩) :
    (c.finish p e).workshop.queue =
        (if b then c.workshop.queue else c.workshop.queue.wait p) ∧
      (c.finish p e).hand? p = none ∧ ∀ q, p ≠ q → (c.finish p e).hand? q = c.hand? q := by
  have queue := Workshop.queue_complete c.workshop e.task
  have finish : c.finish p e =
      let c := { c with workshop := (c.workshop.complete e.task).toOption.getD c.workshop }
      if b then c.withProcessor p .stopped
      else (c.withQueue (c.workshop.queue.wait p)).withProcessor p .idle := by
    unfold Coordinator.finish
    cases c.workshop.complete e.task <;> simp only [hp] <;> cases b <;> rfl
  have processors : ∃ rest, (c.finish p e).processors = (c.withProcessor p rest).processors ∧
      rest.inHand? = none := by
    rw [finish]
    cases b
    · exact ⟨.idle, rfl, rfl⟩
    · exact ⟨.stopped, rfl, rfl⟩
  obtain ⟨rest, processors, hrest⟩ := processors
  refine ⟨?_, (hand?_withProcessor hp _ processors).trans hrest,
    hand?_withProcessor_of_ne processors⟩
  rw [finish]
  cases b
  · exact congrArg (TaskQueue.wait · p) queue
  · exact queue

theorem queue_stop (c : Coordinator) (p : Nat) :
    (c.stop p).workshop.queue = c.workshop.queue ∨
      (c.stop p).workshop.queue = c.workshop.queue.cancel p := by
  unfold Coordinator.stop
  split
  next => exact .inr rfl
  next => exact .inl rfl

end Coordinator

namespace Dock

variable {d d' : Dock} {a : Act} {p : Nat} {e : QueuedTask}

/-- A change of the processor's that leaves its hand alone. -/
theorem Move.ofQuiet (hand : ∀ q, d'.hand? q = d.hand? q) (books : d'.books = d.books) :
    Move d d' (d.ownEvents d' p) := by
  have takers : d'.takers = d.takers := congrArg (·.queue.takers) books
  have quiet : d.ownEvents d' p = [] := by
    rw [ownEvents, takers, hand]
    cases d.hand? p <;> simp
  rw [quiet]
  exact .quiet books (Coordinator.hands_perm hand)

/-- The processor or the guest leaves the line if it is there. -/
theorem Move.ofCancel (hand : ∀ q, d'.hand? q = d.hand? q)
    (books : d'.books = { d.books with queue := d.queue.cancel p }) :
    Move d d' (d.ownEvents d' p) := by
  by_cases hp : p ∈ d.takers
  · have takers : d'.takers = d.takers.filter (· ≠ p) := congrArg (·.queue.takers) books
    have quits : d.ownEvents d' p = [.quit p] := by
      rw [ownEvents, takers, hand]
      cases d.hand? p <;> simp [hp]
    rw [quits]
    exact .quit hp books (Coordinator.hands_perm hand)
  · refine .ofQuiet hand (books.trans ?_)
    have same : d.queue.takers.filter (· ≠ p) = d.queue.takers :=
      List.filter_eq_self.mpr fun q hq => by
        have : q ≠ p := fun h => hp (h ▸ hq)
        simpa using this
    rw [TaskQueue.cancel, same]
    rfl

/-- Somebody new gets in line. -/
theorem Move.ofJoin (h : d.Sound) {r : Processor}
    (processors : d'.coordinator.processors = d.coordinator.processors ++ [r])
    (hr : r.phase.inHand? = none)
    (books : d'.books = { d.books with queue := d.queue.wait d.size }) :
    Move d d' (d.ownEvents d' d.size) := by
  have hand : ∀ q, d'.hand? q = d.hand? q := (Coordinator.alike_concat processors hr).hand
  have takers : d'.takers = d.takers ++ [d.size] := congrArg (·.queue.takers) books
  have size : d.size < d'.size := by simp [Dock.size, processors]
  have absent : d.size ∉ d.takers := fun hp =>
    Nat.lt_irrefl _ (h.numbers _ (List.mem_append_left _ hp))
  have joins : d.ownEvents d' d.size = [.joined d.size] := by
    rw [ownEvents, takers, hand]
    cases d.hand? d.size <;> simp [absent]
  rw [joins]
  exact .join (Nat.le_refl _) size books (Coordinator.hands_perm hand)

theorem isCompleted_of_finish (c : Coordinator) {t : Task} (ht : c.task? e.task = some t) :
    ∃ t', (c.finish p e).task? e.task = some t' ∧ t'.isCompleted = true := by
  refine ⟨t.concluded, ?_, ?_⟩
  · rw [Coordinator.task?_finish, if_pos rfl, ht]
    rfl
  · rw [Task.isCompleted, Task.completion_concluded]
    rfl

theorem mem_pending_of_hand (he : d.hand? p = some e) : (some p, e) ∈ d.pending :=
  List.mem_append_right _ (Coordinator.mem_hands.mpr ⟨p, rfl, he⟩)

theorem mem_load_of_pending {taker : Option Nat} (h : (taker, e) ∈ d.pending) : e ∈ d.load :=
  List.mem_append_right _ (List.mem_map_of_mem h)

/-- Who has an entry is in no other place. -/
theorem Sound.mem_places (h : d.Sound) (he : (some p, e) ∈ d.pending) :
    p ∈ d.places ∧ p ∉ d.takers := by
  have pending : p ∈ d.pending.filterMap (·.1) := List.mem_filterMap.mpr ⟨_, he, rfl⟩
  exact ⟨List.mem_append_right _ pending,
    fun hp => (List.nodup_append.mp h.places).2.2 p hp p pending rfl⟩

/-- A processor that is done with an entry is in line again or has stopped. -/
theorem Sound.events_finish (h : d.Sound) {phase : ProcessorPhase} {b : Bool}
    (hp : d.coordinator.processors[p]? = some ⟨phase, b⟩) (he : phase.inHand? = some e) :
    d.ownEvents (d.withCoordinator (d.coordinator.finish p e)) p =
      .processed p e :: if b then [] else [.joined p] := by
  have hand : d.hand? p = some e := (Coordinator.hand?_of_processor hp).trans he
  obtain ⟨queue, after, -⟩ := Coordinator.finish_cases (e := e) hp
  obtain ⟨-, absent⟩ := h.mem_places (mem_pending_of_hand hand)
  have hand' : (d.withCoordinator (d.coordinator.finish p e)).hand? p = none := after
  have takers : (d.withCoordinator (d.coordinator.finish p e)).takers =
      if b then d.takers else d.takers ++ [p] := by
    refine (congrArg TaskQueue.takers queue).trans ?_
    cases b <;> rfl
  rw [ownEvents, hand, hand', takers]
  cases b <;> simp [absent]

theorem Sound.move_finish (h : d.Sound) {phase : ProcessorPhase} {b : Bool}
    (hp : d.coordinator.processors[p]? = some ⟨phase, b⟩) (he : phase.inHand? = some e) :
    Move d (d.withCoordinator (d.coordinator.finish p e))
      (d.ownEvents (d.withCoordinator (d.coordinator.finish p e)) p) := by
  have hand : d.hand? p = some e := (Coordinator.hand?_of_processor hp).trans he
  obtain ⟨queue, after, others⟩ := Coordinator.finish_cases (e := e) hp
  have hands : d.coordinator.hands.Perm ((some p, e) :: (d.coordinator.finish p e).hands) :=
    Coordinator.hands_perm_cons after hand fun q hq => (others q hq).symm
  obtain ⟨t, ht⟩ := Option.isSome_iff_exists.mp
    (h.tasks e (mem_load_of_pending (mem_pending_of_hand hand)))
  have completed := isCompleted_of_finish (p := p) d.coordinator ht
  rw [h.events_finish hp he]
  cases b with
  | true => exact .finish hands completed (congrArg (Books.mk · _ _) queue)
  | false => exact .rejoin hands completed (congrArg (Books.mk · _ _) queue)

/-- A taker that has not begun with its entry has none in hand. -/
theorem Sound.free_of_leaving (h : d.Sound) {k : Nat} (hk : d.leaving[k]? = some (some p, e)) :
    d.hand? p = none ∧ p < d.size := by
  have leaving := List.mem_of_getElem? hk
  have place := (h.mem_places (List.mem_append_left _ leaving)).1
  refine ⟨Option.eq_none_iff_forall_ne_some.mpr fun e' he' => ?_, h.numbers p place⟩
  have places := (List.nodup_append.mp h.places).2.1
  rw [pending, List.filterMap_append] at places
  exact (List.nodup_append.mp places).2.2 p (List.mem_filterMap.mpr ⟨_, leaving, rfl⟩) p
    (List.mem_filterMap.mpr ⟨_, Coordinator.mem_hands.mpr ⟨p, rfl, he'⟩, rfl⟩) rfl

/-- What happens in every act is one of the moves. -/
theorem Sound.move (h : d.Sound) (hs : d.step a = some d') : Move d d' (d.eventsOf d' a) := by
  cases a with
  | create j now =>
      obtain rfl := Option.some.inj hs
      exact .quiet rfl .rfl
  | call c =>
      obtain ⟨t, ht, rfl⟩ := Option.map_eq_some_iff.mp hs
      exact .quiet (congrArg (Books.mk · _ _) (Workshop.queue_perform ..)) .rfl
  | announce e =>
      obtain ⟨t, ht, rfl⟩ := Option.map_eq_some_iff.mp hs
      exact .announce (Option.isSome_iff_exists.mpr ⟨t, ht⟩) rfl .rfl
  | put k =>
      obtain ⟨e, he, rfl⟩ := Option.map_eq_some_iff.mp hs
      rw [eventsOf, he]
      exact .put he rfl .rfl
  | pass =>
      obtain ⟨⟨e, q⟩, hq, rfl⟩ := Option.map_eq_some_iff.mp hs
      rw [eventsOf, hq]
      unfold TaskQueue.pass? at hq
      split at hq
      next _ _ ht he =>
        obtain ⟨rfl, rfl⟩ := Prod.mk.inj (Option.some.inj hq)
        exact @Move.handOut _ _ none _ d.queue.takers _ rfl he rfl .rfl
      next => simp at hq
  | handOut =>
      obtain ⟨⟨p, e, q⟩, hq, rfl⟩ := Option.map_eq_some_iff.mp hs
      rw [eventsOf, hq]
      unfold TaskQueue.handOut? at hq
      split at hq
      next _ _ _ _ ht he =>
        obtain ⟨rfl, hr⟩ := Prod.mk.inj (Option.some.inj hq)
        obtain ⟨rfl, rfl⟩ := Prod.mk.inj hr
        exact @Move.handOut _ _ (some _) _ _ _ ht he rfl .rfl
      next => simp at hq
  | wait =>
      obtain rfl := Option.some.inj hs
      exact .ofJoin h (r := ⟨.stopped, true⟩) rfl rfl rfl
  | spawn =>
      obtain rfl := Option.some.inj hs
      exact .ofJoin h (r := ⟨.idle, false⟩) rfl rfl rfl
  | cancel p =>
      simp only [step, Option.ite_none_right_eq_some, Option.some.injEq] at hs
      obtain ⟨-, rfl⟩ := hs
      exact .ofCancel (fun _ => rfl) rfl
  | stop p =>
      obtain rfl := Option.some.inj hs
      have hand : (d.withCoordinator (d.stop p)).hand? = d.hand? ∧
          ((d.stop p).workshop.queue = d.queue ∨ (d.stop p).workshop.queue = d.queue.cancel p) := by
        rw [Dock.stop]
        split
        next => exact ⟨funext (Coordinator.alike_mark _ p).hand, .inl rfl⟩
        next => exact ⟨funext (Coordinator.alike_stop _ p).hand, Coordinator.queue_stop ..⟩
      obtain ⟨hand, queue | queue⟩ := hand
      · exact .ofQuiet (congrFun hand) (congrArg (Books.mk · _ _) queue)
      · exact .ofCancel (congrFun hand) (congrArg (Books.mk · _ _) queue)
  | discount k now id =>
      simp only [step, Option.bind_eq_bind, Option.bind_eq_some_iff] at hs
      obtain ⟨⟨taker, e⟩, he, hs⟩ := hs
      rw [eventsOf, he]
      split at hs
      next p hp =>
        obtain ⟨rfl, hguest⟩ := Option.filter_eq_some_iff.mp hp
        obtain ⟨⟨c, o⟩, ha, rfl⟩ := Option.map_eq_some_iff.mp hs
        obtain ⟨before, lt⟩ := h.free_of_leaving he
        obtain ⟨t, -, processors, -⟩ := Coordinator.accept_eq ha
        have there : d.coordinator.processors[p]? = some d.coordinator.processors[p] :=
          List.getElem?_eq_getElem lt
        have after := Coordinator.hand?_withProcessor there (.saving e (t.record id)) processors
        have hands := Coordinator.hands_perm_cons before after
          (Coordinator.hand?_withProcessor_of_ne processors)
        have queue : c.workshop.queue = d.queue.discount :=
          (congrArg Workshop.queue (Coordinator.workshop_accept ha)).trans
            (Workshop.queue_settle ..)
        have owner : (some p).all (fun p => decide (p ∈ d.guests)) = false := by
          simpa using hguest
        rw [Option.toList_some, List.filter_cons_of_neg (by simp [owner])]
        exact .begin he (congrArg (Books.mk · _ _) queue) hands
      next hp =>
        obtain rfl := Option.some.inj hs
        have guest : ∀ p ∈ taker, p ∈ d.guests := by
          intro p htaker
          by_contra hguest
          exact Option.filter_eq_none_iff.mp hp p htaker (by simpa using hguest)
        have owner : taker.all (fun p => decide (p ∈ d.guests)) = true := by
          cases taker <;> simp_all
        rw [Option.toList_some, List.filter_cons_of_pos (by exact owner)]
        exact .deliver he guest rfl .rfl
  | saved p =>
      obtain ⟨⟨c, o⟩, hm, rfl⟩ := Option.map_eq_some_iff.mp hs
      cases Coordinator.saved_move hm with
      | @report _ e r b t url hp ht hr hu =>
          refine .ofQuiet (fun q => ?_) rfl
          by_cases hq : p = q
          · subst hq
            exact (Coordinator.hand?_withProcessor hp (.reporting e) rfl).trans
              (Coordinator.hand?_of_processor hp).symm
          · have processors : (d.coordinator.withProcessor p (.reporting e)).processors =
                (d.coordinator.withProcessor p (.reporting e)).processors := rfl
            exact Coordinator.hand?_withProcessor_of_ne processors q hq
      | pass hp ht hr => exact h.move_finish hp rfl
  | reported p =>
      obtain ⟨⟨c, o⟩, hm, rfl⟩ := Option.map_eq_some_iff.mp hs
      cases Coordinator.reported_move hm with
      | reported hp => exact h.move_finish hp rfl

end Dock

end Foreman
