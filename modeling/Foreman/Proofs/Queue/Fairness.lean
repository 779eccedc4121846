import Foreman.Proofs.Queue.Moves
import Mathlib.Data.List.Perm.Basic

/-!
The queue is fair to entries and takers. Entries are handed out in the order in which they were put in,
to takers in the order in which these got in line, and each goes to one taker. The count is right
whenever nobody is in the middle of something, and a processor that has an entry gets done with it.
-/

namespace Foreman

namespace Workshop

/-- The tasks stay, and those that are completed stay so. -/
def Lasts (w w' : Workshop) : Prop :=
  ∀ i t, w.task? i = some t →
    ∃ t', w'.task? i = some t' ∧ (t.isCompleted = true → t'.isCompleted = true)

variable {w w' w'' : Workshop}

theorem Lasts.of_map (h : ∀ i, ∃ g : Task → Task, w'.task? i = (w.task? i).map g ∧
    ∀ t, t.isCompleted = true → (g t).isCompleted = true) : w.Lasts w' := by
  intro i t ht
  obtain ⟨g, hg, keeps⟩ := h i
  exact ⟨g t, by rw [hg, ht]; rfl, keeps t⟩

theorem Lasts.of_tasks (h : w'.tasks = w.tasks) : w.Lasts w' :=
  .of_map fun i => ⟨id, by rw [task?, task?, h, Option.map_id_apply], fun _ => id⟩

theorem Lasts.trans (h : w.Lasts w') (h' : w'.Lasts w'') : w.Lasts w'' := by
  intro i t ht
  obtain ⟨t', ht', keeps⟩ := h i t ht
  obtain ⟨t'', ht'', keeps'⟩ := h' i t' ht'
  exact ⟨t'', ht'', keeps' ∘ keeps⟩

theorem lasts_create (w : Workshop) (t : Task) : w.Lasts (w.create t) := by
  intro i u hu
  have hi : i < w.tasks.length := (List.getElem?_eq_some_iff.mp hu).1
  refine ⟨u, ?_, id⟩
  rw [task?, create, List.getElem?_append_left hi]
  exact hu

theorem lasts_settle (w : Workshop) (e : QueuedTask) (now : Instant) : w.Lasts (w.settle e now) := by
  refine .of_map fun i => ?_
  rcases Coordinator.task?_settle_cases w e now i with h | ⟨-, h⟩
  · exact ⟨id, by rw [h, Option.map_id_apply], fun _ => id⟩
  · refine ⟨_, h, fun t ht => ?_⟩
    rwa [Task.isCompleted, show (t.settle now).completion = _ from
      congrArg Prod.snd (t.kept_settle now)]

theorem Lasts.of_concluded {k : Nat}
    (h : ∀ i, w'.task? i = if k = i then (w.task? i).map Task.concluded else w.task? i) :
    w.Lasts w' := by
  refine .of_map fun i => ?_
  have task := h i
  split at task
  next =>
    refine ⟨_, task, fun t ht => ?_⟩
    rwa [Task.concluded, if_pos ht]
  next => exact ⟨id, by rw [task, Option.map_id_apply], fun _ => id⟩

theorem lasts_perform (w : Workshop) (c : Call) : w.Lasts (w.perform c) := by
  cases c with
  | submit i =>
      refine .of_tasks ?_
      rw [perform]
      unfold submit
      split
      next t _ => cases w.running.submit t.identity i <;> rfl
      next => rfl
  | remove i =>
      refine .of_tasks ?_
      rw [perform]
      unfold remove
      split <;> rfl
  | complete i => exact .of_concluded (task?_complete w i)

end Workshop

namespace Dock

variable {d d' : Dock} {a : Act} {p : Nat} {e : QueuedTask} {l l' : List Event}

/-- What an act leaves as it is. -/
structure Lasts (d d' : Dock) : Prop where
  size : d.size ≤ d'.size
  guests : d.guests ⊆ d'.guests
  workshop : d.workshop.Lasts d'.workshop

theorem lasts_finish (d : Dock) (p : Nat) (e : QueuedTask) :
    d.Lasts (d.withCoordinator (d.coordinator.finish p e)) where
  size := by
    show _ ≤ (d.coordinator.finish p e).processors.length
    unfold Coordinator.finish
    cases d.coordinator.workshop.complete e.task <;> dsimp only <;> split <;>
      simp [Coordinator.withProcessor, size]
  guests := List.Subset.refl _
  workshop := .of_concluded (Coordinator.task?_finish d.coordinator p e)

theorem lasts_step (hs : d.step a = some d') : d.Lasts d' := by
  cases a with
  | create j now =>
      obtain rfl := Option.some.inj hs
      exact ⟨Nat.le_refl _, List.Subset.refl _, Workshop.lasts_create _ _⟩
  | call c =>
      obtain ⟨t, -, rfl⟩ := Option.map_eq_some_iff.mp hs
      exact ⟨Nat.le_refl _, List.Subset.refl _, Workshop.lasts_perform _ c⟩
  | announce | put | pass | handOut =>
      obtain ⟨_, -, rfl⟩ := Option.map_eq_some_iff.mp hs
      exact ⟨Nat.le_refl _, List.Subset.refl _, .of_tasks rfl⟩
  | wait =>
      obtain rfl := Option.some.inj hs
      refine ⟨?_, List.subset_append_left .., .of_tasks rfl⟩
      simp [size, withCoordinator, Coordinator.withQueue, Rehearsal.Bench.addProcessor]
  | spawn =>
      obtain rfl := Option.some.inj hs
      refine ⟨?_, List.Subset.refl _, .of_tasks rfl⟩
      simp [size, withCoordinator, Coordinator.spawn]
  | cancel p =>
      simp only [step, Option.ite_none_right_eq_some, Option.some.injEq] at hs
      obtain ⟨-, rfl⟩ := hs
      exact ⟨Nat.le_refl _, List.Subset.refl _, .of_tasks rfl⟩
  | stop p =>
      obtain rfl := Option.some.inj hs
      have kept : (d.stop p).processors.length = d.size ∧ (d.stop p).workshop.tasks =
          d.workshop.tasks := by
        unfold Dock.stop Coordinator.stop
        split
        next => exact ⟨List.length_modify .., rfl⟩
        next => split <;> exact ⟨List.length_modify .., rfl⟩
      exact ⟨Nat.le_of_eq kept.1.symm, List.Subset.refl _, .of_tasks kept.2⟩
  | discount k now id =>
      simp only [step, Option.bind_eq_bind, Option.bind_eq_some_iff] at hs
      obtain ⟨⟨taker, e⟩, -, hs⟩ := hs
      split at hs
      next p _ =>
        obtain ⟨⟨c, o⟩, ha, rfl⟩ := Option.map_eq_some_iff.mp hs
        obtain ⟨t, -, processors, -⟩ := Coordinator.accept_eq ha
        have size : c.processors.length = d.size := by
          rw [processors]
          exact List.length_modify ..
        refine ⟨Nat.le_of_eq size.symm, List.Subset.refl _, ?_⟩
        show d.workshop.Lasts c.workshop
        rw [Coordinator.workshop_accept ha]
        have settled := Workshop.lasts_settle (d.withQueue d.queue.discount).workshop e now
        exact Workshop.Lasts.trans (.of_tasks rfl) settled
      next =>
        obtain rfl := Option.some.inj hs
        exact ⟨Nat.le_refl _, List.Subset.refl _, .of_tasks rfl⟩
  | saved p =>
      obtain ⟨⟨c, o⟩, hm, rfl⟩ := Option.map_eq_some_iff.mp hs
      cases Coordinator.saved_move hm with
      | report =>
          exact ⟨Nat.le_of_eq (List.length_modify ..).symm, List.Subset.refl _, .of_tasks rfl⟩
      | pass => exact lasts_finish ..
  | reported p =>
      obtain ⟨⟨c, o⟩, hm, rfl⟩ := Option.map_eq_some_iff.mp hs
      cases Coordinator.reported_move hm
      exact lasts_finish ..

theorem perm_eraseIdx {α : Type} {l : List α} {k : Nat} {a : α} (h : l[k]? = some a) :
    l.Perm (a :: l.eraseIdx k) := by
  obtain ⟨hk, rfl⟩ := List.getElem?_eq_some_iff.mp h
  exact (List.getElem_cons_eraseIdx_perm hk).symm

/-- Entries become pending by being handed out and are no more once they are settled. -/
theorem Move.pending (m : Move d d' l) :
    (l.filterMap Event.handed? ++ d.pending).Perm (l.filterMap Event.settled? ++ d'.pending) := by
  have split (d : Dock) : d.pending = d.books.leaving ++ d.coordinator.hands := rfl
  cases m with
  | quiet books hands | announce _ books hands | put _ books hands | join _ _ books hands
  | quit _ books hands =>
      rw [split d, split d', books]
      exact (hands.symm.append_left _)
  | handOut _ _ books hands =>
      rw [split d, split d', books, List.append_assoc]
      exact ((hands.symm.append_left _).cons _).trans List.perm_middle.symm
  | deliver he _ books hands =>
      rw [split d, split d', books]
      exact (perm_eraseIdx he).append hands.symm
  | begin he books hands =>
      rw [split d, split d', books]
      exact ((perm_eraseIdx he).append_right _).trans
        (List.perm_middle.symm.trans (hands.symm.append_left _))
  | finish hands _ books | rejoin hands _ books =>
      rw [split d, split d', books]
      exact (hands.append_left _).trans List.perm_middle

/-- Who gets in line goes to its end, and who is served stands at its head, unless somebody quits. -/
theorem Move.line_cases (m : Move d d' l) :
    l.filterMap Event.quit? = [] ∧
        l.filterMap Event.served? ++ d'.takers = d.takers ++ l.filterMap Event.joined? ∨
      ∃ p ∈ d.takers, l = [.quit p] ∧ d'.takers = d.takers.filter (· ≠ p) := by
  have takers {b : Books} (books : d'.books = b) : d'.takers = b.queue.takers :=
    congrArg (·.queue.takers) books
  cases m with
  | quiet books | announce _ books | put _ books | deliver _ _ books | begin _ books
  | finish _ _ books => exact .inl ⟨rfl, (takers books).trans (List.append_nil _).symm⟩
  | join _ _ books | rejoin _ _ books => exact .inl ⟨rfl, takers books⟩
  | quit hp books => exact .inr ⟨_, hp, rfl, takers books⟩
  | @handOut taker _ _ _ ht _ books =>
      rw [takers books, ht]
      cases taker <;> exact .inl ⟨rfl, (List.append_nil _).symm⟩

theorem Move.line (m : Move d d' l) :
    (l.filterMap Event.served? ++ d'.takers).Sublist (d.takers ++ l.filterMap Event.joined?) := by
  rcases m.line_cases with ⟨-, line⟩ | ⟨p, -, rfl, takers⟩
  · rw [line]
  · rw [takers]
    show (d.takers.filter _).Sublist (d.takers ++ [])
    rw [List.append_nil]
    exact List.filter_sublist

theorem Move.line_perm (m : Move d d' l) (nodup : d.takers.Nodup) :
    (d.takers ++ l.filterMap Event.joined?).Perm
      (l.filterMap Event.served? ++ d'.takers ++ l.filterMap Event.quit?) := by
  rcases m.line_cases with ⟨quits, line⟩ | ⟨p, hp, rfl, takers⟩
  · rw [quits, line, List.append_nil]
  · have erased : d.takers.filter (· ≠ p) = d.takers.erase p := by
      rw [nodup.erase_eq_filter]
      exact List.filter_congr fun q _ => by rw [bne, beq_eq_decide, decide_not]
    rw [takers, erased]
    show (d.takers ++ []).Perm (d.takers.erase p ++ [p])
    rw [List.append_nil]
    exact (List.perm_cons_erase hp).trans (List.perm_append_singleton ..).symm

/-- The takers of entries that are settled are in no place any more. -/
def leavers (l : List Event) : List Nat := (l.filterMap Event.settled?).filterMap (·.1)

theorem served_eq (l : List Event) :
    l.filterMap Event.served? = (l.filterMap Event.handed?).filterMap (·.1) := by
  rw [List.filterMap_filterMap]
  exact congrArg (List.filterMap · l) (funext fun x => by cases x <;> rfl)

theorem Move.count_places (m : Move d d' l) (nodup : d.takers.Nodup) (q : Nat) :
    d'.places.count q + (l.filterMap Event.quit?).count q + (leavers l).count q =
      d.places.count q + (l.filterMap Event.joined?).count q := by
  have line := (m.line_perm nodup).count_eq q
  have pending := (m.pending.filterMap (·.1)).count_eq q
  simp only [List.filterMap_append, List.count_append, ← served_eq] at line pending
  simp only [places, leavers, List.count_append]
  omega

theorem Sound.takers_nodup (h : d.Sound) : d.takers.Nodup := (List.nodup_append.mp h.places).1

/-- Who gets in line has been in no place or has just left one. -/
theorem Move.count_joined (m : Move d d' l) (h : d.Sound) (q : Nat) :
    d.places.count q + (l.filterMap Event.joined?).count q ≤ 1 + (leavers l).count q := by
  have places := List.nodup_iff_count_le_one.mp h.places q
  cases m with
  | @join p fresh =>
      show d.places.count q + [p].count q ≤ 1 + 0
      by_cases hq : p = q
      · subst hq
        have absent : d.places.count p = 0 :=
          List.count_eq_zero.mpr fun hp => Nat.not_lt.mpr fresh (h.numbers p hp)
        simp [absent]
      · simpa [List.count_cons, hq] using places
  | @rejoin p =>
      show d.places.count q + [p].count q ≤ 1 + [p].count q
      omega
  | handOut | deliver | _ => exact Nat.le_trans places (Nat.le_add_right ..)

theorem Move.joined_lt (m : Move d d' l) (h : d.Sound) (last : d.Lasts d') {q : Nat}
    (hq : q ∈ l.filterMap Event.joined?) : q < d'.size := by
  cases m with
  | join _ there =>
      obtain rfl := List.mem_singleton.mp hq
      exact there
  | rejoin hands =>
      obtain rfl := List.mem_singleton.mp hq
      have held := List.mem_append_right d.leaving (hands.mem_iff.mpr List.mem_cons_self)
      exact Nat.lt_of_lt_of_le (h.numbers _ (h.mem_places held).1) last.size
  | _ => cases hq

/-- Each entry that was announced and not put in yet, that is in the queue, or that was handed out and
not discounted yet counts as one. -/
def Books.Balanced (b : Books) : Prop :=
  b.queue.count = b.queue.entries.length + b.arriving.length + b.leaving.length

theorem Move.balanced (m : Move d d' l) (h : d.books.Balanced) : d'.books.Balanced := by
  have bal : d.queue.count = d.entries.length + d.arriving.length + d.leaving.length := h
  cases m with
  | quiet books | finish _ _ books => rwa [books]
  | join _ _ books | quit _ books | rejoin _ _ books =>
      rw [books]
      exact h
  | @announce e _ books =>
      rw [books]
      show d.queue.count + 1 = d.entries.length + (d.arriving ++ [e]).length + d.leaving.length
      rw [List.length_append, List.length_singleton]
      omega
  | @put k e he books =>
      rw [books]
      show d.queue.count =
        (d.entries ++ [e]).length + (d.arriving.eraseIdx k).length + d.leaving.length
      have := (perm_eraseIdx he).length_eq
      rw [List.length_cons] at this
      rw [List.length_append, List.length_singleton]
      omega
  | @handOut taker e takers entries _ he books =>
      rw [books]
      show d.queue.count = entries.length + d.arriving.length + (d.leaving ++ [(taker, e)]).length
      rw [he, List.length_cons] at bal
      rw [List.length_append, List.length_singleton]
      omega
  | @deliver k _ _ he _ books | @begin k _ _ he books =>
      rw [books]
      show d.queue.count - 1 =
        d.entries.length + d.arriving.length + (d.leaving.eraseIdx k).length
      have := (perm_eraseIdx he).length_eq
      rw [List.length_cons] at this
      omega

theorem Move.handed_mem (m : Move d d' l) {taker : Option Nat}
    (h : (taker, e) ∈ l.filterMap Event.handed?) : e ∈ d.entries := by
  cases m with
  | handOut _ he =>
      obtain ⟨-, rfl⟩ := Prod.mk.inj (List.mem_singleton.mp h)
      exact he ▸ List.mem_cons_self
  | _ => cases h

/-- Nothing comes in but by being announced. -/
theorem Move.load (m : Move d d' l) (he : e ∈ d'.load) :
    e ∈ d.load ∨ (d.task? e.task).isSome = true := by
  have before {b : Books} (books : d'.books = b) (he : e ∈ d'.arriving ++ d'.entries) :
      e ∈ b.arriving ++ b.queue.entries :=
    congrArg (fun b => Books.arriving b ++ b.queue.entries) books ▸ he
  rcases List.mem_append.mp he with he | he
  · have old (he : e ∈ d.arriving ++ d.entries) : e ∈ d.load ∨ (d.task? e.task).isSome = true :=
      .inl (List.mem_append_left _ he)
    cases m with
    | quiet books | join _ _ books | quit _ books | deliver _ _ books | begin _ books
    | finish _ _ books | rejoin _ _ books => exact old (before books he)
    | announce there books =>
        have he := before books he
        simp only [List.mem_append, List.mem_singleton] at he
        rcases he with (he | rfl) | he
        · exact old (List.mem_append_left _ he)
        · exact .inr there
        · exact old (List.mem_append_right _ he)
    | @put k e' hk books =>
        have he : e ∈ d.arriving.eraseIdx k ++ (d.entries ++ [e']) := before books he
        simp only [List.mem_append, List.mem_singleton] at he
        rcases he with he | he | rfl
        · exact old (List.mem_append_left _ (List.mem_of_mem_eraseIdx he))
        · exact old (List.mem_append_right _ he)
        · exact old (List.mem_append_left _ (List.mem_of_getElem? hk))
    | handOut _ hentries books =>
        rcases List.mem_append.mp (before books he) with he | he
        · exact old (List.mem_append_left _ he)
        · exact old (List.mem_append_right _ (hentries ▸ List.mem_cons_of_mem _ he))
  · obtain ⟨⟨taker, e⟩, hx, rfl⟩ := List.mem_map.mp he
    left
    rcases List.mem_append.mp (m.pending.mem_iff.mpr (List.mem_append_right _ hx)) with hx | hx
    · exact List.mem_append_left _ (List.mem_append_right _ (m.handed_mem hx))
    · exact mem_load_of_pending hx

theorem Sound.step (h : d.Sound) (hs : d.step a = some d') : d'.Sound := by
  have m := h.move hs
  have last := lasts_step hs
  generalize d.eventsOf d' a = l at m
  have places (q : Nat) := m.count_places h.takers_nodup q
  refine ⟨?_, fun q hq => ?_, m.balanced h.count, fun e he => ?_⟩
  · refine List.nodup_iff_count_le_one.mpr fun q => ?_
    have joined := m.count_joined h q
    have := places q
    omega
  · have := places q
    have := List.count_pos_iff.mpr hq
    rcases Nat.eq_zero_or_pos (d.places.count q) with hzero | hpos
    · exact m.joined_lt h last (List.count_pos_iff.mp (by omega))
    · exact Nat.lt_of_lt_of_le (h.numbers q (List.count_pos_iff.mp hpos)) last.size
  · have there : (d.task? e.task).isSome = true := (m.load he).elim (h.tasks e) id
    obtain ⟨t, ht⟩ := Option.isSome_iff_exists.mp there
    obtain ⟨t', ht', -⟩ := last.workshop e.task t ht
    exact Option.isSome_iff_exists.mpr ⟨t', ht'⟩

theorem sound_empty (reports : Bool) : (empty reports).Sound where
  places := List.nodup_nil
  numbers _ hp := by cases hp
  count := rfl
  tasks _ he := by cases he

theorem sound_of_run {reports : Bool} {as : List Act} (run : Run step (.empty reports) as d) :
    d.Sound :=
  run.invariant (sound_empty reports) fun _ _ _ h hs => h.step hs

/-- What has happened, as it shows in a dock. -/
structure History (d : Dock) (l : List Event) : Prop where
  entries : (l.filterMap Event.handed?).map (·.2) ++ d.entries = l.filterMap Event.put?
  order : (l.filterMap Event.served? ++ d.takers).Sublist (l.filterMap Event.joined?)
  line : (l.filterMap Event.joined?).Perm
    (l.filterMap Event.served? ++ d.takers ++ l.filterMap Event.quit?)
  settled : (l.filterMap Event.handed?).Perm (l.filterMap Event.settled? ++ d.pending)
  returned : ∀ p e, .returned (some p) e ∈ l → p ∈ d.guests
  processed : ∀ p e, .processed p e ∈ l → ∃ t, d.task? e.task = some t ∧ t.isCompleted = true

theorem Move.entries (m : Move d d' l) :
    (l.filterMap Event.handed?).map (·.2) ++ d'.entries = d.entries ++ l.filterMap Event.put? := by
  have entries {b : Books} (books : d'.books = b) : d'.entries = b.queue.entries :=
    congrArg (·.queue.entries) books
  cases m with
  | quiet books | announce _ books | join _ _ books | quit _ books | deliver _ _ books
  | begin _ books | finish _ _ books | rejoin _ _ books =>
      exact (entries books).trans (List.append_nil _).symm
  | put _ books => exact entries books
  | handOut _ he books =>
      rw [entries books, he]
      exact (List.append_nil _).symm

theorem History.extend (h : History d l) (sound : d.Sound) (m : Move d d' l') (last : d.Lasts d') :
    History d' (l ++ l') where
  entries := by
    rw [List.filterMap_append, List.filterMap_append, List.map_append, List.append_assoc, m.entries,
      ← List.append_assoc, h.entries]
  order := by
    rw [List.filterMap_append, List.filterMap_append, List.append_assoc]
    refine (m.line.append_left _).trans ?_
    rw [← List.append_assoc]
    exact h.order.append_right _
  line := by
    have line := m.line_perm sound.takers_nodup
    simp only [List.filterMap_append]
    refine List.perm_iff_count.mpr fun q => ?_
    have before := h.line.count_eq q
    have now := line.count_eq q
    simp only [List.count_append] at before now ⊢
    omega
  settled := by
    simp only [List.filterMap_append]
    refine (h.settled.append_right _).trans ?_
    rw [List.append_assoc, List.append_assoc]
    exact (List.perm_append_comm.trans m.pending).append_left _
  returned p e he := by
    rcases List.mem_append.mp he with he | he
    · exact last.guests (h.returned p e he)
    · cases m with
      | deliver _ guest =>
          obtain ⟨rfl, rfl⟩ := Event.returned.inj (List.mem_singleton.mp he)
          exact last.guests (guest p rfl)
      | _ => simp at he
  processed p e he := by
    rcases List.mem_append.mp he with he | he
    · obtain ⟨t, ht, completed⟩ := h.processed p e he
      obtain ⟨t', ht', keeps⟩ := last.workshop e.task t ht
      exact ⟨t', ht', keeps completed⟩
    · cases m with
      | finish _ completed | rejoin _ completed =>
          simp only [List.mem_cons, Event.processed.injEq, reduceCtorEq, List.not_mem_nil,
            or_false] at he
          exact he.2 ▸ completed
      | _ => simp at he

theorem history_of_run {reports : Bool} {as : List Act} (run : Run step (.empty reports) as d) :
    History d (notes step events (.empty reports) as) := by
  induction run with
  | nil => exact ⟨rfl, .refl _, .refl _, .refl _, by simp [notes], by simp [notes]⟩
  | @snoc as d d' a before last ih =>
      have sound := sound_of_run before
      have events : d.events a = d.eventsOf d' a := by rw [Dock.events, last]
      rw [notes_snoc _ before last, events]
      exact ih.extend sound (sound.move last) (lasts_step last)

/-! ### A processor gets done -/

theorem events_of_step (hs : d.step a = some d') : d.events a = d.eventsOf d' a := by
  rw [events, hs]

section Done

variable {r : BuildRecord} {b : Bool}

theorem Sound.done_finish (h : d.Sound) {phase : ProcessorPhase}
    (hp : d.coordinator.processors[p]? = some ⟨phase, b⟩) (he : phase.inHand? = some e) {a : Act}
    (hs : d.step a = some (d.withCoordinator (d.coordinator.finish p e)))
    (own : ∀ d', d.eventsOf d' a = d.ownEvents d' p) :
    .processed p e ∈ notes Dock.step events d [a] := by
  rw [notes, hs, events_of_step hs, own, h.events_finish hp he]
  exact List.mem_append_left _ List.mem_cons_self

theorem Sound.done_reporting (h : d.Sound)
    (hp : d.coordinator.processors[p]? = some ⟨.reporting e, b⟩) :
    ∃ d', Run Dock.step d [.reported p] d' ∧
      .processed p e ∈ notes Dock.step events d [.reported p] := by
  have reported : d.coordinator.reported p = some (d.coordinator.finish p e, none) := by
    simp [Coordinator.reported, hp]
  have hs : d.step (.reported p) = some (d.withCoordinator (d.coordinator.finish p e)) := by
    rw [Dock.step, reported]
    rfl
  exact ⟨_, Run.nil.snoc hs, h.done_finish hp rfl hs fun _ => rfl⟩

theorem Sound.done_saving (h : d.Sound)
    (hp : d.coordinator.processors[p]? = some ⟨.saving e r, b⟩) :
    ∃ as d', as <+: [.saved p, .reported p] ∧ Run Dock.step d as d' ∧
      .processed p e ∈ notes Dock.step events d as := by
  have hand : d.hand? p = some e := Coordinator.hand?_of_processor hp
  obtain ⟨t, ht⟩ := Option.isSome_iff_exists.mp
    (h.tasks e (mem_load_of_pending (mem_pending_of_hand hand)))
  have ht : d.coordinator.task? e.task = some t := ht
  by_cases due : d.coordinator.reports = true ∧ t.job.callbackUrl.isSome = true
  · obtain ⟨reports, url⟩ := due
    obtain ⟨url, hurl⟩ := Option.isSome_iff_exists.mp url
    have saved : d.coordinator.saved p =
        some (d.coordinator.withProcessor p (.reporting e), some (.report p url t.result)) := by
      simp [Coordinator.saved, hp, ht, reports, hurl]
    have hs : d.step (.saved p) =
        some (d.withCoordinator (d.coordinator.withProcessor p (.reporting e))) := by
      rw [Dock.step, saved]
      rfl
    have hp' : (d.withCoordinator (d.coordinator.withProcessor p
        (.reporting e))).coordinator.processors[p]? = some ⟨.reporting e, b⟩ := by
      show (d.coordinator.withProcessor p _).processors[p]? = _
      rw [Coordinator.getElem?_withProcessor, if_pos rfl, hp]
      rfl
    obtain ⟨d', run, done⟩ := (h.step hs).done_reporting hp'
    refine ⟨_, d', List.prefix_rfl, (Run.nil.snoc hs).trans run, ?_⟩
    rw [notes, hs]
    exact List.mem_append_right _ done
  · have saved : d.coordinator.saved p = some (d.coordinator.finish p e, none) := by
      cases hr : d.coordinator.reports <;> cases hu : t.job.callbackUrl <;>
        simp_all [Coordinator.saved]
    have hs : d.step (.saved p) = some (d.withCoordinator (d.coordinator.finish p e)) := by
      rw [Dock.step, saved]
      rfl
    exact ⟨[.saved p], _, ⟨_, rfl⟩, Run.nil.snoc hs, h.done_finish hp rfl hs fun _ => rfl⟩

theorem Sound.done_leaving (h : d.Sound) {k : Nat} (hk : d.leaving[k]? = some (some p, e))
    (guest : p ∉ d.guests) (now : Instant) (id : ResourceId) :
    ∃ as d', as <+: [.discount k now id, .saved p, .reported p] ∧ Run Dock.step d as d' ∧
      .processed p e ∈ notes Dock.step events d as := by
  have held : (some p, e) ∈ d.pending := List.mem_append_left _ (List.mem_of_getElem? hk)
  obtain ⟨t, ht⟩ := Option.isSome_iff_exists.mp (h.tasks e (mem_load_of_pending held))
  have ht : (d.discounted k).coordinator.task? e.task = some t := ht
  obtain ⟨⟨c, o⟩, ha⟩ := Option.isSome_iff_exists.mp (Coordinator.isSome_accept p now id ht)
  have hs : d.step (.discount k now id) = some ((d.discounted k).withCoordinator c) := by
    rw [step_discount hk guest, ha]
    rfl
  obtain ⟨t', -, processors, -⟩ := Coordinator.accept_eq ha
  obtain ⟨⟨phase, b⟩, hr⟩ : ∃ r, d.coordinator.processors[p]? = some r :=
    ⟨_, List.getElem?_eq_getElem (h.free_of_leaving hk).2⟩
  have hp : ((d.discounted k).withCoordinator c).coordinator.processors[p]? =
      some ⟨.saving e (t'.record id), b⟩ := by
    refine (congrArg (·[p]?) processors).trans ?_
    rw [Coordinator.getElem?_withProcessor, if_pos rfl]
    exact congrArg (Option.map _) hr
  obtain ⟨as, d', way, run, done⟩ := (h.step hs).done_saving hp
  refine ⟨_ :: as, d', List.cons_prefix_cons.mpr ⟨rfl, way⟩, (Run.nil.snoc hs).trans run, ?_⟩
  rw [notes, hs]
  exact List.mem_append_right _ done

/-- Whatever has happened and whoever is to stop, a processor that has been handed an entry can go on
to the end with it. -/
theorem Sound.done (h : d.Sound) (he : (some p, e) ∈ d.pending) (guest : p ∉ d.guests) (now : Instant)
    (id : ResourceId) :
    ∃ k as d', as <:+: [.discount k now id, .saved p, .reported p] ∧ Run Dock.step d as d' ∧
      .processed p e ∈ notes Dock.step events d as := by
  rcases List.mem_append.mp he with he | he
  · obtain ⟨k, hk⟩ := List.mem_iff_getElem?.mp he
    obtain ⟨as, d', way, run, done⟩ := h.done_leaving hk guest now id
    exact ⟨k, as, d', way.isInfix, run, done⟩
  · obtain ⟨p, hp, hand⟩ := Coordinator.mem_hands.mp he
    obtain rfl := Option.some.inj hp
    obtain ⟨⟨phase, b⟩, hp, hphase⟩ := Option.bind_eq_some_iff.mp hand
    cases phase with
    | saving e' r =>
        obtain rfl := Option.some.inj hphase
        obtain ⟨as, d', way, run, done⟩ := h.done_saving hp
        exact ⟨0, as, d', way.isInfix.trans (List.suffix_cons ..).isInfix, run, done⟩
    | reporting e' =>
        obtain rfl := Option.some.inj hphase
        obtain ⟨d', run, done⟩ := h.done_reporting hp
        exact ⟨0, _, d', List.IsSuffix.isInfix ⟨[_, _], rfl⟩, run, done⟩
    | idle | stopped => cases hphase

end Done

/-- In any run, however operations come between each other and whoever gives up or is stopped: the
entries that were handed out, followed by those in the queue, are those that were put in. Those who
were served, followed by those in line, have got in line in that order, and only who quit is missing.
Each entry that was handed out is settled or pending with its taker, nobody has two, and the count is
never negative and right when nothing is half done. A processor gives no entry away, completes the tasks
of those that it is done with, and can always go on to the end with the one that it has. -/
theorem queue_fair {reports : Bool} {as : List Act} (run : Run step (.empty reports) as d) :
    let l := notes step events (.empty reports) as
    ((l.filterMap Event.handed?).map (·.2) ++ d.entries = l.filterMap Event.put? ∧
      (l.filterMap Event.served? ++ d.takers).Sublist (l.filterMap Event.joined?) ∧
      (l.filterMap Event.joined?).Perm
        (l.filterMap Event.served? ++ d.takers ++ l.filterMap Event.quit?)) ∧
    ((l.filterMap Event.handed?).Perm (l.filterMap Event.settled? ++ d.pending) ∧
      (l.filterMap Event.put?).Perm
        ((l.filterMap Event.settled?).map (·.2) ++ d.pending.map (·.2) ++ d.entries) ∧
      d.places.Nodup) ∧
    (0 ≤ d.queue.count ∧
      (d.arriving = [] → d.leaving = [] → d.queue.count = d.entries.length)) ∧
    ∀ p, p ∉ d.guests →
      (∀ e, .returned (some p) e ∉ l) ∧
      (∀ e, .processed p e ∈ l → ∃ t, d.task? e.task = some t ∧ t.isCompleted = true) ∧
      ∀ e now id, (some p, e) ∈ d.pending →
        ∃ k as' d', as' <:+: [.discount k now id, .saved p, .reported p] ∧ Run step d as' d' ∧
          .processed p e ∈ notes step events d as' := by
  intro l
  have sound := sound_of_run run
  have history : History d l := history_of_run run
  have count := sound.count
  refine ⟨⟨history.entries, history.order, history.line⟩, ⟨history.settled, ?_, sound.places⟩,
    ⟨by omega, fun arriving leaving => ?_⟩, fun p guest => ⟨fun e he => ?_, ?_, ?_⟩⟩
  · rw [← history.entries, ← List.map_append]
    exact (history.settled.map _).append_right _
  · rw [arriving, leaving] at count
    simpa using count
  · exact guest (history.returned p e he)
  · exact fun e he => history.processed p e he
  · exact fun e now id he => sound.done he guest now id

def finishedEntry (i : Nat) : QueuedTask := ⟨i, .finished ⟨.collectResults, .completed⟩⟩

/-- A guest gives up, and both processors are stopped, one of them while it is being handed an entry;
the other entry stays in the queue. -/
def closure (now : Instant) : List Act := [
  .create (Floor.appBuild now) now,
  .create (Floor.appBuild now) now,
  .wait,
  .spawn,
  .spawn,
  .cancel 0,
  .announce (finishedEntry 0),
  .announce (finishedEntry 1),
  .put 0,
  .handOut,
  .put 0,
  .stop 1,
  .stop 2,
  .discount 0 now ⟨30⟩,
  .saved 1]

theorem closure_runs : ((closure noon).foldlM step (.empty true)).isSome = true := by decide +kernel

theorem queue_fair_closure :
    ∃ d, Run step (.empty true) (closure noon) d ∧
      finishedEntry 0 :: d.entries = [finishedEntry 0, finishedEntry 1] ∧
      d.queue.count = d.entries.length ∧
      ∃ t, d.task? 0 = some t ∧ t.isCompleted = true := by
  have run := Run.iff_foldlM.mpr (Option.some_get closure_runs).symm
  obtain ⟨⟨entries, -, -⟩, -, ⟨-, count⟩, processors⟩ := queue_fair run
  obtain ⟨-, completed, -⟩ := processors 1 (by decide +kernel)
  have handed : ((notes step events (.empty true) (closure noon)).filterMap Event.handed?).map (·.2) =
      [finishedEntry 0] := by decide +kernel
  have put : (notes step events (.empty true) (closure noon)).filterMap Event.put? =
      [finishedEntry 0, finishedEntry 1] := by decide +kernel
  rw [handed, put] at entries
  exact ⟨_, run, entries, count (by decide +kernel) (by decide +kernel),
    completed (finishedEntry 0) (by decide +kernel)⟩

end Dock

end Foreman
