import Foreman.Proofs.Chronology
import Foreman.Proofs.Correlator.Traffic
import Mathlib.Data.List.Dedup

/-!
The correlator as one flat table, from a correlation id and an event type to the newest
registration. What an event does to it is said without any processes, and the processes that are
stored are those with an entry in it.
-/

namespace Foreman

/-- What the start calls have registered, and whom each of them was for. -/
structure FlatTable (L : Type) where
  entries : Table (CorrelationId × EventType) (Registration L)
  calls : List CorrelationId

namespace FlatTable

open Traffic

variable {L : Type}

def empty : FlatTable L := ⟨.empty, []⟩

/-- What an event does: a start puts each of its listeners over an older one, a refusal takes back
what is left of its call, a delivery takes its one entry out, and a process is given up with all
of them. -/
def apply (f : FlatTable L) : Event L → FlatTable L
  | .start id _ _ listeners =>
    { entries := listeners.foldl (fun t l => t.insert (id, l.1) ⟨f.calls.length, l.2⟩) f.entries
      calls := f.calls ++ [id] }
  | .answer n (.error _) =>
    match f.calls[n]? with
    | some id => { f with entries := f.entries.filter fun k r => ¬(k.1 = id ∧ r.call = n) }
    | none => f
  | .dispatch id e _ => { f with entries := f.entries.erase (id, e) }
  | .dispatchNamed id name _ =>
    match EventType.read name with
    | .ok e => { f with entries := f.entries.erase (id, e) }
    | .error _ => f
  | .abandon id => { f with entries := f.entries.filter fun k _ => k.1 ≠ id }
  | .answer _ (.ok _) | .dropCall _ | .enter _ | .finish _ _ | .leave _ => f

/-- After the events, in their order. -/
def after (es : List (Event L)) : FlatTable L := es.foldl apply empty

def HasEntry (f : FlatTable L) (id : CorrelationId) : Prop :=
  ∃ e r, f.entries.get? (id, e) = some r

/-- The ids that have entries, each of them once. -/
def ids (f : FlatTable L) : List CorrelationId := (f.entries.keys.map Prod.fst).dedup

theorem after_concat (es : List (Event L)) (ev : Event L) :
    after (es ++ [ev]) = (after es).apply ev := by
  rw [after, List.foldl_append]
  rfl

theorem mem_ids {f : FlatTable L} {id : CorrelationId} : id ∈ f.ids ↔ f.HasEntry id := by
  rw [ids, List.mem_dedup, List.mem_map]
  constructor
  · rintro ⟨⟨id, e⟩, hk, rfl⟩
    obtain ⟨r, hr⟩ := Option.isSome_iff_exists.mp ((f.entries.contains_iff_mem _).mpr hk)
    exact ⟨e, r, hr⟩
  · rintro ⟨e, r, hr⟩
    exact ⟨(id, e), (f.entries.contains_iff_mem _).mp (Option.isSome_iff_exists.mpr ⟨r, hr⟩), rfl⟩

section Get

variable (f : FlatTable L) (id id' : CorrelationId) (e' : EventType)

theorem get?_start (process : String) (now : Instant) (listeners : List (EventType × L)) :
    (f.apply (.start id process now listeners)).entries.get? (id', e') =
      if id = id' then (((Table.ofList listeners).get? e').map (Registration.mk f.calls.length)).or
        (f.entries.get? (id', e'))
      else f.entries.get? (id', e') := by
  split
  next hid =>
    subst hid
    refine Table.get?_foldl_insert (f := fun e => (id, e)) ?_ (Registration.mk f.calls.length)
      listeners f.entries e'
    intro a b h
    exact congrArg Prod.snd h
  next hid =>
    refine Table.get?_foldl_insert_of_ne (f := fun e => (id, e)) (Registration.mk f.calls.length)
      listeners f.entries ?_
    intro e h
    exact hid (congrArg Prod.fst h)

theorem get?_refusal {n : Nat} {fault : EngineFault} (hn : f.calls[n]? = some id) :
    (f.apply (.answer n (.error fault))).entries.get? (id', e') =
      if id = id' then (f.entries.get? (id', e')).filter (·.call ≠ n)
      else f.entries.get? (id', e') := by
  simp only [apply, hn, Table.get?_filter]
  by_cases hid : id = id'
  · simp [hid]
  · cases f.entries.get? (id', e') <;> simp [hid, Ne.symm hid, Option.filter]

theorem apply_delivery {ev : Event L} {e : Option EventType} {payload : Json}
    (h : ev.delivery? = some (id, e, payload)) :
    f.apply ev = e.elim f fun e => { f with entries := f.entries.erase (id, e) } := by
  cases ev with
  | dispatch => cases h; rfl
  | dispatchNamed id name payload =>
      cases h
      simp only [apply]
      cases EventType.read name <;> rfl
  | start | answer | dropCall | enter | finish | leave | abandon => cases h

theorem get?_delivery {ev : Event L} {e : Option EventType} {payload : Json}
    (h : ev.delivery? = some (id, e, payload)) :
    (f.apply ev).entries.get? (id', e') =
      if id = id' ∧ e = some e' then none else f.entries.get? (id', e') := by
  rw [apply_delivery f id h]
  cases e with
  | none => simp
  | some e =>
      show (f.entries.erase (id, e)).get? (id', e') = _
      simp [Table.get?_erase]

theorem get?_abandon :
    (f.apply (.abandon id)).entries.get? (id', e') =
      if id = id' then none else f.entries.get? (id', e') := by
  simp only [apply, Table.get?_filter]
  by_cases hid : id = id'
  · cases f.entries.get? (id', e') <;> simp [hid, Option.filter]
  · cases f.entries.get? (id', e') <;> simp [hid, Ne.symm hid, Option.filter]

end Get

/-- The table holds what the correlator has registered, and both count the calls alike. -/
structure Mirrors (f : FlatTable L) (t : Traffic L) : Prop where
  calls : f.calls = t.calls.map Call.id
  next : t.correlator.calls = t.calls.length
  entries : ∀ id e, f.entries.get? (id, e) = t.correlator.registration? id e

theorem Mirrors.step {f : FlatTable L} {reads : L → Json → Bool} {t t' : Traffic L} {ev : Event L}
    (h : f.Mirrors t) (s : Step reads t ev t') : (f.apply ev).Mirrors t' := by
  cases s with
  | @start id process now listeners =>
      have hlen : f.calls.length = t.correlator.calls := by rw [h.calls, List.length_map, h.next]
      refine ⟨?_, ?_, fun id' e => ?_⟩
      · simp [apply, Traffic.start, h.calls]
      · simp [Traffic.start, Correlator.calls_register, h.next]
      · rw [get?_start, hlen, h.entries]
        exact (t.correlator.registration?_register id id' e process now listeners).symm
  | accept | dropCall =>
      exact ⟨h.calls.trans (ids_withCall ..).symm, by simp [withCall, h.next], h.entries⟩
  | @refuse n c fault hc hp =>
      have hid : f.calls[n]? = some c.id := by simp [h.calls, hc]
      refine ⟨?_, ?_, fun id' e => ?_⟩
      · rw [ids_withCall]
        simp only [apply, hid]
        exact h.calls
      · show (t.correlator.withdraw c.id n).calls = _
        rw [Correlator.calls_withdraw, h.next]
        simp [withCall]
      · rw [get?_refusal f c.id id' e hid, h.entries]
        exact (t.correlator.registration?_withdraw c.id id' e n).symm
  | @deliver ev id e payload hev =>
      refine ⟨?_, ?_, fun id' e' => ?_⟩
      · rw [apply_delivery f id hev]
        cases e <;> exact h.calls
      · rw [calls_deliver]
        exact h.next
      · rw [get?_delivery f id id' e' hev, h.entries, registration?_deliver]
  | enter | finish | leave => exact ⟨h.calls, h.next, h.entries⟩
  | @abandon id =>
      refine ⟨h.calls, ?_, fun id' e => ?_⟩
      · rw [← h.next]
        exact t.correlator.calls_giveUp id
      · rw [get?_abandon, h.entries]
        exact (t.correlator.registration?_giveUp id id' e).symm

theorem mirrors_of_run {reads : L → Json → Bool} {es : List (Event L)} {t : Traffic L}
    (run : Run (Traffic.step reads) .empty es t) : (after es).Mirrors t := by
  induction run with
  | nil => exact ⟨rfl, rfl, fun _ _ => rfl⟩
  | snoc before last ih =>
      rw [after_concat]
      exact ih.step (step_cases last)

end FlatTable

namespace Correlator

variable {L : Type} {c : Correlator L}

/-- No process is kept without listeners. -/
structure Tight (c : Correlator L) : Prop where
  listeners : ∀ {id p}, c.processes.get? id = some p → p.listeners.isEmpty = false

theorem get?_keep (c : Correlator L) (id id' : CorrelationId) (p : PendingProcess L) :
    (c.keep id p).processes.get? id' =
      if id = id' then if p.listeners.isEmpty then none else some p
      else c.processes.get? id' := by
  unfold keep
  cases p.listeners.isEmpty with
  | true => simp [Table.get?_erase]
  | false => simp [Table.get?_insert]

theorem Tight.keep (h : c.Tight) (id : CorrelationId) (p : PendingProcess L) :
    (c.keep id p).Tight := by
  refine ⟨fun {id' q} hq => ?_⟩
  rw [get?_keep] at hq
  split at hq
  next =>
    split at hq
    next => cases hq
    next hp =>
      obtain rfl := Option.some.inj hq
      exact Bool.eq_false_iff.mpr hp
  next => exact h.listeners hq

theorem Tight.register (h : c.Tight) (id : CorrelationId) (process : String) (now : Instant)
    (listeners : List (EventType × L)) : (c.register id process now listeners).Tight := by
  refine ⟨fun {id' p} hp => ?_⟩
  unfold Correlator.register at hp
  cases listeners with
  | nil => exact h.listeners hp
  | cons l rest =>
      rw [List.isEmpty_cons, if_neg Bool.false_ne_true] at hp
      dsimp only at hp
      obtain ⟨-, rfl⟩ | ⟨-, hp⟩ := Table.get?_insert_cases hp
      · have hl : l.1 ∈ (l :: rest).map Prod.fst := List.mem_cons_self
        obtain ⟨r, hr⟩ := Table.exists_get?_foldl_insert (f := fun e => e) (fun _ _ h => h)
          (Registration.mk c.calls) (l :: rest) _ hl
        exact (Table.isEmpty_eq_false_iff _).mpr ⟨l.1, r, hr⟩
      · exact h.listeners hp

theorem Tight.withdraw (h : c.Tight) (id : CorrelationId) (call : Nat) :
    (c.withdraw id call).Tight := by
  unfold Correlator.withdraw
  split
  next => exact h.keep _ _
  next => exact h

theorem Tight.take (h : c.Tight) (id : CorrelationId) (e : EventType) :
    (c.take id e).2.Tight := by
  unfold Correlator.take consume
  split
  next =>
    dsimp only
    split
    next => exact h.keep _ _
    next => exact h
  next => exact h

theorem Tight.giveUp (h : c.Tight) (id : CorrelationId) : (c.giveUp id).2.Tight := by
  rw [giveUp_eq]
  refine ⟨fun {id' p} hp => ?_⟩
  simp only [abandon, Table.get?_erase] at hp
  split at hp
  next => cases hp
  next => exact h.listeners hp

/-- A process is pending as long as one of its listeners waits. -/
theorem Tight.isPending_iff (h : c.Tight) (id : CorrelationId) :
    c.isPending id = true ↔ ∃ e r, c.registration? id e = some r := by
  have hpending : c.isPending id = true ↔ ∃ p, c.processes.get? id = some p :=
    Option.isSome_iff_exists
  rw [hpending]
  constructor
  · rintro ⟨p, hp⟩
    obtain ⟨e, r, hr⟩ := (Table.isEmpty_eq_false_iff _).mp (h.listeners hp)
    exact ⟨e, r, by simp [registration?, hp, hr]⟩
  · rintro ⟨e, r, hr⟩
    obtain ⟨p, hp, -⟩ := Option.bind_eq_some_iff.mp hr
    exact ⟨p, hp⟩

/-- The processes stored are as many as the ids with an entry. -/
theorem Tight.pendingCount_eq (h : c.Tight) {f : FlatTable L}
    (entries : ∀ id e, f.entries.get? (id, e) = c.registration? id e) :
    c.pendingCount = f.ids.length := by
  have hperm : c.processes.keys.Perm f.ids := by
    refine (List.perm_ext_iff_of_nodup c.processes.distinct (List.nodup_dedup _)).mpr ?_
    intro id
    calc
      id ∈ c.processes.keys ↔ c.isPending id = true := (c.processes.contains_iff_mem id).symm
      _ ↔ f.HasEntry id := by simp only [h.isPending_iff, FlatTable.HasEntry, entries]
      _ ↔ id ∈ f.ids := FlatTable.mem_ids.symm
  calc
    c.pendingCount = c.processes.keys.length := (List.length_map _).symm
    _ = f.ids.length := hperm.length_eq

section Untouched

variable (c : Correlator L) {id id' : CorrelationId} (hid : id ≠ id')
include hid

theorem get?_register_of_ne (process : String) (now : Instant) (listeners : List (EventType × L)) :
    (c.register id process now listeners).processes.get? id' = c.processes.get? id' := by
  unfold Correlator.register
  split
  next => rfl
  next => exact c.processes.get?_insert_of_ne hid _

theorem get?_withdraw_of_ne (call : Nat) :
    (c.withdraw id call).processes.get? id' = c.processes.get? id' := by
  unfold Correlator.withdraw
  split
  next => exact (get?_keep ..).trans (if_neg hid)
  next => rfl

theorem get?_take_of_ne (e : EventType) :
    (c.take id e).2.processes.get? id' = c.processes.get? id' := by
  unfold Correlator.take consume
  split
  next =>
    dsimp only
    split
    next => exact (get?_keep ..).trans (if_neg hid)
    next => rfl
  next => rfl

theorem get?_giveUp_of_ne : (c.giveUp id).2.processes.get? id' = c.processes.get? id' := by
  rw [giveUp_eq]
  exact (Table.get?_erase ..).trans (if_neg hid)

end Untouched

end Correlator

namespace Traffic

variable {L : Type} {reads : L → Json → Bool} {t t' : Traffic L} {es : List (Event L)}
  {ev : Event L}

/-- Whose process an event is about. -/
def subject? (t : Traffic L) : Event L → Option CorrelationId
  | .start id _ _ _ | .dispatch id _ _ | .dispatchNamed id _ _ | .abandon id => some id
  | .answer n _ | .dropCall n => (t.calls[n]?).map Call.id
  | .enter k | .finish k _ | .leave k => (t.deliveries[k]?).map Delivery.id

theorem subject?_delivery {id : CorrelationId} {e : Option EventType} {payload : Json}
    (h : ev.delivery? = some (id, e, payload)) : t.subject? ev = some id := by
  cases ev with
  | dispatch | dispatchNamed => cases h; rfl
  | start | answer | dropCall | enter | finish | leave | abandon => cases h

/-- The processes of others are as before. -/
theorem get?_of_ne_subject (s : Step reads t ev t') {id : CorrelationId}
    (hid : t.subject? ev ≠ some id) :
    t'.correlator.processes.get? id = t.correlator.processes.get? id := by
  cases s with
  | start =>
      exact t.correlator.get?_register_of_ne (fun h => hid (congrArg some h)) ..
  | accept | dropCall | enter | finish | leave => rfl
  | @refuse n c fault hc hp =>
      refine t.correlator.get?_withdraw_of_ne (fun h => hid ?_) n
      simp [subject?, hc, h]
  | @deliver ev id' e payload hev =>
      rw [subject?_delivery hev] at hid
      cases e with
      | none => rfl
      | some e => exact t.correlator.get?_take_of_ne (fun h => hid (congrArg some h)) e
  | abandon => exact t.correlator.get?_giveUp_of_ne fun h => hid (congrArg some h)

theorem tight_step (h : t.correlator.Tight) (s : Step reads t ev t') : t'.correlator.Tight := by
  cases s with
  | start => exact h.register ..
  | accept | dropCall | enter | finish | leave => exact h
  | refuse => exact h.withdraw ..
  | @deliver ev id e payload hev =>
      cases e with
      | none => exact h
      | some e => exact h.take id e
  | abandon => exact h.giveUp _

theorem tight_of_run (run : Run (step reads) .empty es t) : t.correlator.Tight := by
  refine run.invariant (I := fun t => t.correlator.Tight) ?_ ?_
  · refine ⟨fun hp => ?_⟩
    cases hp
  · intro t ev t' h hs
    exact tight_step h (step_cases hs)

/-- After every run the correlator is the flat table: it holds the same registrations, stores a
process exactly for the ids with an entry, and leaves all others alone in each step. -/
theorem refines_flat (run : Run (step reads) .empty es t) :
    (∀ id e, t.correlator.registration? id e = (FlatTable.after es).entries.get? (id, e)) ∧
      (∀ id p, t.correlator.processes.get? id = some p → p.listeners.isEmpty = false) ∧
      (∀ id, t.correlator.isPending id = true ↔ (FlatTable.after es).HasEntry id) ∧
      t.correlator.pendingCount = (FlatTable.after es).ids.length ∧
      (∀ id, (t.correlator.giveUp id).1 = true ↔ (FlatTable.after es).HasEntry id) ∧
      ∀ ev t', step reads t ev = some t' → ∀ id, t.subject? ev ≠ some id →
        t'.correlator.processes.get? id = t.correlator.processes.get? id := by
  have entries := (FlatTable.mirrors_of_run run).entries
  have tight := tight_of_run run
  have pending (id : CorrelationId) :
      t.correlator.isPending id = true ↔ (FlatTable.after es).HasEntry id := by
    simp only [tight.isPending_iff, FlatTable.HasEntry, entries]
  refine ⟨fun id e => (entries id e).symm, fun _ _ => tight.listeners, pending,
    tight.pendingCount_eq entries, ?_, ?_⟩
  · intro id
    rw [Correlator.giveUp_eq]
    exact pending id
  · intro ev t' hs id hid
    exact get?_of_ne_subject (step_cases hs) hid

/-- Two starts of one process, of which the engine refuses the first when the second has taken one
of its listeners over; and another process, which is soon over. -/
def overlap (now : Instant) : List (Event Nat) := [
  .start ⟨"a"⟩ "release" now [(.importSuccess, 0), (.importError, 1)],
  .start ⟨"a"⟩ "release" now [(.importSuccess, 2)],
  .start ⟨"b"⟩ "build" now [(.processProgress, 3)],
  .answer 0 (.error .notConfigured),
  .dispatch ⟨"b"⟩ .processProgress .null]

theorem overlap_runs :
    ((overlap noon).foldlM (step fun _ _ => true) .empty).isSome = true := by
  decide +kernel

/-- Here the refused call leaves the listener of the other one alone. -/
theorem refines_flat_overlap :
    ∃ t, Run (step fun _ _ => true) .empty (overlap noon) t ∧
      t.correlator.isPending ⟨"a"⟩ = true ∧
      (t.correlator.registration? ⟨"a"⟩ .importError).isNone = true ∧
      t.correlator.pendingCount = 1 := by
  obtain ⟨t, ht⟩ := Option.isSome_iff_exists.mp overlap_runs
  have run := Run.iff_foldlM.mpr ht
  obtain ⟨entries, -, pending, count, -⟩ := refines_flat run
  have kept : ((FlatTable.after (overlap noon)).entries.get?
      (⟨"a"⟩, .importSuccess)).isSome = true := by decide +kernel
  obtain ⟨r, hr⟩ := Option.isSome_iff_exists.mp kept
  refine ⟨t, run, (pending ⟨"a"⟩).mpr ⟨_, r, hr⟩, ?_, ?_⟩
  · rw [entries]
    decide +kernel
  · rw [count]
    decide +kernel

end Traffic

end Foreman
