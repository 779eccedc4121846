import Foreman.Proofs.Correlator.Standing

/-!
A start that the engine refuses at once takes back what it registered. A listener that it had replaced
does not come back: the newest registration for an event is the only one, so the process waits for
this event no longer.
-/

namespace Foreman

namespace Correlator

variable {L : Type} {c : Correlator L} {id : CorrelationId} {process : String} {now : Instant}
  {listeners : List (EventType × L)}

/-- Of a process that is registered and withdrawn right away nothing is left but what others had
registered for other events. -/
theorem registration?_withdraw_register
    (older : ∀ e r, c.registration? id e = some r → r.call < c.calls) (id' : CorrelationId)
    (e : EventType) :
    ((c.register id process now listeners).withdraw id c.calls).registration? id' e =
      if id = id' ∧ e ∈ listeners.map Prod.fst then none else c.registration? id' e := by
  rw [registration?_withdraw, registration?_register]
  by_cases hid : id = id'
  · subst hid
    rw [if_pos rfl, if_pos rfl]
    have listed := Table.get?_ofList_isSome listeners e
    cases hl : (Table.ofList listeners).get? e with
    | some l =>
        rw [hl] at listed
        simp [listed.mp rfl]
    | none =>
        rw [hl] at listed
        have other : e ∉ listeners.map Prod.fst := fun h => Bool.false_ne_true (listed.mpr h)
        rw [if_neg fun h => other h.2, Option.map_none, Option.none_or]
        cases hr : c.registration? id e with
        | none => rfl
        | some r => simp [Option.filter, (older e r hr).ne]
  · rw [if_neg hid, if_neg hid, if_neg fun h => hid h.1]

/-- A correlator is as it was for all events to come exactly if these listeners took nobody's place. -/
theorem without_eq_iff (c : Correlator L) (id : CorrelationId) (es : List EventType) :
    (∀ id' e, (if id = id' ∧ e ∈ es then none else c.registration? id' e) = c.registration? id' e) ↔
      ∀ e ∈ es, c.registration? id e = none := by
  constructor
  · intro same e he
    have here := same id e
    rw [if_pos ⟨rfl, he⟩] at here
    exact here.symm
  · intro free id' e
    split
    next h => rw [← h.1, free e h.2]
    next => rfl

end Correlator

namespace Traffic

variable {L : Type} {reads : L → Json → Bool} {t : Traffic L} {es : List (Event L)}

/-- The traffic after a start that was refused before anything else happened. -/
def refused (t : Traffic L) (id : CorrelationId) (process : String) (now : Instant)
    (listeners : List (EventType × L)) : Traffic L :=
  let s := t.start id process now listeners
  { s with correlator := s.correlator.withdraw id t.calls.length }.withCall t.calls.length .refused

theorem refused_runs (reads : L → Json → Bool) (t : Traffic L) (id : CorrelationId)
    (process : String) (now : Instant) (listeners : List (EventType × L)) (fault : EngineFault) :
    Run (step reads) t [.start id process now listeners, .answer t.calls.length (.error fault)]
      (t.refused id process now listeners) := by
  have asked : Run (step reads) t [.start id process now listeners]
      (t.start id process now listeners) := .snoc .nil rfl
  refine asked.snoc ?_
  simp [step, answer, start, refused]

theorem registration?_refused (run : Run (step reads) .empty es t) (id : CorrelationId)
    (process : String) (now : Instant) (listeners : List (EventType × L)) (id' : CorrelationId)
    (e : EventType) :
    (t.refused id process now listeners).correlator.registration? id' e =
      if id = id' ∧ e ∈ listeners.map Prod.fst then none else t.correlator.registration? id' e := by
  have next : t.correlator.calls = t.calls.length := (FlatTable.mirrors_of_run run).next
  have older (e : EventType) (r : Registration L) (h : t.correlator.registration? id e = some r) :
      r.call < t.correlator.calls := by
    rw [calls_of_run run]
    exact ((registration?_iff_stands run).mp h).call_lt
  show ((t.correlator.register id process now listeners).withdraw id
    t.calls.length).registration? id' e = _
  rw [← next]
  exact Correlator.registration?_withdraw_register older id' e

theorem tight_refused (run : Run (step reads) .empty es t) (id : CorrelationId) (process : String)
    (now : Instant) (listeners : List (EventType × L)) :
    (t.refused id process now listeners).correlator.Tight :=
  tight_of_run (run.trans (refused_runs reads t id process now listeners .notConfigured))

/-- The process of a refused start is pending as long as it waits for an event of others. -/
theorem isPending_refused (run : Run (step reads) .empty es t) (id : CorrelationId)
    (process : String) (now : Instant) (listeners : List (EventType × L)) (id' : CorrelationId) :
    (t.refused id process now listeners).correlator.isPending id' = true ↔
      t.correlator.isPending id' = true ∧
        (id = id' → ∃ e, e ∉ listeners.map Prod.fst ∧ (t.correlator.take id e).1 ≠ none) := by
  have left := registration?_refused run id process now listeners
  rw [(tight_refused run id process now listeners).isPending_iff, (tight_of_run run).isPending_iff]
  simp only [Correlator.take_fst, left, ne_eq, Option.ite_none_left_eq_some]
  constructor
  · rintro ⟨e, r, other, waiting⟩
    refine ⟨⟨e, r, waiting⟩, fun hid => ⟨e, fun he => other ⟨hid, he⟩, ?_⟩⟩
    rw [hid, waiting]
    exact Option.some_ne_none r
  · rintro ⟨⟨e, r, waiting⟩, own⟩
    by_cases hid : id = id'
    · obtain ⟨e', other, waiting'⟩ := own hid
      obtain ⟨r', hr'⟩ := Option.ne_none_iff_exists'.mp waiting'
      exact ⟨e', r', fun h => other h.2, hid ▸ hr'⟩
    · exact ⟨e, r, fun h => hid h.1, waiting⟩

/-- After every run, a start that the engine refuses before anything else happens leaves each listener
that is waiting, but for those of its own process and events. A process is pending as before, but
for its own if that had waited for nothing else. So all is as before exactly if the start has replaced
no listener. -/
theorem refusal_withdraws (run : Run (step reads) .empty es t) (id : CorrelationId)
    (process : String) (now : Instant) (listeners : List (EventType × L)) (fault : EngineFault) :
    ∃ u, Run (step reads) t
        [.start id process now listeners, .answer t.calls.length (.error fault)] u ∧
      (∀ id' e, (u.correlator.take id' e).1 =
        if id = id' ∧ e ∈ listeners.map Prod.fst then none else (t.correlator.take id' e).1) ∧
      (∀ id', u.correlator.isPending id' = true ↔ t.correlator.isPending id' = true ∧
        (id = id' → ∃ e, e ∉ listeners.map Prod.fst ∧ (t.correlator.take id e).1 ≠ none)) ∧
      ((∀ id' e, (u.correlator.take id' e).1 = (t.correlator.take id' e).1) ∧
          (∀ id', u.correlator.isPending id' = t.correlator.isPending id') ↔
        ∀ e ∈ listeners.map Prod.fst, (t.correlator.take id e).1 = none) := by
  have left := registration?_refused run id process now listeners
  have pending := isPending_refused run id process now listeners
  refine ⟨_, refused_runs reads t id process now listeners fault, ?_, pending, ?_⟩
  · simpa only [Correlator.take_fst] using left
  · simp only [Correlator.take_fst]
    rw [← t.correlator.without_eq_iff id]
    simp only [left]
    -- The same listeners make the same processes pending.
    refine and_iff_left_of_imp fun same id' => ?_
    have registered (id' : CorrelationId) (e : EventType) :
        (t.refused id process now listeners).correlator.registration? id' e =
          t.correlator.registration? id' e := (left id' e).trans (same id' e)
    refine Bool.eq_iff_iff.mpr ?_
    rw [(tight_refused run id process now listeners).isPending_iff, (tight_of_run run).isPending_iff]
    simp only [registered]

/-- A process that waits for its success. -/
def waitingForSuccess : List (Event Nat) :=
  [.start ⟨"a"⟩ "release" noon [(.importSuccess, 0)], .answer 0 (.ok ())]

theorem waitingForSuccess_runs :
    (waitingForSuccess.foldlM (step fun _ _ => true) .empty).isSome = true := by decide +kernel

def waiting : Traffic Nat :=
  (waitingForSuccess.foldlM (step fun _ _ => true) .empty).get waitingForSuccess_runs

theorem waiting_run : Run (step fun _ _ => true) .empty waitingForSuccess waiting :=
  Run.iff_foldlM.mpr (Option.some_get waitingForSuccess_runs).symm

/-- A start for another event of the process leaves its listener alone. -/
theorem refusal_withdraws_waiting :
    ∃ u, Run (step fun _ _ => true) waiting [.start ⟨"a"⟩ "release" noon [(.importError, 1)],
        .answer waiting.calls.length (.error .notConfigured)] u ∧
      (∀ id e, (u.correlator.take id e).1 = (waiting.correlator.take id e).1) ∧
      ∀ id, u.correlator.isPending id = waiting.correlator.isPending id := by
  obtain ⟨u, refusal, -, -, same⟩ :=
    refusal_withdraws waiting_run ⟨"a"⟩ "release" noon [(.importError, 1)] .notConfigured
  have free : (waiting.correlator.take ⟨"a"⟩ .importError).1 = none := by
    rw [Correlator.take_fst, ← Option.isNone_iff_eq_none]
    decide +kernel
  exact ⟨u, refusal, same.mpr (by simpa using free)⟩

/-- The listener that a refused start has replaced is gone, and its process with it. -/
theorem refusal_loses_replaced :
    ∃ u, Run (step fun _ _ => true) waiting [.start ⟨"a"⟩ "release" noon [(.importSuccess, 1)],
        .answer waiting.calls.length (.error .notConfigured)] u ∧
      (waiting.correlator.take ⟨"a"⟩ .importSuccess).1.isSome = true ∧
      (u.correlator.take ⟨"a"⟩ .importSuccess).1.isSome = false ∧
      waiting.correlator.isPending ⟨"a"⟩ = true ∧ u.correlator.isPending ⟨"a"⟩ = false := by
  refine ⟨_, refused_runs _ waiting ⟨"a"⟩ "release" noon [(.importSuccess, 1)] .notConfigured, ?_⟩
  decide +kernel

end Traffic

end Foreman
