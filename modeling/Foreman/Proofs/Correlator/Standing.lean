import Foreman.Proofs.Correlator.Flat

/-!
How long a registration stands: from the start call that made it to the event that ends it. What the
correlator holds after a run are the registrations that stand.
-/

namespace Foreman

namespace Traffic

variable {L : Type}

/-- For whom a process is started. -/
def Event.started? : Event L → Option CorrelationId
  | .start id _ _ _ => some id
  | _ => none

/-- Whether an event ends the registration that call `n` made for `e`: it is replaced, withdrawn
with what is left of the call, taken by a delivery, or given up. -/
def Event.Ends (id : CorrelationId) (e : EventType) (n : Nat) : Event L → Prop
  | .start id' _ _ listeners => id' = id ∧ e ∈ listeners.map Prod.fst
  | .answer n' (.error _) => n' = n
  | .dispatch id' e' _ => id' = id ∧ e' = e
  | .dispatchNamed id' name _ => id' = id ∧ EventType.read name = .ok e
  | .abandon id' => id' = id
  | .answer _ (.ok _) | .dropCall _ | .enter _ | .finish _ _ | .leave _ => False

/-- The event makes the registration, if `n` calls came before. -/
def Event.Makes (id : CorrelationId) (e : EventType) (r : Registration L) (n : Nat) :
    Event L → Prop
  | .start id' _ _ listeners =>
    id' = id ∧ r.call = n ∧ (Table.ofList listeners).get? e = some r.listener
  | _ => False

/-- How many start calls the events contain. -/
def countStarts (es : List (Event L)) : Nat := es.countP fun ev => ev.started?.isSome

/-- The registration was made in the events, and none after that has ended it. -/
def Stands (es : List (Event L)) (id : CorrelationId) (e : EventType) (r : Registration L) : Prop :=
  ∃ es₁ ev es₂, es = es₁ ++ ev :: es₂ ∧ ev.Makes id e r (countStarts es₁) ∧
    ∀ later ∈ es₂, ¬later.Ends id e r.call

section Stands

variable {es : List (Event L)} {ev : Event L} {id : CorrelationId} {e : EventType}
  {r : Registration L}

theorem not_stands_nil : ¬Stands [] id e r := by
  rintro ⟨es₁, ev, es₂, h, -⟩
  simp at h

theorem stands_concat :
    Stands (es ++ [ev]) id e r ↔
      ev.Makes id e r (countStarts es) ∨ Stands es id e r ∧ ¬ev.Ends id e r.call := by
  constructor
  · rintro ⟨es₁, ev', es₂, heq, made, stays⟩
    cases es₂ using List.reverseRecOn with
    | nil =>
        obtain ⟨rfl, hev⟩ := List.append_inj' heq rfl
        obtain rfl : ev = ev' := by simpa using hev
        exact .inl made
    | append_singleton es₂ last =>
        rw [← List.cons_append, ← List.append_assoc] at heq
        obtain ⟨hes, hev⟩ := List.append_inj' heq rfl
        obtain rfl : ev = last := by simpa using hev
        refine .inr ⟨⟨es₁, ev', es₂, hes, made, fun later h => ?_⟩, ?_⟩
        · exact stays later (List.mem_append_left _ h)
        · exact stays ev (List.mem_append_right _ List.mem_cons_self)
  · rintro (made | ⟨⟨es₁, ev', es₂, rfl, made, stays⟩, hev⟩)
    · exact ⟨es, ev, [], rfl, made, by simp⟩
    · refine ⟨es₁, ev', es₂ ++ [ev], by simp, made, fun later h => ?_⟩
      rcases List.mem_append.mp h with h | h
      · exact stays later h
      · rwa [List.mem_singleton.mp h]

theorem calls_after (es : List (Event L)) :
    (FlatTable.after es).calls = es.filterMap Event.started? := by
  induction es using List.reverseRecOn with
  | nil => rfl
  | append_singleton es ev ih =>
      rw [FlatTable.after_concat, List.filterMap_append, ← ih]
      cases ev with
      | start => rfl
      | answer n a =>
          cases a with
          | ok => simp [FlatTable.apply, Event.started?]
          | error f =>
              simp only [FlatTable.apply]
              split <;> simp [Event.started?]
      | dispatchNamed id name payload =>
          simp only [FlatTable.apply]
          split <;> simp [Event.started?]
      | dropCall | dispatch | enter | finish | leave | abandon =>
          simp [FlatTable.apply, Event.started?]

theorem length_calls_after (es : List (Event L)) :
    (FlatTable.after es).calls.length = countStarts es := by
  rw [calls_after, List.length_filterMap_eq_countP]
  rfl

/-- The call of a registration was made for the id under which it stands. -/
theorem Stands.call_id (h : Stands es id e r) : (FlatTable.after es).calls[r.call]? = some id := by
  obtain ⟨es₁, ev, es₂, rfl, made, -⟩ := h
  cases ev with
  | start id' process now listeners =>
      obtain ⟨rfl, hcall, -⟩ := made
      rw [hcall, ← length_calls_after, calls_after, calls_after]
      simp [Event.started?]
  | answer | dropCall | dispatch | dispatchNamed | enter | finish | leave | abandon => cases made

theorem ends_of_delivery {id' : CorrelationId} {e' : Option EventType} {payload : Json} {n : Nat}
    (h : ev.delivery? = some (id', e', payload)) : ev.Ends id e n ↔ id' = id ∧ e' = some e := by
  cases ev with
  | dispatch =>
      cases h
      simp [Event.Ends]
  | dispatchNamed id name payload =>
      cases h
      simp only [Event.Ends]
      cases EventType.read name <;> simp [Except.toOption]
  | start | answer | dropCall | enter | finish | leave | abandon => cases h

/-- What is found after an event was made by it, or it was found before and the event does not end
it. -/
theorem get?_apply (f : FlatTable L)
    (known : f.entries.get? (id, e) = some r → f.calls[r.call]? = some id) :
    (f.apply ev).entries.get? (id, e) = some r ↔
      ev.Makes id e r f.calls.length ∨ f.entries.get? (id, e) = some r ∧ ¬ev.Ends id e r.call := by
  cases ev with
  | start id' process now listeners =>
      rw [FlatTable.get?_start]
      simp only [Event.Makes, Event.Ends, ← Table.get?_ofList_isSome]
      by_cases hid : id' = id
      · cases hl : (Table.ofList listeners).get? e with
        | none => simp [hid]
        | some l =>
            obtain ⟨call, listener⟩ := r
            simp [hid, eq_comm]
      · simp [hid]
  | answer n a =>
      cases a with
      | ok => simp [FlatTable.apply, Event.Makes, Event.Ends]
      | error fault =>
          simp only [Event.Makes, Event.Ends, false_or]
          cases hn : f.calls[n]? with
          | none =>
              have same : f.apply (.answer n (.error fault)) = f := by simp [FlatTable.apply, hn]
              rw [same]
              refine ⟨fun h => ⟨h, fun hr => ?_⟩, And.left⟩
              have hcall := known h
              rw [← hr, hn] at hcall
              cases hcall
          | some id' =>
              rw [FlatTable.get?_refusal f id' id e hn]
              by_cases hid : id' = id
              · rw [if_pos hid, Option.filter_eq_some_iff]
                simp only [decide_eq_true_eq, ne_comm]
              · rw [if_neg hid]
                refine ⟨fun h => ⟨h, fun hr => hid ?_⟩, And.left⟩
                have hcall := known h
                rw [← hr, hn] at hcall
                exact Option.some.inj hcall
  | dispatch id' e' payload =>
      have hev : (Event.dispatch id' e' payload : Event L).delivery? =
          some (id', some e', payload) := rfl
      rw [FlatTable.get?_delivery f id' id e hev]
      by_cases h : id' = id ∧ e' = e <;> simp [Event.Makes, Event.Ends, h]
  | dispatchNamed id' name payload =>
      have hev : (Event.dispatchNamed id' name payload : Event L).delivery? =
          some (id', (EventType.read name).toOption, payload) := rfl
      rw [FlatTable.get?_delivery f id' id e hev]
      have hread : (EventType.read name).toOption = some e ↔ EventType.read name = .ok e := by
        cases EventType.read name <;> simp [Except.toOption]
      simp only [hread]
      by_cases h : id' = id ∧ EventType.read name = .ok e <;> simp [Event.Makes, Event.Ends, h]
  | abandon id' =>
      rw [FlatTable.get?_abandon]
      by_cases hid : id' = id <;> simp [Event.Makes, Event.Ends, hid]
  | dropCall | enter | finish | leave => simp [FlatTable.apply, Event.Makes, Event.Ends]

/-- The entries of the flat table are the registrations that stand. -/
theorem get?_after_iff_stands :
    (FlatTable.after es).entries.get? (id, e) = some r ↔ Stands es id e r := by
  induction es using List.reverseRecOn generalizing id e r with
  | nil => exact ⟨fun h => (by cases h), fun h => (not_stands_nil h).elim⟩
  | append_singleton es ev ih =>
      rw [FlatTable.after_concat, stands_concat, ← length_calls_after, ← ih]
      exact get?_apply _ fun h => (ih.mp h).call_id

theorem Stands.call_lt (h : Stands es id e r) : r.call < countStarts es := by
  rw [← length_calls_after]
  exact (List.getElem?_eq_some_iff.mp h.call_id).1

theorem countStarts_concat_le (es : List (Event L)) (ev : Event L) :
    countStarts es ≤ countStarts (es ++ [ev]) := by
  rw [countStarts, countStarts, List.countP_append]
  exact Nat.le_add_right ..

/-- A registration that is made has the number of the calls before. -/
theorem Event.Makes.call_eq {n : Nat} (h : ev.Makes id e r n) : r.call = n := by
  cases ev with
  | start => exact h.2.1
  | answer | dropCall | dispatch | dispatchNamed | enter | finish | leave | abandon => cases h

end Stands

section Run

variable {reads : L → Json → Bool} {t : Traffic L} {es : List (Event L)}

/-- What is registered after a run are the registrations that stand. -/
theorem registration?_iff_stands (run : Run (step reads) .empty es t) {id : CorrelationId}
    {e : EventType} {r : Registration L} :
    t.correlator.registration? id e = some r ↔ Stands es id e r := by
  rw [← (FlatTable.mirrors_of_run run).entries]
  exact get?_after_iff_stands

theorem calls_of_run (run : Run (step reads) .empty es t) :
    t.correlator.calls = countStarts es := by
  have m := FlatTable.mirrors_of_run run
  rw [m.next, ← length_calls_after, m.calls, List.length_map]

end Run

end Traffic

end Foreman
