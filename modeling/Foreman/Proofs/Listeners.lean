import Foreman.Correlator
import Foreman.Proofs.Tables

/-!
Which listeners are registered after each operation of a correlator. Only a start call adds any, and
only those it brings along.
-/

namespace Foreman

namespace Correlator

variable {L : Type} (c : Correlator L) (id id' : CorrelationId) (e e' : EventType)

theorem registration?_keep (p : PendingProcess L) :
    (c.keep id p).registration? id' e =
      if id = id' then p.listeners.get? e else c.registration? id' e := by
  unfold registration? keep
  by_cases hid : id = id'
  · subst hid
    cases hp : p.listeners.isEmpty with
    | false => simp [Table.get?_insert]
    | true =>
        have hnone : p.listeners.get? e = none := by
          rw [Table.get?, List.isEmpty_iff.mp hp]
          rfl
        simp [Table.get?_erase, hnone]
  · by_cases hp : p.listeners.isEmpty <;> simp [hp, Table.get?_erase, Table.get?_insert, hid]

theorem registration?_consume :
    (c.consume id e).registration? id' e' =
      if id = id' ∧ e = e' then none else c.registration? id' e' := by
  unfold consume
  split
  next p hp =>
    rw [registration?_keep]
    by_cases hid : id = id'
    · subst hid
      by_cases he : e = e' <;> simp [Table.get?_erase, registration?, hp, he]
    · simp [hid]
  next hp =>
    split
    next h => simp [registration?, ← h.1, hp]
    next => rfl

theorem registration?_withdraw (call : Nat) :
    (c.withdraw id call).registration? id' e =
      if id = id' then (c.registration? id' e).filter (·.call ≠ call)
      else c.registration? id' e := by
  unfold withdraw
  split
  next p hp =>
    rw [registration?_keep]
    split
    next hid => simp [Table.get?_filter, registration?, ← hid, hp]
    next => rfl
  next hp =>
    split
    next hid => simp [registration?, ← hid, hp]
    next => rfl

theorem registration?_abandon :
    (c.abandon id).registration? id' e =
      if id = id' then none else c.registration? id' e := by
  unfold abandon registration?
  rw [Table.get?_erase]
  split <;> rfl

/-- The listeners of a start call come before those that were there. -/
theorem registration?_register (process : String) (now : Instant)
    (listeners : List (EventType × L)) :
    (c.register id process now listeners).registration? id' e =
      if id = id' then (((Table.ofList listeners).get? e).map (⟨c.calls, ·⟩)).or
        (c.registration? id' e)
      else c.registration? id' e := by
  unfold register registration?
  cases listeners with
  | nil => simp [Table.ofList]
  | cons l rest =>
      rw [List.isEmpty_cons, if_neg Bool.false_ne_true]
      dsimp only
      rw [Table.get?_insert]
      split
      next hid =>
        subst hid
        rw [Option.bind_some]
        refine (Table.get?_foldl_insert (f := fun e => e) (fun _ _ h => h) (Registration.mk c.calls)
          _ _ e).trans ?_
        cases c.processes.get? id <;> rfl
      next => rfl

variable {c id id' e e'} {process : String} {now : Instant} {listeners : List (EventType × L)}
  {r : Registration L}

/-- A registration after a start call is one of the call or was there before. -/
theorem registration?_register_cases
    (h : (c.register id process now listeners).registration? id' e = some r) :
    (id = id' ∧ ∃ l, (e, l) ∈ listeners ∧ r = ⟨c.calls, l⟩) ∨ c.registration? id' e = some r := by
  rw [registration?_register] at h
  split at h
  next hid =>
    rcases Option.or_eq_some_iff.mp h with h | ⟨_, h⟩
    · obtain ⟨l, hl, rfl⟩ := Option.map_eq_some_iff.mp h
      exact .inl ⟨hid, l, Table.mem_of_get?_ofList hl, rfl⟩
    · exact .inr h
  next => exact .inr h

theorem registration?_of_consume (h : (c.consume id e).registration? id' e' = some r) :
    c.registration? id' e' = some r ∧ ¬(id = id' ∧ e = e') := by
  rw [registration?_consume] at h
  split at h
  next => simp at h
  next hne => exact ⟨h, hne⟩

theorem registration?_of_withdraw {call : Nat}
    (h : (c.withdraw id call).registration? id' e = some r) :
    c.registration? id' e = some r := by
  rw [registration?_withdraw] at h
  split at h
  next => exact (Option.filter_eq_some_iff.mp h).1
  next => exact h

theorem registration?_of_abandon (h : (c.abandon id).registration? id' e = some r) :
    c.registration? id' e = some r := by
  rw [registration?_abandon] at h
  split at h
  next => simp at h
  next => exact h

end Correlator

end Foreman
