import Foreman.Proofs.Socket.Lobby

/-!
What is done in a lobby, from the point of view of one client: its own history, the frames that are
queued for it and written, and the messages that are handed to it.
-/

namespace Foreman.Socket.Lobby

variable {l l' : Lobby} {e : Event} {es : List Event} {k : Nat} {c c' : Client} {v : Visit}

/-- What is done with the client of a session that reads `m`. -/
def deeds : Incoming → List Client.Event
  | .text t objection => [.ofText t objection]
  | .other => []
  | .close | .failure => [.disable]

/-- The client that the message is handed to next. -/
def next? (l : Lobby) (m : Nat) : Option (Nat × Notification) := do
  let x ← l.post.mailings[m]?
  let i ← x.waiting.head?
  return (i, x.message)

/-- What an event does with the client `k`. -/
def doing (k : Nat) (l : Lobby) : Event → List Client.Event
  | .incoming k' m => if k' = k ∧ l.stage? k = some .reading then deeds m else []
  | .leave k' => if k' = k ∧ l.stage? k = some .detached then [.hangUp] else []
  | .take k' => if k' = k then [.take] else []
  | .breakOff k' => if k' = k then [.hangUp] else []
  | .hand m =>
    match l.next? m with
    | some (i, n) => if i = k then [.send n] else []
    | none => []
  | _ => []

/-- The frames of the client `k` that an event writes. -/
def taken (k : Nat) (l : Lobby) : Event → List Json
  | .take k' =>
    if k' = k then ((l.client? k).bind Client.take?).toList.map fun x => Wire.ofFrame x.1 else []
  | _ => []

/-- The message that an event hands to the client `k`, and whether it is sent. -/
def sends (k : Nat) (l : Lobby) : Event → List (Notification × Bool)
  | .hand m =>
    match l.next? m, l.client? k with
    | some (i, n), some c => if i = k then [(n, (c.send n).1.isOk)] else []
    | _, _ => []
  | _ => []

/-- The frames that an event queues for the client `k`: one answer to a text that its session reads,
and the messages that are sent to it. -/
def queued (k : Nat) (l : Lobby) : Event → List Json
  | .incoming k' (.text t objection) =>
    if k' = k ∧ l.stage? k = some .reading then [Wire.ofFrame (answer t objection)] else []
  | e => ((sends k l e).filter (·.2)).map fun s => Wire.encode s.1

/-- The stage of the session `k` after an event, when it was in the stage `s`. -/
def stageAfter (k : Nat) (s : Stage) : Event → Stage
  | .incoming k' .close | .incoming k' .failure => if k' = k ∧ s = .reading then .closing else s
  | .leave k' => if k' = k then s.next else s
  | _ => s

theorem stageAfter_of_ne {s : Stage} {k' : Nat} (m : Incoming) (hk : k' ≠ k) :
    stageAfter k s (.incoming k' m) = s := by
  cases m <;> simp [stageAfter, hk]

theorem visit_step (h : l.step e = some l') (hv : l.visits[k]? = some v) :
    l'.visits[k]? = some { v with stage := stageAfter k v.stage e } := by
  have staged {l₁ : Lobby} {k' : Nat} {s : Stage} (same : l₁.visits = l.visits)
      (own : k' = k → stageAfter k v.stage e = s) (other : k' ≠ k → stageAfter k v.stage e = v.stage) :
      (l₁.withStage k' s).visits[k]? = some { v with stage := stageAfter k v.stage e } := by
    rw [visits_withStage, same, hv]
    by_cases hk : k' = k
    · simp [hk, own hk]
    · simp [hk, other hk]
  cases step_move h with
  | connect new => exact (List.getElem?_append_left (List.getElem?_eq_some_iff.mp hv).1).trans hv
  | text | take | breakOff | post | hand | close | cleanUp | detach => exact hv
  | @skip k' v' m hv' hm =>
      have still : stageAfter k v.stage (.incoming k' m) = v.stage := by
        rcases hm with rfl | past
        · rfl
        · by_cases hk : k' = k
          · subst hk
            obtain rfl := Option.some.inj (hv'.symm.trans hv)
            cases m <;> simp [stageAfter, past]
          · exact stageAfter_of_ne m hk
      rw [still]
      exact hv
  | @shut k' v' m hv' reading hm =>
      refine staged rfl ?_ (stageAfter_of_ne m)
      rintro rfl
      obtain rfl := Option.some.inj (hv'.symm.trans hv)
      rcases hm with rfl | rfl <;> simp [stageAfter, reading]
  | @depart k' v' hv' closing =>
      refine staged rfl ?_ fun hk => if_neg hk
      rintro rfl
      obtain rfl := Option.some.inj (hv'.symm.trans hv)
      simp [stageAfter, closing, Stage.next]
  | @hangUp k' v' hv' detached =>
      refine staged rfl ?_ fun hk => if_neg hk
      rintro rfl
      obtain rfl := Option.some.inj (hv'.symm.trans hv)
      simp [stageAfter, detached, Stage.next]

theorem stage?_eq (hv : l.visits[k]? = some v) : l.stage? k = some v.stage := by
  rw [stage?, hv, Option.map_some]

theorem doing_incoming {k' : Nat} (hv : l.visits[k']? = some v) (m : Incoming) :
    doing k l (.incoming k' m) = if k' = k ∧ v.stage = .reading then deeds m else [] := by
  by_cases hk : k' = k
  · subst hk
    simp [doing, stage?_eq hv]
  · simp [doing, hk]

theorem doing_leave {k' : Nat} (hv : l.visits[k']? = some v) :
    doing k l (.leave k') = if k' = k ∧ v.stage = .detached then [.hangUp] else [] := by
  by_cases hk : k' = k
  · subst hk
    simp [doing, stage?_eq hv]
  · simp [doing, hk]

/-- A client goes on by what is done with it. -/
theorem client_step (h : l.step e = some l') (hc : l.client? k = some c) :
    ∃ c', l'.client? k = some c' ∧ Run Client.step c (doing k l e) c' := by
  have changed {k' : Nat} {f : Client → Client} {e' : Client.Event}
      (hf : k' = k → c.step e' = some (f c)) :
      ∃ c', (l.change k' f).client? k = some c' ∧
        Run Client.step c (if k' = k then [e'] else []) c' := by
    rw [client?_change, hc]
    split
    next hk => exact ⟨f c, rfl, .snoc .nil (hf hk)⟩
    next => exact ⟨c, rfl, .nil⟩
  cases step_move h with
  | connect new =>
      exact ⟨c, (List.getElem?_append_left (List.getElem?_eq_some_iff.mp hc).1).trans hc, .nil⟩
  | @text k' v t objection hv reading =>
      simp only [doing_incoming hv, reading, and_true]
      exact changed fun _ => c.step_ofText t objection
  | @skip k' v m hv hm =>
      have nothing : doing k l (.incoming k' m) = [] := by
        rw [doing_incoming hv]
        rcases hm with rfl | past
        · exact ite_self []
        · simp [past]
      rw [nothing]
      exact ⟨c, hc, .nil⟩
  | @shut k' v m hv reading hm =>
      simp only [doing_incoming hv, reading, and_true]
      rcases hm with rfl | rfl <;> exact changed fun _ => rfl
  | @depart k' v hv closing =>
      have nothing : doing k l (.leave k') = [] := by simp [doing_leave hv, closing]
      rw [nothing]
      exact ⟨c, hc, .nil⟩
  | @hangUp k' v hv detached =>
      simp only [doing_leave hv, detached, and_true]
      exact changed fun _ => rfl
  | @take k' c₁ c' hc₁ ht =>
      refine changed (f := fun _ => c') fun hk => ?_
      subst hk
      obtain rfl := Option.some.inj (hc₁.symm.trans hc)
      exact ht
  | breakOff hc₁ => exact changed (f := Client.hangUp) fun _ => rfl
  | @hand m x i waiting c₁ hx hw hc₁ =>
      have next : l.next? m = some (i, x.message) := by simp [next?, hx, hw]
      have both : doing k l (.hand m) = if i = k then [.send x.message] else [] := by
        simp [doing, next]
      rw [both]
      refine changed (f := fun _ => (c₁.send x.message).2) fun hk => ?_
      subst hk
      obtain rfl := Option.some.inj (hc₁.symm.trans hc)
      rfl
  | close => exact ⟨c, (congrArg (·[k]?) (Notifier.clients_evict ..)).trans hc, .nil⟩
  | post | cleanUp | detach => exact ⟨c, hc, .nil⟩

theorem client_run (hc : l.client? k = some c) (run : Run step l es l') :
    ∃ c', l'.client? k = some c' ∧ Run Client.step c (notes step (doing k) l es) c' := by
  induction run with
  | nil => exact ⟨c, hc, .nil⟩
  | snoc before last ih =>
      obtain ⟨c₁, hc₁, history⟩ := ih
      obtain ⟨c₂, hc₂, next⟩ := client_step last hc₁
      rw [notes_snoc _ before last]
      exact ⟨c₂, hc₂, history.trans next⟩

/-! ### How a session comes to its end -/

theorem stageAfter_cases (k : Nat) (s : Stage) (e : Event) : stageAfter k s e = s ∨
    s = .reading ∧ stageAfter k s e = .closing ∨ e = .leave k ∧ stageAfter k s e = s.next := by
  cases e with
  | incoming k' m =>
      cases m with
      | text | other => exact .inl rfl
      | close | failure =>
          by_cases h : k' = k ∧ s = .reading
          · exact .inr (.inl ⟨h.2, if_pos h⟩)
          · exact .inl (if_neg h)
  | leave k' =>
      by_cases hk : k' = k
      · exact .inr (.inr ⟨by rw [hk], if_pos hk⟩)
      · exact .inl (if_neg hk)
  | connect | take | breakOff | post | hand | close | cleanUp | detach => exact .inl rfl

/-- A session reads until it has read that its socket closes or fails. -/
theorem reading_after_iff {s : Stage} : stageAfter k s e = .reading ↔
    s = .reading ∧ e ≠ .incoming k .close ∧ e ≠ .incoming k .failure := by
  cases e with
  | incoming k' m =>
      by_cases hk : k' = k
      · subst hk
        cases m <;> cases s <;> simp [stageAfter]
      · simp [stageAfter_of_ne m hk, hk]
  | leave k' => by_cases hk : k' = k <;> cases s <;> simp [stageAfter, hk, Stage.next]
  | connect | take | breakOff | post | hand | close | cleanUp | detach => simp [stageAfter]

theorem finished_after : stageAfter k .finished e = .finished := by
  rcases stageAfter_cases k .finished e with same | ⟨reading, -⟩ | ⟨-, next⟩
  · exact same
  · cases reading
  · exact next

/-- A client is detached by the step of its session that comes after it was disabled. -/
theorem ended_after {s : Stage} (h : stageAfter k s e = .detached ∨ stageAfter k s e = .finished) :
    (s = .detached ∨ s = .finished) ∨ s = .closing ∧ e = .leave k := by
  rcases stageAfter_cases k s e with same | ⟨-, closing⟩ | ⟨he, next⟩
  · rw [same] at h
    exact .inl h
  · simp [closing] at h
  · rw [next] at h
    cases s with
    | reading => simp [Stage.next] at h
    | closing => exact .inr ⟨rfl, he⟩
    | detached => exact .inl (.inl rfl)
    | finished => exact .inl (.inr rfl)

theorem disable_mem_deeds {m : Incoming} :
    .disable ∈ deeds m ↔ stageAfter k .reading (.incoming k m) ≠ .reading := by
  cases m with
  | text t objection =>
      suffices h : Client.Event.ofText t objection ≠ .disable by
        simpa [deeds, stageAfter, eq_comm] using h
      rw [Client.Event.ofText]
      split <;> simp
  | other | close | failure => simp [deeds, stageAfter]

/-- A session stops reading by disabling its client. -/
theorem disable_mem_doing {s : Stage} (hs : l.stage? k = some s) :
    .disable ∈ doing k l e ↔ s = .reading ∧ stageAfter k s e ≠ .reading := by
  cases e with
  | incoming k' m =>
      by_cases hk : k' = k
      · subst hk
        by_cases reading : s = .reading
        · subst reading
          simp [doing, hs, disable_mem_deeds (k := k')]
        · simp [doing, hs, reading]
      · simp [doing, stageAfter_of_ne m hk, hk]
  | leave k' => by_cases hk : k' = k <;> cases s <;> simp [doing, stageAfter, hs, hk, Stage.next]
  | take k' | breakOff k' => by_cases hk : k' = k <;> simp [doing, stageAfter, hk]
  | hand m =>
      simp only [doing, stageAfter]
      split
      · split <;> simp
      · simp
  | connect | post | close | cleanUp | detach => simp [doing, stageAfter]

/-- Frames are not written any more when they cannot be, and when the session has ended. -/
theorem hangUp_mem_doing {s : Stage} (hs : l.stage? k = some s) (h : .hangUp ∈ doing k l e) :
    e = .breakOff k ∨ stageAfter k s e = .finished := by
  cases e with
  | incoming k' m =>
      simp only [doing] at h
      split at h
      next =>
        cases m with
        | text t objection =>
            have here := List.mem_singleton.mp h
            rw [Client.Event.ofText] at here
            split at here <;> cases here
        | other | close | failure => simp [deeds] at h
      next => cases h
  | leave k' =>
      simp only [doing] at h
      split at h
      next both =>
        obtain ⟨rfl, detached⟩ := both
        obtain rfl := Option.some.inj (hs.symm.trans detached)
        exact .inr (by simp [stageAfter, Stage.next])
      next => cases h
  | take k' => by_cases hk : k' = k <;> simp [doing, hk] at h
  | breakOff k' =>
      by_cases hk : k' = k
      · exact .inl (by rw [hk])
      · simp [doing, hk] at h
  | hand m =>
      simp only [doing] at h
      split at h
      next => split at h <;> simp at h
      next => cases h
  | connect | post | close | cleanUp | detach => cases h

/-! ### What is noted of one client -/

/-- What is noted of the client `k` in a lobby is noted of it in its own history. -/
theorem notes_run {α : Type} {f : Lobby → Event → List α} {g : Client → Client.Event → List α}
    (agree : ∀ l e c, l.client? k = some c → f l e = notes Client.step g c (doing k l e))
    (hc : l.client? k = some c) (run : Run step l es l') :
    notes step f l es = notes Client.step g c (notes step (doing k) l es) := by
  induction run with
  | nil => rfl
  | snoc before last ih =>
      obtain ⟨c₁, hc₁, history⟩ := client_run hc before
      rw [notes_snoc _ before last, notes_snoc _ before last, notes_append _ history, ih,
        agree _ _ _ hc₁]

theorem notes_ite {α : Type} (g : Client → Client.Event → List α) (p : Prop) [Decidable p]
    (es es' : List Client.Event) : notes Client.step g c (if p then es else es') =
      if p then notes Client.step g c es else notes Client.step g c es' :=
  apply_ite ..

theorem notes_singleton {α : Type} (g : Client → Client.Event → List α) {e' : Client.Event}
    (h : c.step e' = some c') : notes Client.step g c [e'] = g c e' := by
  simp [notes, h]

theorem notes_deeds {α : Type} (g : Client → Client.Event → List α) (m : Incoming)
    (hg : g c .disable = []) : notes Client.step g c (deeds m) =
      match m with
      | .text t objection => g c (.ofText t objection)
      | _ => [] := by
  cases m with
  | text t objection => exact notes_singleton g (c.step_ofText t objection)
  | other => rfl
  | close | failure =>
      have disabled : c.step .disable = some c.disable := rfl
      exact (notes_singleton g disabled).trans hg

theorem taken_eq (e : Event) (hc : l.client? k = some c) :
    taken k l e = notes Client.step Client.takes c (doing k l e) := by
  cases e with
  | incoming k' m =>
      rw [doing, notes_ite, notes_deeds Client.takes m rfl]
      cases m <;> simp [taken, notes, Client.takes_ofText]
  | leave | breakOff => simp [taken, doing, notes_ite, notes, Client.step, Client.takes]
  | take k' =>
      rw [taken, doing, notes_ite, hc]
      cases h : c.take? with
      | none => simp [notes, Client.step, h]
      | some x => simp [notes, Client.step, Client.takes, h]
  | hand m =>
      simp only [doing]
      split
      next => simp [taken, notes_ite, notes, Client.step, Client.takes]
      next => rfl
  | connect | post | close | cleanUp | detach => rfl

theorem sends_eq (e : Event) (hc : l.client? k = some c) :
    sends k l e = notes Client.step Client.outcomes c (doing k l e) := by
  cases e with
  | incoming k' m =>
      rw [doing, notes_ite, notes_deeds Client.outcomes m rfl]
      cases m <;> simp [sends, notes, Client.outcomes_ofText]
  | leave | breakOff => simp [sends, doing, notes_ite, notes, Client.step, Client.outcomes]
  | take k' =>
      show [] = _
      rw [doing, notes_ite]
      cases h : c.take? <;> simp [notes, Client.step, Client.outcomes, h]
  | hand m =>
      simp only [sends, doing, hc]
      cases h : l.next? m with
      | none => rfl
      | some x => simp [notes_ite, notes, Client.step, Client.outcomes]
  | connect | post | close | cleanUp | detach => rfl

theorem queued_eq (e : Event) (hc : l.client? k = some c) :
    queued k l e = notes Client.step Client.queues c (doing k l e) := by
  cases e with
  | incoming k' m =>
      rw [doing, notes_ite, notes_deeds Client.queues m rfl]
      cases m <;> simp [queued, sends, notes, Client.queues_ofText]
  | leave | breakOff => simp [queued, sends, doing, notes_ite, notes, Client.step, Client.queues]
  | take k' =>
      show [] = _
      rw [doing, notes_ite]
      cases h : c.take? <;> simp [notes, Client.step, Client.queues, h]
  | hand m =>
      simp only [queued, sends, doing, hc]
      cases h : l.next? m with
      | none => rfl
      | some x =>
          cases hr : (c.send x.2).1 <;> by_cases hx : x.1 = k <;>
            simp [notes, Client.step, Client.queues, hr, hx, Except.isOk, Except.toBool]
  | connect | post | close | cleanUp | detach => rfl

end Foreman.Socket.Lobby
