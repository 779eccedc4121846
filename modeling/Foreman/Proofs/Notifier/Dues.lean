import Foreman.Proofs.Notifier.Mailing

/-!
Senders that post one message after another. A sender that waits for each of its messages to be done
with owes a client one at most: the message that it has posted last, as long as the client has not been
handed it.
-/

namespace Foreman

namespace Post

variable {C S : Type} [Recipient C]

/-- The message that a client is handed in an event, with its sender. -/
def reaching (j : Nat) (p : Post C S) : Event C S → List (S × Notification)
  | .hand m =>
    ((p.mailings[m]?).filter (·.waiting.head? = some j)).toList.map fun x => (x.sender, x.message)
  | _ => []

/-- Whether the sender posts a message in the event. -/
def Event.isPostOf (s : S) : Event C S → Prop
  | .post sender .. => sender = s
  | _ => False

/-- All messages of the sender are done with. -/
def Closed (p : Post C S) (s : S) : Prop :=
  ∀ (m : Nat) (x : Mailing S), p.mailings[m]? = some x → x.sender = s → x.delivery ≠ none

/-- The sender has posted nothing yet. -/
def Silent (p : Post C S) (s : S) : Prop :=
  ∀ (m : Nat) (x : Mailing S), p.mailings[m]? = some x → x.sender ≠ s

/-- What the sender owes the client. -/
inductive Due (p : Post C S) (s : S) (j : Nat) : Option Notification → Prop
  | closed (h : p.Closed s) : Due p s j none
  | out {m : Nat} {x : Mailing S} (hx : p.mailings[m]? = some x) (sender : x.sender = s)
      (only : ∀ (m' : Nat) (x' : Mailing S), p.mailings[m']? = some x' → x'.sender = s →
        x'.delivery = none → m' = m) :
      Due p s j (if j ∈ x.waiting then some x.message else none)

/-- No client waits twice for a message, nor for one that is done with. -/
structure Sound (p : Post C S) : Prop where
  settled : p.notifier.Settled
  nodup : ∀ (m : Nat) (x : Mailing S), p.mailings[m]? = some x → x.waiting.Nodup
  done : ∀ (m : Nat) (x : Mailing S), p.mailings[m]? = some x → x.delivery ≠ none → x.waiting = []

variable {p p' : Post C S} {e : Event C S} {s : S} {j m : Nat} {x x' : Mailing S}
  {o : Option Notification}

theorem sound_empty : (empty : Post C S).Sound :=
  ⟨Notifier.settled_empty, by simp [empty], by simp [empty]⟩

/-- A message that is there after a step was there before, or it has been posted. -/
theorem mailing_step_inv (h : p.step e = some p') (hx : p'.mailings[m]? = some x') :
    (∃ x, p.mailings[m]? = some x ∧ x.Onward x' (handing m p e) (answering m p e)) ∨
    ∃ sender n a order, e = .post sender n a order ∧ x' = ⟨sender, n, order, [], none⟩ ∧
      order.Perm (p.notifier.targets a.wants) ∧ m = p.mailings.length := by
  by_cases hm : m < p.mailings.length
  · have hx₀ := List.getElem?_eq_getElem hm
    obtain ⟨x₁, hx₁, on⟩ := mailing_step h hx₀
    obtain rfl : x₁ = x' := Option.some.inj (hx₁.symm.trans hx)
    exact .inl ⟨_, hx₀, on⟩
  · have hn : p.mailings[m]? = none := List.getElem?_eq_none (Nat.not_lt.mp hm)
    have outside {m₁ : Nat} {x₁ x₂ : Mailing S} (hx₁ : p.mailings[m₁]? = some x₁)
        (hx₂ : (p.withMailing m₁ x₂).mailings[m]? = some x') : False := by
      rw [getElem?_withMailing p hx₁] at hx₂
      split at hx₂
      next h =>
        rw [h] at hx₁
        simp [hx₁] at hn
      next => simp [hn] at hx₂
    cases step_move h with
    | deed => simp [hn] at hx
    | post perm =>
        rcases getElem?_concat_cases hx with hx | ⟨hm', rfl⟩
        · simp [hn] at hx
        · exact .inr ⟨_, _, _, _, rfl, rfl, perm, hm'⟩
    | hand hx₁ => exact (outside hx₁ hx).elim
    | answer hx₁ => exact (outside hx₁ hx).elim
    | close hx₁ => exact (outside hx₁ hx).elim

theorem Sound.step (h : p.Sound) (hs : p.step e = some p') : p'.Sound where
  settled := h.settled.run (notifier_step hs)
  nodup m x' hx' := by
    rcases mailing_step_inv hs hx' with ⟨x, hx, on⟩ | ⟨_, _, a, _, -, rfl, perm, -⟩
    · have nodup := h.nodup m x hx
      rw [on.waiting] at nodup
      exact nodup.of_append_right
    · exact perm.nodup_iff.mpr (h.settled.nodup_targets _)
  done m x' hx' hd := by
    rcases mailing_step_inv hs hx' with ⟨x, hx, on⟩ | ⟨_, _, _, _, -, rfl, -, -⟩
    · rcases on.delivery with same | ⟨-, hw⟩
      · have hw := h.done m x hx (same ▸ hd)
        have waiting := on.waiting
        rw [hw] at waiting
        exact (List.append_eq_nil_iff.mp waiting.symm).2
      · exact hw
    · exact absurd rfl hd

theorem sound_of_run {es : List (Event C S)} (run : Run step .empty es p) : p.Sound :=
  run.invariant sound_empty fun _ _ _ sound => sound.step

theorem Closed.step (h : p.Closed s) (hs : p.step e = some p') (he : ¬e.isPostOf s) :
    p'.Closed s := by
  intro m x' hx' sender
  rcases mailing_step_inv hs hx' with ⟨x, hx, on⟩ | ⟨_, _, _, _, rfl, rfl, -, -⟩
  · have open' := h m x hx (on.sender ▸ sender)
    rcases on.delivery with same | ⟨hn, -⟩
    · rwa [same]
    · exact absurd hn open'
  · exact absurd sender he

omit [Recipient C] in
theorem Silent.closed (h : p.Silent s) : p.Closed s :=
  fun m x hx sender => absurd sender (h m x hx)

theorem Silent.step (h : p.Silent s) (hs : p.step e = some p') (he : ¬e.isPostOf s) :
    p'.Silent s := by
  intro m x' hx' sender
  rcases mailing_step_inv hs hx' with ⟨x, hx, on⟩ | ⟨_, _, _, _, rfl, rfl, -, -⟩
  · exact h m x hx (on.sender ▸ sender)
  · exact he sender

/-- A sender whose messages are done with owes nothing. -/
theorem Due.eq_none (h : p.Due s j o) (sound : p.Sound) (closed : p.Closed s) : o = none := by
  cases h with
  | closed => rfl
  | out hx sender =>
      rw [sound.done _ _ hx (closed _ _ hx sender)]
      simp

/-- Those who hear the next message of a sender are owed it. -/
theorem due_post {n : Notification} {a : Audience} {order : List Nat} (closed : p.Closed s)
    (hs : p.step (.post s n a order) = some p') (hears : p.notifier.Hears a j) :
    p'.Due s j (some n) := by
  cases step_move hs with
  | post perm =>
      let x : Mailing S := ⟨s, n, order, [], none⟩
      have hx : (p.mailings ++ [x])[p.mailings.length]? = some x := by simp
      have hj : j ∈ order := perm.mem_iff.mpr (Notifier.mem_targets.mpr hears)
      have due : Due { p with mailings := p.mailings ++ [x] } s j
          (if j ∈ x.waiting then some x.message else none) := by
        refine .out hx rfl fun m' x' hx' sender open' => ?_
        rcases getElem?_concat_cases hx' with hx' | ⟨hm, -⟩
        · exact absurd open' (closed m' x' hx' sender)
        · exact hm
      rwa [if_pos hj] at due

variable [DecidableEq S]

def isClosed (p : Post C S) (s : S) : Bool :=
  p.mailings.all fun x => x.sender ≠ s || x.delivery.isSome

omit [Recipient C] in
theorem isClosed_iff : p.isClosed s = true ↔ p.Closed s := by
  simp only [isClosed, List.all_eq_true]
  constructor
  · intro all m x hx sender
    have done := all x (List.mem_of_getElem? hx)
    simpa [sender, Option.isSome_iff_ne_none] using done
  · intro closed x hx
    obtain ⟨m, hm⟩ := List.getElem?_of_mem hx
    by_cases sender : x.sender = s
    · simpa [sender, Option.isSome_iff_ne_none] using closed m x hm sender
    · simp [sender]

/-- The message of the sender that the client is handed in an event. -/
def served (s : S) (j : Nat) (p : Post C S) (e : Event C S) : List Notification :=
  (reaching j p e).filterMap fun y => if y.1 = s then some y.2 else none

/-- Only messages that are not done with are handed to anybody. -/
theorem served_closed (closed : p.Closed s) (sound : p.Sound) (e : Event C S) :
    served s j p e = [] := by
  cases e with
  | hand m =>
      cases hx : p.mailings[m]? with
      | none => simp [served, reaching, hx]
      | some x =>
          by_cases sender : x.sender = s
          · have hw := sound.done m x hx (closed m x hx sender)
            simp [served, reaching, hx, hw]
          · by_cases hj : x.waiting.head? = some j <;>
              simp [served, reaching, hx, hj, sender, Option.filter]
  | _ => rfl

theorem served_eq (sound : p.Sound) (hx : p.mailings[m]? = some x) (sender : x.sender = s)
    (only : ∀ (m' : Nat) (x' : Mailing S), p.mailings[m']? = some x' → x'.sender = s →
      x'.delivery = none → m' = m) (e : Event C S) :
    served s j p e = if j ∈ handing m p e then [x.message] else [] := by
  cases e with
  | hand m₁ =>
      by_cases hm : m₁ = m
      · subst hm
        cases hw : x.waiting with
        | nil => simp [served, reaching, handing, hx, hw]
        | cons i rest =>
            by_cases hj : i = j
            · simp [served, reaching, handing, hx, hw, hj, sender, Option.filter]
            · simp [served, reaching, handing, hx, hw, hj, Ne.symm hj, Option.filter]
      · rw [handing, if_neg hm]
        cases hx₁ : p.mailings[m₁]? with
        | none => simp [served, reaching, hx₁]
        | some x₁ =>
            by_cases sender₁ : x₁.sender = s
            · have hw := sound.done m₁ x₁ hx₁ fun hd => hm (only m₁ x₁ hx₁ sender₁ hd)
              simp [served, reaching, hx₁, hw]
            · by_cases hj : x₁.waiting.head? = some j <;>
                simp [served, reaching, hx₁, hj, sender₁, Option.filter]
  | _ => simp [served, reaching, handing]

/-- As long as the sender posts nothing, the client gets what it is owed. -/
theorem Due.step (h : p.Due s j o) (sound : p.Sound) (hs : p.step e = some p')
    (he : ¬e.isPostOf s) :
    ∃ o', p'.Due s j o' ∧ o.toList = served s j p e ++ o'.toList := by
  cases h with
  | closed closed =>
      exact ⟨none, .closed (closed.step hs he), by rw [served_closed closed sound]; rfl⟩
  | @out m x hx sender only =>
      obtain ⟨x', hx', on⟩ := mailing_step hs hx
      refine ⟨_, .out hx' (on.sender.trans sender) fun m₁ x₁ hx₁ sender₁ open' => ?_, ?_⟩
      · rcases mailing_step_inv hs hx₁ with ⟨x₀, hx₀, on₁⟩ | ⟨_, _, _, _, rfl, rfl, -, -⟩
        · refine only m₁ x₀ hx₀ (on₁.sender ▸ sender₁) ?_
          rcases on₁.delivery with same | ⟨hn, -⟩
          · exact same ▸ open'
          · exact hn
        · exact absurd sender₁ he
      · have nodup := sound.nodup m x hx
        rw [served_eq sound hx sender only, on.message]
        rw [on.waiting] at nodup ⊢
        by_cases hj : j ∈ handing m p e
        · have hj' : j ∉ x'.waiting := fun h => (List.nodup_append.mp nodup).2.2 j hj j h rfl
          simp [hj, hj']
        · simp [hj]

/-! ### The messages of others -/

/-- One event that is not the posting of a sender's message. -/
def stepAside {S : Type} (p : Post C (Option S)) : Event C (Option S) → Option (Post C (Option S))
  | .post (some _) _ _ _ => none
  | e => p.step e

theorem stepAside_eq_some {S : Type} {p p' : Post C (Option S)} {e : Event C (Option S)} :
    p.stepAside e = some p' ↔ (∀ s, ¬e.isPostOf (some s)) ∧ p.step e = some p' := by
  cases e with
  | post sender n a order => cases sender <;> simp [stepAside, Event.isPostOf]
  | deed | hand | answer | close => simp [stepAside, Event.isPostOf]

end Post

end Foreman
