import Foreman.Notifier
import Foreman.Proofs.Lists
import Foreman.Proofs.Run
import Mathlib.Data.List.Nodup
import Mathlib.Data.List.Perm.Basic

/-!
The sending of messages, step by step. A message goes to the clients that hear it when it is posted; it
is handed to one after the other, each answers in its own time, and once all have answered those that
failed are evicted. Meanwhile the clients may do with the notifier what they like, and other messages
may be on their way.
-/

namespace Foreman

/-- Whom a message is for. -/
inductive Audience where
  | everyone
  | subscribers (topic qualifier : String)

def Audience.wants {C : Type} [Recipient C] : Audience → C → Bool
  | .everyone, _ => true
  | .subscribers topic qualifier, c => Recipient.isSubscribed c topic qualifier

namespace Notifier

variable {C : Type} [Recipient C] {n n' : Notifier C} {a : Audience} {i : Nat}

/-- The client is attached and enabled, and the message is for it. -/
def Hears (n : Notifier C) (a : Audience) (i : Nat) : Prop :=
  ∃ session c, n.attached.get? session = some i ∧ n.client? i = some c ∧
    Recipient.isEnabled c = true ∧ a.wants c = true

theorem mem_targets : i ∈ n.targets a.wants ↔ n.Hears a i := by
  simp only [targets, List.mem_filter, Table.mem_values, Option.any_eq_true, Bool.and_eq_true, Hears]
  constructor
  · rintro ⟨⟨session, hs⟩, c, hc, henabled, hwants⟩
    exact ⟨session, c, hs, hc, henabled, hwants⟩
  · rintro ⟨session, c, hs, hc, henabled, hwants⟩
    exact ⟨⟨session, hs⟩, c, hc, henabled, hwants⟩

/-! ### What may be done with a notifier -/

inductive Deed (C : Type) where
  | create (c : C)
  | attach (i : Nat)
  | detach (session : String)
  | change (i : Nat) (f : C → C)
  | cleanUp
  | evict (i : Nat)

def Deed.apply : Deed C → Notifier C → Notifier C
  | .create c, n => n.create c
  | .attach i, n => n.attach i
  | .detach session, n => n.detach session
  | .change i f, n => n.change i f
  | .cleanUp, n => n.cleanUp
  | .evict i, n => n.evict i

/-- A client keeps its session. -/
def Deed.isPossible (n : Notifier C) : Deed C → Bool
  | .change i f => (n.client? i).all fun c => Recipient.session (f c) = Recipient.session c
  | _ => true

def step (n : Notifier C) (d : Deed C) : Option (Notifier C) :=
  if d.isPossible n then some (d.apply n) else none

theorem step_change (n : Notifier C) (i : Nat) {f : C → C}
    (hf : ∀ c, Recipient.session (f c) = Recipient.session c) :
    n.step (.change i f) = some (n.change i f) := by
  cases h : n.client? i <;> simp [Notifier.step, Deed.isPossible, Deed.apply, h, hf]

/-- Every attached client is attached for its own session. -/
def Settled (n : Notifier C) : Prop :=
  ∀ session i, n.attached.get? session = some i →
    ∃ c, n.client? i = some c ∧ Recipient.session c = session

theorem settled_empty : (empty : Notifier C).Settled := by
  intro session i h
  simp [empty] at h

theorem Settled.step (h : n.Settled) {d : Deed C} (hs : n.step d = some n') : n'.Settled := by
  unfold Notifier.step at hs
  split at hs
  next possible =>
    obtain rfl := Option.some.inj hs
    intro session i hi
    cases d with
    | create c =>
        obtain ⟨c', hc, hsession⟩ := h session i hi
        refine ⟨c', ?_, hsession⟩
        show (n.clients ++ [c])[i]? = _
        rwa [List.getElem?_append_left (List.getElem?_eq_some_iff.mp hc).1]
    | attach k =>
        simp only [Deed.apply, attach] at hi ⊢
        cases hk : n.client? k with
        | none =>
            rw [hk] at hi
            exact h session i hi
        | some c =>
            rw [hk] at hi
            obtain ⟨hsession, rfl⟩ | ⟨-, hi⟩ := Table.get?_insert_cases hi
            · exact ⟨c, hk, hsession⟩
            · exact h session i hi
    | detach session' =>
        simp only [Deed.apply, detach, Table.get?_erase] at hi
        split at hi
        next => simp at hi
        next => exact h session i hi
    | change k f =>
        obtain ⟨c, hc, hsession⟩ := h session i hi
        by_cases hk : k = i
        · subst hk
          simp only [Deed.isPossible, hc, Option.all_some, decide_eq_true_eq] at possible
          refine ⟨f c, ?_, possible.trans hsession⟩
          have hc : n.clients[k]? = some c := hc
          simp [Deed.apply, change, client?, hc]
        · refine ⟨c, ?_, hsession⟩
          have hc : n.clients[i]? = some c := hc
          simp [Deed.apply, change, client?, hc, hk]
    | cleanUp =>
        simp only [Deed.apply, cleanUp, Table.get?_filter, Option.filter_eq_some_iff] at hi
        exact h session i hi.1
    | evict k =>
        simp only [Deed.apply, evict, Table.get?_filter, Option.filter_eq_some_iff] at hi
        exact h session i hi.1
  next => simp at hs

theorem Settled.run (h : n.Settled) {ds : List (Deed C)} (run : Run Notifier.step n ds n') :
    n'.Settled :=
  run.invariant h fun _ _ _ settled => settled.step

/-- No client is attached twice, so a message goes to each but once. -/
theorem Settled.nodup_targets (h : n.Settled) (want : C → Bool) : (n.targets want).Nodup := by
  refine List.Nodup.filter _ ?_
  have distinct : n.attached.entries.Nodup := .of_map _ n.attached.distinct
  refine List.Nodup.map_on (fun x hx y hy hxy => ?_) distinct
  obtain ⟨c, hc, hs⟩ := h x.1 x.2 (n.attached.get?_eq_some.mpr hx)
  obtain ⟨c', hc', hs'⟩ := h y.1 y.2 (n.attached.get?_eq_some.mpr hy)
  rw [hxy] at hc
  obtain rfl : c = c' := Option.some.inj (hc.symm.trans hc')
  exact Prod.ext (hs.symm.trans hs') hxy

/-- To evict a client is to take it out of its session, unless that has gone over to another. -/
theorem Settled.evict_eq (h : n.Settled) {c : C} (hc : n.client? i = some c) (session : String) :
    (n.evict i).attached.get? session =
      if n.attached.get? (Recipient.session c) = some i ∧ Recipient.session c = session then none
      else n.attached.get? session := by
  simp only [evict, Table.get?_filter]
  split
  next hi =>
    obtain ⟨hi, rfl⟩ := hi
    simp [hi, Option.filter]
  next hi =>
    cases hs : n.attached.get? session with
    | none => rfl
    | some k =>
        have hk : k ≠ i := by
          rintro rfl
          obtain ⟨c', hc', hsession⟩ := h session k hs
          obtain rfl : c = c' := Option.some.inj (hc.symm.trans hc')
          exact hi ⟨by rw [hsession, hs], hsession⟩
        simp [Option.filter, hk]

omit [Recipient C] in
theorem clients_evict (l : List Nat) (n : Notifier C) : (l.foldl evict n).clients = n.clients := by
  induction l generalizing n with
  | nil => rfl
  | cons i l ih => exact ih (n.evict i)

omit [Recipient C] in
theorem get?_evict (l : List Nat) (n : Notifier C) (session : String) :
    (l.foldl evict n).attached.get? session =
      (n.attached.get? session).filter fun i => decide (i ∉ l) := by
  induction l generalizing n with
  | nil => cases h : n.attached.get? session <;> simp [h, Option.filter]
  | cons k l ih =>
      rw [List.foldl_cons, ih (n.evict k), evict, Table.get?_filter, Option.filter_filter]
      congr 1
      funext i
      simp

end Notifier

/-! ### Messages on their way -/

structure Mailing (S : Type) where
  sender : S
  message : Notification
  /-- The clients that it has not been handed to, in order. -/
  waiting : List Nat
  /-- The clients that it was handed to, in order, and whether their sends succeeded. -/
  handed : List (Nat × Option Bool)
  /-- Set once all is done. -/
  delivery : Option Delivery

namespace Mailing

variable {S : Type}

/-- The clients that have answered and whether their sends succeeded. -/
def answers (x : Mailing S) : List (Nat × Bool) := x.handed.filterMap fun y => y.2.map (y.1, ·)

def isAnswered (x : Mailing S) : Bool := x.waiting.isEmpty && x.handed.all (·.2.isSome)

def failed (x : Mailing S) : List Nat := (x.handed.filter (·.2 = some false)).map (·.1)

/-- How many sends succeeded and how many failed. -/
def count (x : Mailing S) : Delivery :=
  ⟨x.handed.countP (·.2 = some true), x.handed.countP (·.2 = some false)⟩

/-- How a message goes on when it is handed to the clients in `hands` and those in `answers` answer. -/
structure Onward (x x' : Mailing S) (hands : List Nat) (answers : List (Nat × Bool)) : Prop where
  sender : x'.sender = x.sender
  message : x'.message = x.message
  waiting : x.waiting = hands ++ x'.waiting
  handed : x'.handed.map (·.1) = x.handed.map (·.1) ++ hands
  answers : x'.answers.Perm (x.answers ++ answers)
  /-- Nobody waits any more once the message is done with. -/
  delivery : x'.delivery = x.delivery ∨ x.delivery = none ∧ x'.waiting = []

variable {x x' x'' : Mailing S} {hands hands' : List Nat} {answers answers' : List (Nat × Bool)}

theorem Onward.refl (x : Mailing S) : x.Onward x [] [] :=
  ⟨rfl, rfl, rfl, by simp, by simp, .inl rfl⟩

theorem Onward.trans (h : x.Onward x' hands answers) (h' : x'.Onward x'' hands' answers') :
    x.Onward x'' (hands ++ hands') (answers ++ answers') where
  sender := h'.sender.trans h.sender
  message := h'.message.trans h.message
  waiting := by rw [h.waiting, h'.waiting, List.append_assoc]
  handed := by rw [h'.handed, h.handed, List.append_assoc]
  answers := by
    rw [← List.append_assoc]
    exact h'.answers.trans (h.answers.append_right _)
  delivery := by
    rcases h'.delivery with same' | ⟨hn', hw'⟩
    · rcases h.delivery with same | ⟨hn, hw⟩
      · exact .inl (same'.trans same)
      · have waiting := h'.waiting
        rw [hw] at waiting
        exact .inr ⟨hn, (List.append_eq_nil_iff.mp waiting.symm).2⟩
    · rcases h.delivery with same | ⟨hn, -⟩
      · exact .inr ⟨same ▸ hn', hw'⟩
      · exact .inr ⟨hn, hw'⟩

theorem onward_hand {i : Nat} {rest : List Nat} (hw : x.waiting = i :: rest) :
    x.Onward { x with waiting := rest, handed := x.handed ++ [(i, none)] } [i] [] :=
  ⟨rfl, rfl, hw, by simp, by simp [Mailing.answers], .inl rfl⟩

/-- Answers may come in any order. -/
theorem perm_set {l : List (Nat × Option Bool)} {k i : Nat} (hk : l[k]? = some (i, none)) (ok : Bool) :
    ((l.set k (i, some ok)).filterMap fun y => y.2.map (y.1, ·)).Perm
      ((l.filterMap fun y => y.2.map (y.1, ·)) ++ [(i, ok)]) := by
  induction l generalizing k with
  | nil => simp at hk
  | cons y l ih =>
      cases k with
      | zero =>
          obtain rfl : y = (i, none) := by simpa using hk
          simpa using (List.perm_append_singleton _ _).symm
      | succ k =>
          have ih := ih (by simpa using hk)
          obtain ⟨j, r⟩ := y
          cases r with
          | none => simpa using ih
          | some r => simpa using ih.cons (j, r)

theorem onward_answer {k i : Nat} (hk : x.handed[k]? = some (i, none)) (ok : Bool) :
    x.Onward { x with handed := x.handed.set k (i, some ok) } [] [(i, ok)] := by
  refine ⟨rfl, rfl, rfl, ?_, perm_set hk ok, .inl rfl⟩
  have same : (x.handed.map (·.1))[k]? = some i := by rw [List.getElem?_map, hk]; rfl
  obtain ⟨hlt, hi⟩ := List.getElem?_eq_some_iff.mp same
  rw [List.map_set, List.append_nil]
  show (x.handed.map (·.1)).set k i = _
  rw [← hi, List.set_getElem_self]

theorem waiting_eq_nil (h : x.isAnswered = true) : x.waiting = [] := by
  simp only [isAnswered, Bool.and_eq_true, List.isEmpty_iff] at h
  exact h.1

theorem handed_eq (h : x.isAnswered = true) :
    x.handed = x.answers.map fun y => (y.1, some y.2) := by
  simp only [isAnswered, Bool.and_eq_true] at h
  have all := h.2
  rw [Mailing.answers]
  generalize x.handed = l at all
  induction l with
  | nil => rfl
  | cons y l ih =>
      obtain ⟨i, r⟩ := y
      rw [List.all_cons, Bool.and_eq_true] at all
      cases r with
      | none => simp at all
      | some r =>
          have ih := ih all.2
          simpa using ih

theorem mem_failed (h : x.isAnswered = true) {i : Nat} : i ∈ x.failed ↔ (i, false) ∈ x.answers := by
  rw [failed, handed_eq h]
  simp

theorem count_eq (h : x.isAnswered = true) :
    x.count = ⟨x.answers.countP (·.2), x.answers.countP (!·.2)⟩ := by
  rw [count, handed_eq h, List.countP_map, List.countP_map]
  congr 2
  · funext y
    simp
  · funext y
    simp

theorem count_failed (x : Mailing S) : x.count.failed = x.failed.length := by
  rw [failed, List.length_map, ← List.countP_eq_length_filter]
  rfl

theorem count_total (h : x.isAnswered = true) :
    x.count.delivered + x.count.failed = x.handed.length := by
  have total := congrArg List.length (handed_eq h)
  rw [List.length_map, List.length_eq_countP_add_countP (p := fun y : Nat × Bool => y.2)] at total
  rw [total, count_eq h]
  simp

end Mailing

/-- A notifier with the messages that were posted, each with its sender. -/
structure Post (C S : Type) where
  notifier : Notifier C
  mailings : List (Mailing S)

namespace Post

variable {C S : Type} [Recipient C]

def empty : Post C S := ⟨.empty, []⟩

inductive Event (C S : Type) where
  | deed (d : Notifier.Deed C)
  /-- Posts a message to those that hear it, in some order. -/
  | post (sender : S) (n : Notification) (a : Audience) (order : List Nat)
  /-- Hands the message to the next client. -/
  | hand (m : Nat)
  /-- The client in the place `k` of those that have the message answers. -/
  | answer (m k : Nat) (ok : Bool)
  | close (m : Nat)

def withMailing (p : Post C S) (m : Nat) (x : Mailing S) : Post C S :=
  { p with mailings := p.mailings.set m x }

/-- One event, if it is possible. -/
def step (p : Post C S) : Event C S → Option (Post C S)
  | .deed d => (p.notifier.step d).map fun notifier => { p with notifier }
  | .post sender n a order =>
    if order.Perm (p.notifier.targets a.wants) then
      some { p with mailings := p.mailings ++ [⟨sender, n, order, [], none⟩] }
    else none
  | .hand m => do
    let x ← p.mailings[m]?
    match x.waiting with
    | i :: rest => some (p.withMailing m
      { x with waiting := rest, handed := x.handed ++ [(i, none)] })
    | [] => none
  | .answer m k ok => do
    let x ← p.mailings[m]?
    match x.handed[k]? with
    | some (i, none) => some (p.withMailing m { x with handed := x.handed.set k (i, some ok) })
    | _ => none
  | .close m => do
    let x ← p.mailings[m]?
    if x.isAnswered && x.delivery.isNone then
      some { p.withMailing m { x with delivery := some x.count } with
        notifier := x.failed.foldl Notifier.evict p.notifier }
    else none

/-- The client to which an event hands the message `m`. -/
def handing (m : Nat) (p : Post C S) : Event C S → List Nat
  | .hand m' => if m' = m then ((p.mailings[m]?).bind (·.waiting.head?)).toList else []
  | _ => []

/-- The client that answers to the message `m` in an event, and whether its send succeeded. -/
def answering (m : Nat) (p : Post C S) : Event C S → List (Nat × Bool)
  | .answer m' k ok =>
    if m' = m then ((p.mailings[m]?).bind (·.handed[k]?)).toList.map fun x => (x.1, ok) else []
  | _ => []

/-- What an event does with the notifier. -/
def doing (p : Post C S) : Event C S → List (Notifier.Deed C)
  | .deed d => [d]
  | .close m => ((p.mailings[m]?).map Mailing.failed |>.getD []).map .evict
  | _ => []

/-- The steps of a post office. -/
inductive Move (p : Post C S) : Event C S → Post C S → Prop
  | deed {d notifier} (h : p.notifier.step d = some notifier) :
      Move p (.deed d) { p with notifier }
  | post {sender n a order} (perm : order.Perm (p.notifier.targets a.wants)) :
      Move p (.post sender n a order)
        { p with mailings := p.mailings ++ [⟨sender, n, order, [], none⟩] }
  | hand {m x i rest} (hx : p.mailings[m]? = some x) (hw : x.waiting = i :: rest) :
      Move p (.hand m) (p.withMailing m
        { x with waiting := rest, handed := x.handed ++ [(i, none)] })
  | answer {m k ok x i} (hx : p.mailings[m]? = some x) (hk : x.handed[k]? = some (i, none)) :
      Move p (.answer m k ok) (p.withMailing m { x with handed := x.handed.set k (i, some ok) })
  | close {m x} (hx : p.mailings[m]? = some x) (answered : x.isAnswered = true)
      (open' : x.delivery = none) :
      Move p (.close m) { p.withMailing m { x with delivery := some x.count } with
        notifier := x.failed.foldl Notifier.evict p.notifier }

variable {p p' : Post C S} {e : Event C S} {m : Nat} {x : Mailing S}

theorem step_move (h : p.step e = some p') : Move p e p' := by
  cases e with
  | deed d =>
      obtain ⟨notifier, hd, rfl⟩ := Option.map_eq_some_iff.mp h
      exact .deed hd
  | post sender n a order =>
      simp only [step] at h
      split at h
      next perm =>
        obtain rfl := Option.some.inj h
        exact .post perm
      next => simp at h
  | hand m =>
      obtain ⟨x, hx, h⟩ := Option.bind_eq_some_iff.mp h
      split at h
      next i rest hw =>
        obtain rfl := Option.some.inj h
        exact .hand hx hw
      next => simp at h
  | answer m k ok =>
      obtain ⟨x, hx, h⟩ := Option.bind_eq_some_iff.mp h
      split at h
      next i hk =>
        obtain rfl := Option.some.inj h
        exact .answer hx hk
      next => simp at h
  | close m =>
      obtain ⟨x, hx, h⟩ := Option.bind_eq_some_iff.mp h
      split at h
      next hc =>
        obtain rfl := Option.some.inj h
        rw [Bool.and_eq_true, Option.isNone_iff_eq_none] at hc
        exact .close hx hc.1 hc.2
      next => simp at h

theorem Move.step (h : Move p e p') : p.step e = some p' := by
  cases h with
  | deed h => simp [Post.step, h]
  | post perm => simp [Post.step, perm]
  | hand hx hw => simp [Post.step, hx, hw]
  | answer hx hk => simp [Post.step, hx, hk]
  | close hx answered open' => simp [Post.step, hx, answered, open']

omit [Recipient C] in
theorem getElem?_withMailing (p : Post C S) (hx : p.mailings[m]? = some x) (m' : Nat)
    (x' : Mailing S) :
    (p.withMailing m x').mailings[m']? = if m = m' then some x' else p.mailings[m']? := by
  rw [withMailing, List.getElem?_set]
  split
  next h =>
    subst h
    rw [if_pos (List.getElem?_eq_some_iff.mp hx).1]
  next => rfl

/-- Each message goes on in a step as the step says. -/
theorem mailing_step (h : p.step e = some p') (hx : p.mailings[m]? = some x) :
    ∃ x', p'.mailings[m]? = some x' ∧ x.Onward x' (handing m p e) (answering m p e) := by
  have aside {m₁ : Nat} (hm : m₁ ≠ m) {x₁ : Mailing S} (hx₁ : p.mailings[m₁]? = some x₁)
      (x₂ : Mailing S) : (p.withMailing m₁ x₂).mailings[m]? = some x := by
    rw [getElem?_withMailing p hx₁, if_neg hm, hx]
  have moved {x₁ : Mailing S} (x₂ : Mailing S) (hx₁ : p.mailings[m]? = some x₁) :
      (p.withMailing m x₂).mailings[m]? = some x₂ := by
    rw [getElem?_withMailing p hx₁, if_pos rfl]
  cases step_move h with
  | deed => exact ⟨x, hx, .refl x⟩
  | post =>
      refine ⟨x, ?_, .refl x⟩
      exact (List.getElem?_append_left (List.getElem?_eq_some_iff.mp hx).1).trans hx
  | @hand m₁ x₁ i rest hx₁ hw =>
      by_cases hm : m₁ = m
      · subst hm
        obtain rfl : x₁ = x := Option.some.inj (hx₁.symm.trans hx)
        refine ⟨_, moved _ hx, ?_⟩
        simpa [handing, answering, hx, hw] using Mailing.onward_hand hw
      · exact ⟨x, aside hm hx₁ _, by simpa [handing, answering, hm] using Mailing.Onward.refl x⟩
  | @answer m₁ k ok x₁ i hx₁ hk =>
      by_cases hm : m₁ = m
      · subst hm
        obtain rfl : x₁ = x := Option.some.inj (hx₁.symm.trans hx)
        refine ⟨_, moved _ hx, ?_⟩
        simpa [handing, answering, hx, hk] using Mailing.onward_answer hk ok
      · exact ⟨x, aside hm hx₁ _, by simpa [handing, answering, hm] using Mailing.Onward.refl x⟩
  | @close m₁ x₁ hx₁ answered open' =>
      by_cases hm : m₁ = m
      · subst hm
        obtain rfl : x₁ = x := Option.some.inj (hx₁.symm.trans hx)
        refine ⟨_, moved _ hx, rfl, rfl, rfl, by simp [handing],
          by simp [answering, Mailing.answers], .inr ⟨open', Mailing.waiting_eq_nil answered⟩⟩
      · exact ⟨x, aside hm hx₁ _, .refl x⟩

theorem mailing_run {es : List (Event C S)} (run : Run step p es p') (hx : p.mailings[m]? = some x) :
    ∃ x', p'.mailings[m]? = some x' ∧
      x.Onward x' (notes step (handing m) p es) (notes step (answering m) p es) := by
  induction run with
  | nil => exact ⟨x, hx, .refl x⟩
  | snoc before last ih =>
      obtain ⟨x₁, hx₁, on⟩ := ih
      obtain ⟨x₂, hx₂, on'⟩ := mailing_step last hx₁
      rw [notes_snoc _ before last, notes_snoc _ before last]
      exact ⟨x₂, hx₂, on.trans on'⟩

/-- A message that is not done with can go on, at the latest when all its clients have answered. -/
theorem exists_step (hx : p.mailings[m]? = some x) (open' : x.delivery = none) :
    (∃ p', p.step (.hand m) = some p') ∨ (∃ k, ∀ ok, ∃ p', p.step (.answer m k ok) = some p') ∨
      ∃ p', p.step (.close m) = some p' := by
  cases hw : x.waiting with
  | cons i rest => exact .inl ⟨_, (Move.hand hx hw).step⟩
  | nil =>
      by_cases h : ∃ y ∈ x.handed, y.2 = none
      · obtain ⟨⟨i, _⟩, hy, rfl⟩ := h
        obtain ⟨k, hk⟩ := List.getElem?_of_mem hy
        exact .inr (.inl ⟨k, fun ok => ⟨_, (Move.answer hx hk).step⟩⟩)
      · have answered : x.isAnswered = true := by
          simp only [Mailing.isAnswered, hw, List.isEmpty_nil, Bool.true_and, List.all_eq_true]
          intro y hy
          exact Option.isSome_iff_ne_none.mpr fun hn => h ⟨y, hy, hn⟩
        exact .inr (.inr ⟨_, (Move.close hx answered open').step⟩)

theorem doing_evict (l : List Nat) (n : Notifier C) :
    Run Notifier.step n (l.map .evict) (l.foldl Notifier.evict n) := by
  rw [Run.iff_foldlM]
  induction l generalizing n with
  | nil => rfl
  | cons i l ih => exact ih (n.evict i)

theorem notifier_step (h : p.step e = some p') :
    Run Notifier.step p.notifier (doing p e) p'.notifier := by
  cases step_move h with
  | deed hd => exact .snoc .nil hd
  | post | hand | answer => exact .nil
  | close hx =>
      simp only [doing, hx, Option.map_some, Option.getD_some]
      exact doing_evict ..

/-- The notifier goes on by what the events do with it. -/
theorem notifier_run {es : List (Event C S)} (run : Run step p es p') :
    Run Notifier.step p.notifier (notes step doing p es) p'.notifier := by
  induction run with
  | nil => exact .nil
  | snoc before last ih =>
      rw [notes_snoc _ before last]
      exact ih.trans (notifier_step last)

end Post

end Foreman
