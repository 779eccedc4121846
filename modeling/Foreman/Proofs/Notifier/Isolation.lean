import Foreman.Proofs.Notifier.Mailing
import Foreman.Rehearsal.Player

/-!
A message keeps its clients apart. Whatever they do while it is on its way, each client that heard it
when it was posted is handed it once; and those that fail are detached in the end, but no others, nor
a client that has taken over the session of one that failed.
-/

namespace Foreman

namespace Mailing

variable {S : Type} {x : Mailing S} {hands : List Nat} {answers : List (Nat × Bool)}

/-- Once all have answered, all have been handed the message. -/
theorem Onward.answered {sender : S} {n : Notification} {order : List Nat}
    (on : (⟨sender, n, order, [], none⟩ : Mailing S).Onward x hands answers)
    (h : x.isAnswered = true) :
    hands = order ∧ x.answers.map (·.1) = hands ∧ x.answers.Perm answers := by
  have hhanded : x.handed.map (·.1) = hands := by simpa using on.handed
  refine ⟨?_, ?_, by simpa [Mailing.answers] using on.answers⟩
  · have waiting := on.waiting
    rw [waiting_eq_nil h, List.append_nil] at waiting
    exact waiting.symm
  · rw [← hhanded, handed_eq h, List.map_map]
    rfl

end Mailing

namespace Post

variable {C S : Type} [Recipient C] {p p' p₀ p₁ p₂ p₃ : Post C S} {es₀ es : List (Event C S)}
  {m : Nat} {x : Mailing S}

omit [Recipient C] in
theorem posted_mailing (p : Post C S) (sender : S) (n : Notification) (order : List Nat) :
    (p.mailings ++ [⟨sender, n, order, [], none⟩])[p.mailings.length]? =
      some ⟨sender, n, order, [], none⟩ := by
  simp

theorem settled_of_run (run : Run step .empty es p) : p.notifier.Settled :=
  Notifier.settled_empty.run (notifier_run run)

/-- What a message does between its posting in `p₀`, the last answer in `p₂` and the return of its
posting in `p₃`, when it is handed to the clients in `hands`, which give `answers`. -/
structure Isolated (p₀ p₂ p₃ : Post C S) (n : Notification) (a : Audience) (hands : List Nat)
    (answers : List (Nat × Bool)) : Prop where
  once : hands.Nodup
  reached : ∀ i, i ∈ hands ↔ p₀.notifier.Hears a i
  answered : (answers.map (·.1)).Perm hands
  counted : ∃ x d, p₃.mailings[p₀.mailings.length]? = some x ∧ x.message = n ∧
    x.delivery = some d ∧ d.delivered = answers.countP (·.2) ∧ d.failed = answers.countP (!·.2) ∧
    d.delivered + d.failed = hands.length
  clients : p₃.notifier.clients = p₂.notifier.clients
  /-- Only those that failed are detached. -/
  attached : ∀ session, p₃.notifier.attached.get? session =
    (p₂.notifier.attached.get? session).filter fun i => (i, false) ∉ answers

theorem isolated {sender : S} {n : Notification} {a : Audience} {order hands : List Nat}
    {answers : List (Nat × Bool)} (settled : p₀.notifier.Settled)
    (perm : order.Perm (p₀.notifier.targets a.wants))
    (hx : p₂.mailings[p₀.mailings.length]? = some x)
    (on : (⟨sender, n, order, [], none⟩ : Mailing S).Onward x hands answers)
    (returned : p₂.step (.close p₀.mailings.length) = some p₃) :
    Isolated p₀ p₂ p₃ n a hands answers := by
  cases step_move returned with
  | @close _ x' hx' answered open' =>
      obtain rfl : x' = x := Option.some.inj (hx'.symm.trans hx)
      obtain ⟨hhands, hfirst, hanswers⟩ := on.answered answered
      refine ⟨?_, fun i => ?_, ?_, ?_, ?_, fun session => ?_⟩
      · rw [hhands, perm.nodup_iff]
        exact settled.nodup_targets _
      · rw [hhands, perm.mem_iff]
        exact Notifier.mem_targets
      · rw [← hfirst]
        exact (hanswers.map _).symm
      · refine ⟨{ x' with delivery := some x'.count }, x'.count, ?_, on.message, rfl, ?_⟩
        · exact (getElem?_withMailing p₂ hx' _ _).trans (if_pos rfl)
        · rw [Mailing.count_total answered, Mailing.count_eq answered, hanswers.countP_eq,
            hanswers.countP_eq, ← List.length_map (f := fun y => y.1), on.handed]
          simp
      · exact Notifier.clients_evict ..
      · refine (Notifier.get?_evict x'.failed p₂.notifier session).trans ?_
        congr 1
        funext i
        exact decide_eq_decide.mpr (not_congr ((Mailing.mem_failed answered).trans hanswers.mem_iff))

/-- In any run, a message that was posted, and whose posting has returned, was handed once to each
client that heard it then, and to no other. Each of these has answered once, and the count of those
that succeeded and of those that failed is given back. Meanwhile the notifier went on by what was done
with it, and then exactly the clients that failed were detached. -/
theorem broadcast_isolated {sender : S} {n : Notification} {a : Audience} {order : List Nat}
    (before : Run step .empty es₀ p₀) (posted : p₀.step (.post sender n a order) = some p₁)
    (sending : Run step p₁ es p₂) (returned : p₂.step (.close p₀.mailings.length) = some p₃) :
    Isolated p₀ p₂ p₃ n a (notes step (handing p₀.mailings.length) p₁ es)
        (notes step (answering p₀.mailings.length) p₁ es) ∧
      Run Notifier.step p₀.notifier (notes step doing p₁ es) p₂.notifier := by
  cases step_move posted with
  | post perm =>
      obtain ⟨x, hx, on⟩ := mailing_run sending (posted_mailing p₀ sender n order)
      exact ⟨isolated (settled_of_run before) perm hx on returned, notifier_run sending⟩

/-! ### Sending in turn -/

theorem deeds_run {ds : List (Notifier.Deed C)} {n : Notifier C}
    (run : Run Notifier.step p.notifier ds n) :
    Run step p (ds.map .deed) { p with notifier := n } := by
  induction run with
  | nil => exact .nil
  | snoc before last ih =>
      rw [List.map_append]
      exact .snoc ih (Move.deed last).step

/-- Whatever sends do, they do it by deeds. -/
def Orderly (send : Notifier.Send C) : Prop := ∀ i n, ∃ ds, Run Notifier.step n ds (send i n).2

omit [Recipient C] in
theorem sendEach_cons (send : Notifier.Send C) (i : Nat) (l : List Nat) (n : Notifier C) :
    Notifier.sendEach send (i :: l) n =
      let (failed, n') := Notifier.sendEach send l (send i n).2
      (if (send i n).1.isOk then failed else i :: failed, n') := by
  rcases h : send i n with ⟨r, n'⟩
  cases r <;> simp [Notifier.sendEach, h, Except.isOk, Except.toBool]

/-- The message is handed to each client in turn, which acts and answers before the next one is up. -/
theorem sendEach_run {send : Notifier.Send C} (orderly : Orderly send) (l : List Nat)
    (hx : p.mailings[m]? = some x) (hw : x.waiting = l) :
    ∃ es p' r, Run step p es p' ∧ p'.notifier = (Notifier.sendEach send l p.notifier).2 ∧
      p'.mailings[m]? = some { x with waiting := [], handed := x.handed ++ r } ∧
      (∀ y ∈ r, y.2.isSome = true) ∧ r.length = l.length ∧
      (r.filter (·.2 = some false)).map (·.1) = (Notifier.sendEach send l p.notifier).1 := by
  induction l generalizing p x with
  | nil => exact ⟨[], p, [], .nil, rfl, by simp [← hw, hx], by simp, rfl, rfl⟩
  | cons i l ih =>
      obtain ⟨ds, acting⟩ := orderly i p.notifier
      let ok := (send i p.notifier).1.isOk
      let x₁ : Mailing S := { x with waiting := l, handed := x.handed ++ [(i, none)] }
      let p₁ : Post C S := { p.withMailing m x₁ with notifier := (send i p.notifier).2 }
      let x₂ : Mailing S := { x with waiting := l, handed := x.handed ++ [(i, some ok)] }
      have hx₁ : p₁.mailings[m]? = some x₁ := (getElem?_withMailing p hx m x₁).trans (if_pos rfl)
      have hand : Run step p [.hand m] (p.withMailing m x₁) := .snoc .nil (Move.hand hx hw).step
      have act : Run step (p.withMailing m x₁) (ds.map .deed) p₁ := deeds_run acting
      have answer : Run step p₁ [.answer m x.handed.length ok] (p₁.withMailing m x₂) := by
        have hk : x₁.handed[x.handed.length]? = some (i, none) := by simp [x₁]
        refine .snoc .nil ((Move.answer hx₁ hk).step.trans ?_)
        simp [x₁, x₂]
      have hx₂ : (p₁.withMailing m x₂).mailings[m]? = some x₂ :=
        (getElem?_withMailing p₁ hx₁ m x₂).trans (if_pos rfl)
      obtain ⟨es, p', r, rest, hn, hx', answered, hlength, hfailed⟩ := ih hx₂ rfl
      refine ⟨_, p', (i, some ok) :: r, ((hand.trans act).trans answer).trans rest, ?_, ?_, ?_, ?_, ?_⟩
      · rw [sendEach_cons]
        exact hn
      · simpa [x₂] using hx'
      · simpa using answered
      · simp [hlength]
      · rw [sendEach_cons]
        have hfailed : (r.filter (·.2 = some false)).map (·.1) =
            (Notifier.sendEach send l (send i p.notifier).2).1 := hfailed
        cases hok : (send i p.notifier).1.isOk <;> simp [ok, hok, hfailed]

/-- What `deliver` does is such a course of a message, which is handed on in the order of the clients
to one after the other. -/
theorem deliver_run {send : Notifier.Send C} (orderly : Orderly send) (p : Post C S) (sender : S)
    (n : Notification) (a : Audience) :
    ∃ p₁ es p₂ p₃ x, p.step (.post sender n a (p.notifier.targets a.wants)) = some p₁ ∧
      Run step p₁ es p₂ ∧ p₂.step (.close p.mailings.length) = some p₃ ∧
      p₃.mailings[p.mailings.length]? = some x ∧
      Notifier.deliver send (p.notifier.targets a.wants) p.notifier =
        (x.count, p₃.notifier) := by
  let l := p.notifier.targets a.wants
  let p₁ : Post C S := { p with mailings := p.mailings ++ [⟨sender, n, l, [], none⟩] }
  have posted : p.step (.post sender n a l) = some p₁ := (Move.post (.refl _)).step
  obtain ⟨es, p₂, r, sending, hn, hx, answered, hlength, hfailed⟩ :=
    sendEach_run (p := p₁) orderly l (posted_mailing p sender n l) rfl
  rw [List.nil_append] at hx
  let x : Mailing S := ⟨sender, n, [], r, none⟩
  have done : x.isAnswered = true := by simpa [Mailing.isAnswered, x] using answered
  have failed : x.failed = (Notifier.sendEach send l p.notifier).1 := hfailed
  have count : x.count = ⟨l.length - x.failed.length, x.failed.length⟩ := by
    have total := Mailing.count_total done
    have hlength : x.handed.length = l.length := hlength
    rw [hlength, Mailing.count_failed] at total
    rw [← total, Nat.add_sub_cancel, ← Mailing.count_failed]
  refine ⟨p₁, es, p₂, _, _, posted, sending, (Move.close hx done rfl).step,
    (getElem?_withMailing p₂ hx _ _).trans (if_pos rfl), ?_⟩
  show _ = (x.count, x.failed.foldl Notifier.evict p₂.notifier)
  rw [count, failed, hn]
  rfl

end Post

namespace Rehearsal.Player

/-- What a scripted client does first is done by deeds. -/
theorem react_run (i : Nat) (s : Scripted) (n : Notifier Player) :
    ∃ ds, Run Notifier.step n ds (react i s n) := by
  unfold react
  split
  next => exact ⟨[], .nil⟩
  next =>
    exact ⟨[.create (scripted { session := s.session }), .attach n.clients.length],
      .snoc (.snoc .nil rfl) rfl⟩
  next => exact ⟨[.detach s.session], .snoc .nil rfl⟩
  next =>
    refine ⟨[.change i (onScripted fun s => { s with isEnabled := false })], .snoc .nil ?_⟩
    exact Notifier.step_change n i fun c => by cases c <;> rfl
  next => exact ⟨[.cleanUp], .snoc .nil rfl⟩

/-- Whatever clients of rehearsals do when they are sent a message, they do by deeds. -/
theorem send_orderly (m : Notification) : Post.Orderly (send m) := by
  intro i n
  unfold send
  split
  next => exact ⟨[], .nil⟩
  next c hc =>
    have hsession : (c.send m).2.session = c.session := by
      unfold Socket.Client.send
      split
      next => rfl
      next => split <;> rfl
    refine ⟨[.change i fun _ => socket (c.send m).2], .snoc .nil ?_⟩
    simp [Notifier.step, Notifier.Deed.isPossible, hc, Recipient.session, session, hsession,
      Notifier.Deed.apply]
  next s _ =>
    obtain ⟨ds, reacting⟩ := react_run i s n
    dsimp only
    split
    next => exact ⟨ds, reacting⟩
    next => exact ⟨ds, reacting⟩
    next =>
      refine ⟨_, .snoc reacting (Notifier.step_change _ i fun c => ?_)⟩
      cases c <;> rfl

end Rehearsal.Player

namespace Post

open Rehearsal

/-- Two clients are attached. -/
def reception : List (Event Player Unit) :=
  [.deed (.create (.scripted { session := "desk" })), .deed (.attach 0),
    .deed (.create (.scripted { session := "hall" })), .deed (.attach 1)]

/-- A message is handed to both. The first of them fails, and by then another client has its
session. -/
def takeover : List (Event Player Unit) :=
  [.hand 0, .deed (.create (.scripted { session := "desk" })), .deed (.attach 2), .hand 0,
    .answer 0 1 true, .answer 0 0 false]

theorem reception_runs : (reception.foldlM step empty).isSome = true := by decide +kernel

def received : Post Player Unit := (reception.foldlM step empty).get reception_runs

theorem greeting_posts :
    (received.step (.post () (.message "hello") .everyone [0, 1])).isSome = true := by
  decide +kernel

def greeted : Post Player Unit :=
  (received.step (.post () (.message "hello") .everyone [0, 1])).get greeting_posts

theorem takeover_runs : (takeover.foldlM step greeted).isSome = true := by decide +kernel

def takenOver : Post Player Unit := (takeover.foldlM step greeted).get takeover_runs

theorem takeover_closes : (takenOver.step (.close 0)).isSome = true := by decide +kernel

theorem broadcast_isolated_takeover :
    ∃ p : Post Player Unit, takenOver.step (.close received.mailings.length) = some p ∧
      (∀ i, i ∈ [0, 1] ↔ received.notifier.Hears .everyone i) ∧
      p.notifier.attached.get? "desk" = some 2 ∧ p.notifier.attached.get? "hall" = some 1 := by
  have before : Run step empty reception received :=
    Run.iff_foldlM.mpr (Option.some_get reception_runs).symm
  have posted : received.step (.post () (.message "hello") .everyone [0, 1]) = some greeted :=
    (Option.some_get greeting_posts).symm
  have sending : Run step greeted takeover takenOver :=
    Run.iff_foldlM.mpr (Option.some_get takeover_runs).symm
  have returned : takenOver.step (.close received.mailings.length) = _ :=
    (Option.some_get takeover_closes).symm
  obtain ⟨isolated, -⟩ := broadcast_isolated before posted sending returned
  have hands : notes step (handing received.mailings.length) greeted takeover = [0, 1] := by
    decide +kernel
  have answers : notes step (answering received.mailings.length) greeted takeover =
      [(1, true), (0, false)] := by decide +kernel
  have desk : takenOver.notifier.attached.get? "desk" = some 2 := by decide +kernel
  have hall : takenOver.notifier.attached.get? "hall" = some 1 := by decide +kernel
  refine ⟨_, returned, fun i => hands ▸ isolated.reached i, ?_, ?_⟩
  · rw [isolated.attached, desk]
    simp [answers]
  · rw [isolated.attached, hall]
    simp [answers]

end Post

end Foreman
