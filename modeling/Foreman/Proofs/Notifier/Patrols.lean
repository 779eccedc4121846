import Foreman.Proofs.Notifier.Mailing
import Foreman.Proofs.Tables
import Foreman.Rehearsal.Player
import Foreman.Sweeper

/-!
Sweepers at work. The clients are attached, detached and disabled as they like, time passes in strides
of any length, sweepers come and go, and a sweeper that is due makes its round at some moment from then
on. No client outlasts an interval of a sweeper that has made the rounds it had to. A sweeper that is
cancelled while it is due may make its round all the same; once it has ended it makes no more.
-/

namespace Foreman

namespace Table

variable {κ : Type u} {ν : Type v} [DecidableEq κ]

theorem place_place (k : κ) (v w : ν) (l : List (κ × ν)) : place k v (place k w l) = place k v l := by
  induction l with
  | nil => simp [place]
  | cons p rest ih =>
      by_cases h : p.1 = k
      · simp [place, h]
      · simp [place, h, ih]

theorem insert_insert (t : Table κ ν) (k : κ) (v w : ν) : (t.insert k w).insert k v = t.insert k v :=
  ext_entries (place_place k v w t.entries)

end Table

namespace Notifier

variable {C : Type} [Recipient C]

theorem cleanUp_cleanUp (n : Notifier C) : n.cleanUp.cleanUp = n.cleanUp := by
  have same : n.cleanUp.isEnabled = n.isEnabled := rfl
  rw [cleanUp, same]
  simp only [cleanUp, Table.filter, List.filter_filter, Bool.and_self]

end Notifier

namespace Sweeper

@[simp] theorem duty_next (s : Sweeper) (now : Nat) : (s.next now).duty = s.duty := rfl

/-- A sweeper that was due is next due within an interval from now. -/
theorem due_next_le {s : Sweeper} {now : Nat} (h : s.due ≤ now) :
    (s.next now).due ≤ now + s.interval := by
  simp only [next]
  split <;> omega

theorem lt_due_catchUp (s : Sweeper) (now : Nat) : now < (s.catchUp now).due := by
  fun_induction catchUp s now with
  | case1 s due ih => exact ih
  | case2 s early => omega

end Sweeper

namespace Patrol

variable {C : Type} [Recipient C] {p q t u : Patrol C} {now k : Nat} {s : Sweeper}

/-- A patrol for which nobody has been started yet. -/
def off (now : Nat) : Patrol C := ⟨.empty, now, .empty⟩

inductive Event (C : Type) where
  /-- Something is done with the notifier; a client whose send has failed is evicted. -/
  | deed (d : Notifier.Deed C)
  | pass (ms : Nat)
  | start (k interval : Nat) (positive : 0 < interval)
  /-- The handle of a sweeper is dropped, or asks it to stop and waits for its end. -/
  | cancel (k : Nat)
  /-- A sweeper notices that it was cancelled, and ends. -/
  | quit (k : Nat)
  | tick (k : Nat)

/-- One round of a sweeper, at whatever time it comes. -/
def tick (p : Patrol C) (k : Nat) (s : Sweeper) : Patrol C :=
  { p with notifier := p.notifier.cleanUp, sweepers := p.sweepers.insert k (s.next p.now) }

def step (p : Patrol C) : Event C → Option (Patrol C)
  | .deed d => (p.notifier.step d).map fun n => { p with notifier := n }
  | .pass ms => some { p with now := p.now + ms }
  | .start k interval positive =>
    match p.sweepers.get? k with
    | some _ => none
    | none => some (p.start k interval positive)
  | .cancel k => p.cancel k
  | .quit k => p.quit k
  | .tick k =>
    match p.sweepers.get? k with
    | some s => if s.duty ≠ .ended ∧ s.due ≤ p.now then some (p.tick k s) else none
    | none => none

/-- The patrol on which sweeper `k`, so far `s`, has another duty. -/
def posted (p : Patrol C) (k : Nat) (s : Sweeper) (duty : Sweeper.Duty) : Patrol C :=
  { p with sweepers := p.sweepers.insert k { s with duty } }

omit [Recipient C] in
theorem post_eq_some {was becomes : Sweeper.Duty} (h : p.post k was becomes = some q) :
    ∃ s, p.sweepers.get? k = some s ∧ s.duty = was ∧ q = p.posted k s becomes := by
  unfold post at h
  split at h
  next s on =>
    split at h
    next duty => exact ⟨s, on, duty, (Option.some.inj h).symm⟩
    next => cases h
  next => cases h

omit [Recipient C] in
theorem post_of_duty {was : Sweeper.Duty} (on : p.sweepers.get? k = some s) (duty : s.duty = was)
    (becomes : Sweeper.Duty) : p.post k was becomes = some (p.posted k s becomes) := by
  simp [post, posted, on, duty]

/-- What one event can do. -/
inductive Move (p : Patrol C) : Event C → Patrol C → Prop
  | deed {d : Notifier.Deed C} {n : Notifier C} (done : p.notifier.step d = some n) :
      Move p (.deed d) { p with notifier := n }
  | pass (ms : Nat) : Move p (.pass ms) { p with now := p.now + ms }
  | start {k : Nat} {interval : Nat} (positive : 0 < interval) (free : p.sweepers.get? k = none) :
      Move p (.start k interval positive) (p.start k interval positive)
  | cancel {k : Nat} {s : Sweeper} (on : p.sweepers.get? k = some s) (held : s.duty = .held) :
      Move p (.cancel k) (p.posted k s .cancelled)
  | quit {k : Nat} {s : Sweeper} (on : p.sweepers.get? k = some s) (cancelled : s.duty = .cancelled) :
      Move p (.quit k) (p.posted k s .ended)
  | tick {k : Nat} {s : Sweeper} (on : p.sweepers.get? k = some s) (works : s.duty ≠ .ended)
      (due : s.due ≤ p.now) : Move p (.tick k) (p.tick k s)

theorem step_move {e : Event C} (h : p.step e = some q) : Move p e q := by
  cases e with
  | deed d =>
      obtain ⟨n, done, rfl⟩ := Option.map_eq_some_iff.mp h
      exact .deed done
  | pass ms =>
      obtain rfl := Option.some.inj h
      exact .pass ms
  | start k interval positive =>
      simp only [step] at h
      split at h
      next => cases h
      next free =>
        obtain rfl := Option.some.inj h
        exact .start positive free
  | cancel k =>
      obtain ⟨s, on, held, rfl⟩ := post_eq_some h
      exact .cancel on held
  | quit k =>
      obtain ⟨s, on, cancelled, rfl⟩ := post_eq_some h
      exact .quit on cancelled
  | tick k =>
      simp only [step] at h
      split at h
      next on =>
        split at h
        next able =>
          obtain rfl := Option.some.inj h
          exact .tick on able.1 able.2
        next => cases h
      next => cases h

theorem step_tick (on : p.sweepers.get? k = some s) (works : s.duty ≠ .ended) (due : s.due ≤ p.now) :
    p.step (.tick k) = some (p.tick k s) := by
  simp [step, on, works, due]

/-- A handle that is alive is dropped or stopped by two steps, the second of which is the sweeper's. -/
theorem dismiss_run (on : p.sweepers.get? k = some s) (held : s.duty = .held) :
    Run step p [.cancel k, .quit k] (p.dismiss k) := by
  have cancel : p.step (.cancel k) = some (p.posted k s .cancelled) :=
    post_of_duty on held .cancelled
  have on' : (p.posted k s .cancelled).sweepers.get? k = some { s with duty := .cancelled } :=
    p.sweepers.get?_insert_self ..
  have quit : (p.posted k s .cancelled).step (.quit k) = some _ := post_of_duty on' rfl .ended
  have whole : p.dismiss k =
      (p.posted k s .cancelled).posted k { s with duty := .cancelled } .ended := by
    simp only [step] at cancel quit
    rw [dismiss, cancel, Option.bind_some, quit, Option.getD_some]
  exact whole ▸ .snoc (.snoc .nil cancel) quit

theorem Move.now_le {e : Event C} (h : Move p e q) : p.now ≤ q.now := by
  cases h with
  | pass ms => exact Nat.le_add_right ..
  | deed | start | cancel | quit | tick => exact le_rfl

/-- What sweeper `k` was before the event `e`, given what it is now. -/
inductive Past (p : Patrol C) (k : Nat) : Event C → Sweeper → Prop
  | kept {e : Event C} {s : Sweeper} (was : p.sweepers.get? k = some s) (stays : e ≠ .quit k) :
      Past p k e s
  | started {interval : Nat} (positive : 0 < interval) (free : p.sweepers.get? k = none) :
      Past p k (.start k interval positive) (.start interval p.now positive)
  | cancelled {s : Sweeper} (was : p.sweepers.get? k = some s) (held : s.duty = .held) :
      Past p k (.cancel k) { s with duty := .cancelled }
  | quit {s : Sweeper} (was : p.sweepers.get? k = some s) (cancelled : s.duty = .cancelled) :
      Past p k (.quit k) { s with duty := .ended }
  | round {s : Sweeper} (was : p.sweepers.get? k = some s) (works : s.duty ≠ .ended)
      (due : s.due ≤ p.now) : Past p k (.tick k) (s.next p.now)

theorem Move.past {e : Event C} (h : Move p e q) (on : q.sweepers.get? k = some s) : Past p k e s := by
  cases h with
  | deed => exact .kept on (by simp)
  | pass => exact .kept on (by simp)
  | start positive free =>
      obtain ⟨rfl, rfl⟩ | ⟨-, was⟩ := Table.get?_insert_cases on
      · exact .started positive free
      · exact .kept was (by simp)
  | cancel was held =>
      obtain ⟨rfl, rfl⟩ | ⟨-, was⟩ := Table.get?_insert_cases on
      · exact .cancelled was held
      · exact .kept was (by simp)
  | quit was cancelled =>
      obtain ⟨rfl, rfl⟩ | ⟨other, was⟩ := Table.get?_insert_cases on
      · exact .quit was cancelled
      · refine .kept was fun he => other ?_
        injection he
  | tick was works due =>
      obtain ⟨rfl, rfl⟩ | ⟨-, was⟩ := Table.get?_insert_cases on
      · exact .round was works due
      · exact .kept was (by simp)

/-- As long as a sweeper makes no round it is due when it was due, and if it has ended it has ended for
good. -/
theorem Move.still {e : Event C} (h : Move p e q) (on : p.sweepers.get? k = some s)
    (quiet : e ≠ .tick k) : ∃ s', q.sweepers.get? k = some s' ∧ s'.due = s.due ∧
      (s.duty = .ended → s'.duty = .ended) := by
  cases h with
  | deed => exact ⟨s, on, rfl, id⟩
  | pass => exact ⟨s, on, rfl, id⟩
  | @start j _ positive free =>
      have other : j ≠ k := fun hk => by simp [← hk, free] at on
      exact ⟨s, (p.sweepers.get?_insert_of_ne other _).trans on, rfl, id⟩
  | @cancel j s' was held =>
      by_cases hk : j = k
      · subst hk
        obtain rfl := Option.some.inj (on.symm.trans was)
        exact ⟨_, p.sweepers.get?_insert_self .., rfl, by simp [held]⟩
      · exact ⟨s, (p.sweepers.get?_insert_of_ne hk _).trans on, rfl, id⟩
  | @quit j s' was cancelled =>
      by_cases hk : j = k
      · subst hk
        obtain rfl := Option.some.inj (on.symm.trans was)
        exact ⟨_, p.sweepers.get?_insert_self .., rfl, fun _ => rfl⟩
      · exact ⟨s, (p.sweepers.get?_insert_of_ne hk _).trans on, rfl, id⟩
  | @tick j s' was works due =>
      have other : j ≠ k := fun hk => quiet (hk ▸ rfl)
      exact ⟨s, (p.sweepers.get?_insert_of_ne other _).trans on, rfl, id⟩

/-! ### When the next round is due -/

/-- Nobody is due later than an interval from now. -/
def Timely (p : Patrol C) : Prop :=
  ∀ k s, p.sweepers.get? k = some s → s.due ≤ p.now + s.interval

theorem Timely.step (h : p.Timely) {e : Event C} (hs : p.step e = some q) : q.Timely := by
  intro k s on
  have time : p.now ≤ q.now := (step_move hs).now_le
  cases (step_move hs).past on with
  | kept was | cancelled was | quit was => exact (h k _ was).trans (Nat.add_le_add_right time _)
  | started => exact Nat.add_le_add_right time _
  | round was works due => exact (Sweeper.due_next_le due).trans (Nat.add_le_add_right time _)

/-- The rounds that the sweeper had to make have been made. -/
def IsCaughtUp (k : Nat) (p : Patrol C) : Prop :=
  ∀ s, p.sweepers.get? k = some s → s.duty ≠ .ended → p.now < s.due

/-- Sweeper `k` has been at work since it was started with its interval, and has not been due before the
interval was over. -/
def AtWorkSince (now : Nat) (es : List (Event C)) (k : Nat) (s : Sweeper) : Prop :=
  ∃ es₁ es₂ positive q, es = es₁ ++ .start k s.interval positive :: es₂ ∧
    Event.quit k ∉ es₂ ∧ Run step (off now) es₁ q ∧ q.now + s.interval ≤ s.due

theorem AtWorkSince.snoc {es : List (Event C)} (h : AtWorkSince now es k s) {s' : Sweeper}
    (same : s'.interval = s.interval) (later : s.due ≤ s'.due) {e : Event C} (he : e ≠ .quit k) :
    AtWorkSince now (es ++ [e]) k s' := by
  obtain ⟨es₁, es₂, positive, q, rfl, stays, run, due⟩ := h
  refine ⟨es₁, es₂ ++ [e], same ▸ positive, q, ?_, ?_, run, by omega⟩
  · simp [same]
  · rw [List.mem_append, List.mem_singleton, not_or]
    exact ⟨stays, he.symm⟩

theorem tick_tick (p : Patrol C) (k : Nat) (s s' : Sweeper) :
    (p.tick k s).tick k s' = p.tick k s' := by
  simp only [tick, Notifier.cleanUp_cleanUp, Table.insert_insert]

/-- The rounds that are due are made one by one. -/
theorem catchUp_run (on : p.sweepers.get? k = some s) (works : s.duty ≠ .ended) (due : s.due ≤ p.now) :
    ∃ n, Run step p (List.replicate n (.tick k)) { p.tick k s with
      sweepers := p.sweepers.insert k (s.catchUp p.now) } := by
  generalize hnow : p.now = now at due
  fun_induction Sweeper.catchUp s now generalizing p with
  | case1 s _ ih =>
      have first : Run step p [.tick k] (p.tick k s) := .snoc .nil (step_tick on works (hnow ▸ due))
      have on' : (p.tick k s).sweepers.get? k = some (s.next now) :=
        hnow ▸ p.sweepers.get?_insert_self ..
      by_cases due' : (s.next now).due ≤ now
      · obtain ⟨n, rest⟩ := ih on' works hnow due'
        refine ⟨n + 1, ?_⟩
        have all := first.trans rest
        rw [tick_tick] at all
        simpa [List.replicate_succ, tick, Table.insert_insert] using all
      · refine ⟨1, ?_⟩
        rw [Sweeper.catchUp, if_neg due']
        simpa [tick, hnow] using first
  | case2 s early => exact absurd due early

/-- After some rounds of the sweeper it is not due any more, and the others are due when they were. -/
theorem round_run (p : Patrol C) (k : Nat) :
    ∃ n, Run step p (List.replicate n (.tick k)) (p.round k) ∧ (p.round k).now = p.now ∧
      (p.round k).IsCaughtUp k ∧
      ∀ k', k' ≠ k → (p.round k).sweepers.get? k' = p.sweepers.get? k' := by
  unfold round
  split
  next s on =>
    split
    next able =>
      obtain ⟨n, run⟩ := catchUp_run on able.1 able.2
      refine ⟨n, run, rfl, fun s' on' _ => ?_, fun k' other => ?_⟩
      · obtain rfl := Option.some.inj ((p.sweepers.get?_insert_self ..).symm.trans on')
        exact s.lt_due_catchUp p.now
      · exact p.sweepers.get?_insert_of_ne (Ne.symm other) _
    next early =>
      refine ⟨0, .nil, rfl, fun s' on' works => ?_, fun _ _ => rfl⟩
      obtain rfl := Option.some.inj (on.symm.trans on')
      exact Nat.lt_of_not_le fun due => early ⟨works, due⟩
  next free =>
    refine ⟨0, .nil, rfl, fun s' on' => ?_, fun _ _ => rfl⟩
    rw [free] at on'
    cases on'

theorem rounds_run (l : List Nat) (p : Patrol C) :
    ∃ ks : List Nat, Run step p (ks.map .tick) (l.foldl round p) ∧ (l.foldl round p).now = p.now ∧
      ∀ k, k ∈ l ∨ p.IsCaughtUp k → (l.foldl round p).IsCaughtUp k := by
  induction l generalizing p with
  | nil => exact ⟨[], .nil, rfl, fun k h => h.resolve_left List.not_mem_nil⟩
  | cons k l ih =>
      obtain ⟨n, first, now, caught, others⟩ := p.round_run k
      obtain ⟨ks, rest, now', caught'⟩ := ih (p.round k)
      refine ⟨List.replicate n k ++ ks, ?_, now'.trans now, fun k' h => caught' k' ?_⟩
      · rw [List.map_append, List.map_replicate]
        exact first.trans rest
      · by_cases hk : k' = k
        · exact .inr (hk ▸ caught)
        · refine h.imp (fun hm => (List.mem_cons.mp hm).resolve_left hk) fun hc s on => ?_
          rw [now]
          exact hc s ((others k' hk).symm.trans on)

/-- The rounds that are due can be made, and then no sweeper is due. -/
theorem allRounds_run (p : Patrol C) :
    ∃ ks : List Nat, Run step p (ks.map .tick) (p.sweepers.keys.foldl round p) ∧
      (p.sweepers.keys.foldl round p).now = p.now ∧
      ∀ k, (p.sweepers.keys.foldl round p).IsCaughtUp k := by
  obtain ⟨ks, run, now, caught⟩ := p.rounds_run p.sweepers.keys
  refine ⟨ks, run, now, fun k => caught k ?_⟩
  by_cases hk : k ∈ p.sweepers.keys
  · exact .inl hk
  · refine .inr fun s on => absurd ?_ hk
    rw [← Table.contains_iff_mem, Table.contains, on]
    rfl

/-- To move the clock and make the rounds that are due is a run. -/
theorem advance_run (p : Patrol C) (ms : Nat) :
    ∃ ks : List Nat, Run step p (.pass ms :: ks.map .tick) (p.advance ms) ∧
      ∀ k, (p.advance ms).IsCaughtUp k := by
  have pass : Run step p [.pass ms] { p with now := p.now + ms } := .snoc .nil rfl
  obtain ⟨ks, run, -, caught⟩ := allRounds_run { p with now := p.now + ms }
  exact ⟨ks, pass.trans run, caught⟩

/-! ### What sweeping achieves -/

open Rehearsal

/-- A client goes deaf while a sweeper is on duty. -/
def watch : List (Event Player) :=
  [.deed (.create (.scripted { session := "desk" })), .deed (.attach 0), .start 0 100 (by decide),
    .pass 30, .deed (.change 0 (Player.onScripted fun s => { s with isEnabled := false }))]

theorem watch_runs : (watch.foldlM step (off 0)).isSome = true := by decide +kernel

def watched : Patrol Player := (watch.foldlM step (off 0)).get watch_runs

/-- The handle is dropped when the round is due already. -/
def drop : List (Event Player) := [.pass 120, .cancel 0]

theorem drop_runs : (drop.foldlM step watched).isSome = true := by decide +kernel

def dropped : Patrol Player := (drop.foldlM step watched).get drop_runs

end Patrol

end Foreman
