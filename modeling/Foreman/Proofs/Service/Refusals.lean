import Foreman.Proofs.Service.Requests
import Foreman.Rehearsal.Player

/-!
Requests that are refused. A refusal leaves no trace: whatever a start has marked it takes back
before it fails, and an event that nobody waits for does not touch the processes that are pending.
-/

namespace Foreman

open Http Release

/-- The response turns the request down, or says that an event was not delivered. -/
def Http.Response.IsRefusal (r : Response) : Prop :=
  400 ≤ r.status ∧ r.status < 500 ∨ r.status = 503 ∨ r = Service.deliveryResponse false

namespace Service

variable {C : Type}

/-- The service is as it was, but for starts that have failed. -/
def Unchanged (s t : Service C) : Prop :=
  ∃ failed : List Start, (∀ x ∈ failed, ∃ f, x.phase = .ended (.error f)) ∧
    t = { s with desk := { s.desk with starts := s.desk.starts ++ failed } }

theorem Unchanged.refl (s : Service C) : s.Unchanged s :=
  ⟨[], by simp, by rw [List.append_nil]⟩

theorem isRefusal_of_finish {r : Request} {response : Response}
    (h : (finish r response).IsRefusal) : response.IsRefusal := by
  unfold finish at h
  split at h
  · rcases h with h | h | h
    · exact .inl h
    · exact .inr (.inl h)
    · simp [Response.withoutBody, deliveryResponse, Response.accepted] at h
  · exact h

theorem not_isRefusal_of_accepted {response : Response} (status : response.status = 202)
    (other : response ≠ deliveryResponse false) : ¬response.IsRefusal := by
  rintro (h | h | h)
  · omega
  · omega
  · exact other h

end Service

namespace Release

variable {C : Type}

/-- What a start for the milestone has changed so far: the service was `s` when it began and is `t`
when it is in some phase. Nothing is said of a start that has saved its attempt. -/
def StartPhase.Leaves (s t : Service C) (milestone : ResourceId) : StartPhase → Prop
  | .findingMilestone | .ended (.error _) => ∃ starts, t = { s with desk := { s.desk with starts } }
  | .checkingLatest _ | .savingAttempt _ _ =>
    milestone ∉ s.desk.starting ∧
      ∃ starts, t = { s with desk := { s.desk.mark milestone with starts } }
  | _ => True

end Release

/-- A milestone that is marked and then is no more leaves the marks as they were. -/
theorem ReleaseDesk.unmark_mark {d : ReleaseDesk} {milestone : ResourceId} (starts : List Start)
    (free : milestone ∉ d.starting) :
    ({ d.mark milestone with starts } : ReleaseDesk).unmark milestone = { d with starts } := by
  have others : d.starting.filter (· ≠ milestone) = d.starting :=
    List.filter_eq_self.mpr fun m hm => decide_eq_true fun h => free (h ▸ hm)
  simp only [unmark, mark]
  rw [List.filter_cons_of_neg (by simp), others]

namespace Service

variable {C : Type} [Recipient C] {send : Notification → Notifier.Send C} {s t u : Service C}
  {k : Nat} {e : ReleaseDesk.Event} {es : List ReleaseDesk.Event} {r : Request}
  {response : Response}

/-- A start that fails has taken its mark back, and has marked the milestone only if it was not
marked before. -/
theorem leaves_act {start : Start} (h : t.act send e = some u) (own : e.Furthers k)
    (hs : t.desk.starts[k]? = some start) (leaves : start.phase.Leaves s t start.milestone) :
    ∃ p, u.desk.starts = t.desk.starts.modify k (fun x => { x with phase := p }) ∧
      p.Leaves s u start.milestone := by
  obtain ⟨start', b, p, hs', move, hd⟩ := own.moves (desk_act h)
  obtain rfl := Option.some.inj (hs.symm.trans hs')
  refine ⟨p, by rw [hd, ReleaseDesk.withStart, move.starts_eq], ?_⟩
  have quiet (hq : e.told? = none) : u = { t with desk := b.withStart k p } := by
    obtain ⟨desk, hstep, rfl⟩ := (act_eq_some_of_quiet hq).mp h
    rw [← hd]
  cases move with
  | unknown hp | beaten hp =>
      rw [hp] at leaves
      obtain ⟨starts, rfl⟩ := leaves
      exact ⟨_, quiet rfl⟩
  | mark hp _ free =>
      rw [hp] at leaves
      obtain ⟨starts, rfl⟩ := leaves
      exact ⟨free, _, quiet rfl⟩
  | proceed hp =>
      rw [hp] at leaves
      obtain ⟨free, starts, rfl⟩ := leaves
      exact ⟨free, _, quiet rfl⟩
  | occupied hp =>
      rw [hp] at leaves
      obtain ⟨free, starts, rfl⟩ := leaves
      have back := quiet rfl
      dsimp only at back
      rw [ReleaseDesk.unmark_mark starts free] at back
      exact ⟨_, back⟩
  | enroll | close | accept | refuse | announced => trivial
  | lookupFails | checkFails | saveFails | closeFails =>
      simp [ReleaseDesk.Event.Furthers, ReleaseDesk.Event.fault?] at own
  | dropIdle | dropChecking | dropUnsaved | dropSaved | dropOpen | dropClosed =>
      simp [ReleaseDesk.Event.Furthers, ReleaseDesk.Event.start?] at own

theorem leaves_of_run (m : ResourceId) (token : String) {starts : List Start}
    (run : Run (act send) t es u) (own : ∀ e ∈ es, e.Furthers starts.length) {p : StartPhase}
    (hs : t.desk.starts = starts ++ [⟨m, token, p⟩]) (leaves : p.Leaves s t m) :
    ∃ q, u.desk.starts = starts ++ [⟨m, token, q⟩] ∧ q.Leaves s u m := by
  induction run with
  | nil => exact ⟨p, hs, leaves⟩
  | @snoc es t' u e before last ih =>
      obtain ⟨q, hq, leaves⟩ := ih fun e he => own e (List.mem_append_left _ he)
      have here : t'.desk.starts[starts.length]? = some ⟨m, token, q⟩ := by
        rw [hq, List.getElem?_concat_length]
      obtain ⟨q', hq', leaves⟩ :=
        leaves_act last (own e (List.mem_append_right _ List.mem_cons_self)) here leaves
      refine ⟨q', ?_, leaves⟩
      rw [hq', modify_eq_set _ here, hq]
      simp

/-- A request that is refused has changed nothing: there is no more than the start that has failed,
if the request was for one. The repositories, the coordinator with its queue and its running set,
the pending processes and their listeners, the milestones that are marked, and the clients are as
they were, whatever the service has been through before. To look for a listener that is not there,
as the correlator does for an event that it does not deliver, changes nothing either. -/
theorem refused_unchanged {process : String} {callbackBase : Option String}
    {es₀ : List ReleaseDesk.Event}
    (run : Run ReleaseDesk.step (.empty process callbackBase) es₀ s.desk)
    (answers : s.Answers send r response t) (refused : response.IsRefusal) :
    s.Unchanged t ∧ ∀ id e, s.desk.correlator.registration? id e = none →
      s.desk.correlator.consume id e = s.desk.correlator := by
  refine ⟨?_, fun id e absent => (ReleaseDesk.tight_of_run run).consume_eq_self absent⟩
  cases answers with
  | done h =>
      rcases receive_cases h with ⟨_, hp, same | ⟨status, other⟩⟩ | ⟨m, token, hp, -⟩ |
        ⟨id, name, payload, x, hp, -⟩
      · exact same ▸ .refl s
      · obtain rfl := Progress.done.inj hp
        exact absurd (isRefusal_of_finish refused) (not_isRefusal_of_accepted status other)
      · simp at hp
      · simp at hp
  | @started now k t es u start outcome h steps own hs ended =>
      rcases receive_cases h with ⟨_, hp, -⟩ | ⟨m, token, hp, rfl⟩ | ⟨id, name, payload, x, hp, -⟩
      · simp at hp
      · obtain rfl := Progress.starting.inj hp
        have first : StartPhase.findingMilestone.Leaves s
            { s with desk := s.desk.beginStart m token } m := ⟨_, rfl⟩
        obtain ⟨q, starts, leaves⟩ := leaves_of_run m token steps own rfl first
        obtain rfl : ⟨m, token, q⟩ = start := by simpa [starts] using hs
        cases outcome with
        | ok a =>
            refine absurd (isRefusal_of_finish refused) (not_isRefusal_of_accepted rfl ?_)
            simp [releaseResponse, Response.accepted, deliveryResponse, Wire.encode]
        | error f =>
            obtain rfl : q = .ended (.error f) := ended
            obtain ⟨starts', rfl⟩ := leaves
            obtain rfl : starts' = _ := starts
            exact ⟨[⟨m, token, .ended (.error f)⟩], by simp, rfl⟩
      · simp at hp
  | delivered =>
      refine absurd (isRefusal_of_finish refused) (not_isRefusal_of_accepted rfl ?_)
      simp [deliveryResponse, Response.accepted]

open Rehearsal

/-- Both milestones are being released, and there is no driver for builds. -/
def busy : Service Player := ⟨ReleaseDesk.waiting, none, .empty⟩

def again : Request :=
  ⟨"POST", "/api/v1/milestones/00000000-0000-0000-0000-000000000007/release",
    some "application/json", "\x7b\"access_token\": \"token\"\x7d"⟩

/-- The steps of the start that the request asks for. -/
def lookups : List ReleaseDesk.Event := List.replicate 2 (.answerStart 2 none noon ⟨0⟩)

theorem again_receive : ((busy.receive noon again).1 matches .starting 2) = true := by
  decide +kernel

theorem again_fails : ((lookups.foldlM (act Player.send) (busy.receive noon again).2).any fun u =>
    u.desk.starts[2]?.any (·.phase matches .ended (.error (.conflict _)))) = true := by
  decide +kernel

/-- A milestone that is being released is not released once more, and it is not marked either. -/
theorem refused_unchanged_again :
    ∃ response t, busy.Answers Player.send again response t ∧ response.status = 409 ∧
      busy.Unchanged t ∧ t.desk.starting = [] := by
  have run : Run ReleaseDesk.step (.empty "release" none) (ReleaseDesk.releasing noon) busy.desk :=
    Run.iff_foldlM.mpr (Option.some_get ReleaseDesk.releasing_runs).symm
  obtain ⟨u, hu, ended⟩ := Option.any_eq_true _ _ |>.mp again_fails
  obtain ⟨start, hs, ended⟩ := Option.any_eq_true _ _ |>.mp ended
  have received := again_receive
  split at received
  next hk =>
    split at ended
    next what hp =>
      have answers : busy.Answers Player.send again _ u := .started
        (Prod.ext hk rfl) (Run.iff_foldlM.mpr hu)
        (fun e he => by rw [List.eq_of_mem_replicate he]; exact ⟨rfl, rfl⟩) hs hp
      have status : (finish again (releaseResponse (.error (.conflict what)))).status = 409 := rfl
      have unchanged := (refused_unchanged run answers
        (.inl ⟨by rw [status]; decide, by rw [status]; decide⟩)).1
      refine ⟨_, u, answers, status, unchanged, ?_⟩
      obtain ⟨failed, -, rfl⟩ := unchanged
      exact (by decide +kernel : busy.desk.starting = [])
    next => simp at ended
  next => simp at received

end Service

end Foreman
