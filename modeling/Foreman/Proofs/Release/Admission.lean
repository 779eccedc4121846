import Foreman.Proofs.Release.Errands
import Foreman.Proofs.Release.Heralds

/-!
Which starts are turned away. A milestone is marked as long as one start has won its mark and has not
saved its attempt, and nobody else lets go of the mark. A start is turned away exactly if at one of its
two checks it finds another one at work, and then it has done nothing that anybody could notice.
-/

namespace Foreman

open Release

/-- Nothing has come of the start so far. -/
def Release.StartPhase.IsBarren : StartPhase → Prop
  | .findingMilestone | .checkingLatest _ | .savingAttempt _ _ | .ended (.error _) => True
  | _ => False

namespace ReleaseDesk

/-- The start that takes a step by the event. -/
def Event.caller? : Event → Option Nat
  | answerStart k _ _ _ | answerAsking k _ _ | startAnnounced k | dropStart k _ => some k
  | _ => none

/-- The start with number `k` holds the mark of the milestone. -/
def Holds (d : ReleaseDesk) (k : Nat) (milestone : ResourceId) : Prop :=
  ∃ s, d.starts[k]? = some s ∧ s.milestone = milestone ∧ s.phase.HoldsMark

section Step

variable {d b d' : ReleaseDesk} {k : Nat} {e : Event} {s : Start} {p : StartPhase}
  {milestone : ResourceId}

theorem StartStep.caller? (h : StartStep d k s e b p) : e.caller? = some k := by
  cases h <;> rfl

theorem moves_of_caller (h : d.step e = some d') (own : e.caller? = some k) :
    StartMoves d k e d' := by
  cases e with
  | answerStart j fault now id =>
      obtain rfl := Option.some.inj own
      exact answerStart_moves h
  | answerAsking j answer now =>
      obtain rfl := Option.some.inj own
      exact answerAsking_moves h
  | startAnnounced j =>
      obtain rfl := Option.some.inj own
      exact startAnnounced_moves h
  | dropStart j landed =>
      obtain rfl := Option.some.inj own
      exact dropStart_moves h
  | beginStart | answerRecording | recordingAnnounced | dispatch | abandon | register | withdraw
  | edit => cases own

theorem StartStep.unended (h : StartStep d k s e b p) (r : Except Fault ReleaseAttempt) :
    s.phase ≠ .ended r := by
  intro ended
  cases h <;> simp_all

/-- A start goes on by its own events only. -/
theorem start_kept (h : d.step e = some d') (foreign : e.caller? ≠ some k)
    (hs : d.starts[k]? = some s) : d'.starts[k]? = some s := by
  obtain ⟨p, hs', rfl | ⟨b, step⟩⟩ := start_step h hs
  · exact hs'
  · exact absurd step.caller? foreign

/-- A start that was not there before has not been answered yet. -/
theorem phase_of_new (h : d.step e = some d') (absent : d.starts[k]? = none)
    (hs : d'.starts[k]? = some s) : s.phase = .findingMilestone ∧ e.caller? = none := by
  rcases step_cases h with ⟨j, s', b, p, hj, step, rfl⟩ | ⟨j, r, b, q, -, step, rfl⟩ | step
  · rcases step.starts_cases hj hs with ⟨rfl, -⟩ | ⟨-, hs⟩
    · rw [absent] at hj
      cases hj
    · rw [absent] at hs
      cases hs
  · rw [starts_withRecording, step.frame.1, absent] at hs
    cases hs
  · refine ⟨(step.start_cases hs).resolve_left (by simp [absent]), ?_⟩
    cases step <;> rfl

/-! ### Who holds the marks -/

theorem Holds.of_start (holds : d.Holds k milestone) (hs : d.starts[k]? = some s) :
    s.milestone = milestone ∧ s.phase.HoldsMark := by
  obtain ⟨s', hs', mark⟩ := holds
  obtain rfl := Option.some.inj (hs.symm.trans hs')
  exact mark

theorem Holds.kept (holds : d.Holds k milestone) (h : d.step e = some d')
    (foreign : e.caller? ≠ some k) : d'.Holds k milestone := by
  obtain ⟨s, hs, hmile, hmark⟩ := holds
  exact ⟨s, start_kept h foreign hs, hmile, hmark⟩

theorem Marked.mem_starting (h : d.Marked) (holds : d.Holds k milestone) :
    milestone ∈ d.starting := by
  obtain ⟨s, hs, rfl, hmark⟩ := holds
  exact h.marked hs hmark

theorem Marked.holder_unique (h : d.Marked) {k' : Nat} (holds : d.Holds k milestone)
    (holds' : d.Holds k' milestone) : k = k' := by
  obtain ⟨s, hs, hmile, hmark⟩ := holds
  obtain ⟨s', hs', hmile', hmark'⟩ := holds'
  exact h.alone hs hs' hmark hmark' (hmile.trans hmile'.symm)

/-- A mark is won while nobody holds it. -/
theorem Holds.won (holds : d'.Holds k milestone) (h : d.step e = some d')
    (before : ¬d.Holds k milestone) : milestone ∉ d.starting := by
  obtain ⟨s', hs', rfl, hmark⟩ := holds
  cases hk : d.starts[k]? with
  | none =>
      rw [(phase_of_new h hk hs').1] at hmark
      exact hmark.elim
  | some s =>
      obtain ⟨p, hp, same | ⟨b, step⟩⟩ := start_step h hk
      · obtain rfl := Option.some.inj (hp.symm.trans hs')
        exact absurd ⟨s, hk, rfl, same ▸ hmark⟩ before
      · obtain rfl := Option.some.inj (hp.symm.trans hs')
        rcases step.mark_cases with ⟨-, hiff⟩ | ⟨-, free, -, -⟩ | ⟨-, -, gone⟩
        · exact absurd ⟨s, hk, rfl, hiff.mp hmark⟩ before
        · exact free
        · exact absurd hmark gone

/-- A start lets go of its mark once its attempt is saved, or when it ends before. -/
theorem StartStep.lets_go (h : StartStep d k s e b p) (held : s.phase.HoldsMark)
    (gone : ¬p.HoldsMark) : p.isOver = true ∨
      ∃ a call r, p = .asking a call r ∧ b.store.attempts.get? a.id = some a := by
  cases h with
  | checkFails | occupied | saveFails | dropChecking | dropUnsaved | dropSaved => exact .inl rfl
  | @enroll m a now id h =>
      exact .inr ⟨a, _, _, rfl, (d.store.get?_saveAttempt a a.id).trans (if_pos rfl)⟩
  | mark | proceed => exact absurd trivial gone
  | lookupFails h | unknown h | beaten h | closeFails h | close h | accept h | refuse h
  | announced h | dropOpen h | dropClosed h =>
      rw [h] at held
      exact held.elim
  | dropIdle => exact .inl rfl

theorem Holds.let_go (holds : d.Holds k milestone) (h : d.step e = some d')
    (after : ¬d'.Holds k milestone) : ∃ s, d'.starts[k]? = some s ∧ (s.phase.isOver = true ∨
      ∃ a call r, s.phase = .asking a call r ∧ d'.store.attempts.get? a.id = some a) := by
  obtain ⟨s, hs, hmile, hmark⟩ := holds
  obtain ⟨b, p, hs', step, rfl⟩ : ∃ b p, (b.withStart k p).starts[k]? = some { s with phase := p } ∧
      StartStep d k s e b p ∧ d' = b.withStart k p := by
    by_cases own : e.caller? = some k
    · obtain ⟨s₀, b, p, hs₀, step, rfl⟩ := moves_of_caller h own
      obtain rfl : s = s₀ := Option.some.inj (hs.symm.trans hs₀)
      exact ⟨b, p, getElem?_withStart_self (step.starts_eq ▸ hs), step, rfl⟩
    · exact absurd ⟨s, start_kept h own hs, hmile, hmark⟩ after
  exact ⟨_, hs', step.lets_go hmark fun hmark' => after ⟨_, hs', hmile, hmark'⟩⟩

/-- No mark is left behind: each of them is held by a start. -/
def Tended (d : ReleaseDesk) : Prop := ∀ milestone ∈ d.starting, ∃ k, d.Holds k milestone

theorem tended_empty (process : String) (callbackBase : Option String) :
    (ReleaseDesk.empty process callbackBase).Tended := by
  intro milestone marked
  simp [ReleaseDesk.empty] at marked

theorem Tended.startStep (hd : d.Tended) (hs : d.starts[k]? = some s)
    (step : StartStep d k s e b p) (h : d.step e = some (b.withStart k p)) :
    (b.withStart k p).Tended := by
  have self : (b.withStart k p).starts[k]? = some { s with phase := p } :=
    getElem?_withStart_self (step.starts_eq ▸ hs)
  -- The other holders go on holding their marks; what start `k` does is said by `mark_cases`.
  have others {milestone : ResourceId} {j : Nat} (hj : j ≠ k) (holds : d.Holds j milestone) :
      (b.withStart k p).Holds j milestone :=
    holds.kept h fun he => hj (Option.some.inj (he.symm.trans step.caller?))
  intro milestone marked
  rw [starting_withStart] at marked
  rcases step.mark_cases with ⟨heq, hiff⟩ | ⟨heq, hfree, hidle, hmark⟩ | ⟨heq, hheld, hgone⟩
  · rw [heq] at marked
    obtain ⟨j, holds⟩ := hd milestone marked
    by_cases hj : j = k
    · subst hj
      obtain ⟨hmile, hmark⟩ := holds.of_start hs
      exact ⟨j, _, self, hmile, hiff.mpr hmark⟩
    · exact ⟨j, others hj holds⟩
  · rw [heq, List.mem_cons] at marked
    rcases marked with rfl | marked
    · exact ⟨k, _, self, rfl, hmark⟩
    · obtain ⟨j, holds⟩ := hd milestone marked
      refine ⟨j, others ?_ holds⟩
      rintro rfl
      exact hidle (holds.of_start hs).2
  · rw [heq, List.mem_filter] at marked
    obtain ⟨marked, hne⟩ := marked
    obtain ⟨j, holds⟩ := hd milestone marked
    refine ⟨j, others ?_ holds⟩
    rintro rfl
    simp [(holds.of_start hs).1] at hne

theorem Tended.step (hd : d.Tended) (h : d.step e = some d') : d'.Tended := by
  rcases step_cases h with ⟨k, s, b, p, hk, step, rfl⟩ | ⟨k, r, b, q, -, step, rfl⟩ | step
  · exact hd.startStep hk step h
  · intro milestone marked
    rw [starting_withRecording, step.frame.2.1] at marked
    obtain ⟨j, s, hs, holds⟩ := hd milestone marked
    exact ⟨j, s, by rw [starts_withRecording, step.frame.1, hs], holds⟩
  · intro milestone marked
    rw [step.starting_eq] at marked
    obtain ⟨j, s, hs, holds⟩ := hd milestone marked
    exact ⟨j, s, step.starts_kept hs, holds⟩

/-! ### Who is turned away -/

/-- The start with number `k` stands at a check at which it will be turned away: its milestone is there
and another start holds the mark, or it has won the mark and the latest attempt is in progress. -/
inductive TurnsAway (d : ReleaseDesk) (k : Nat) : Prop
  | marked {s : Start} {m : Milestone} {j : Nat} (hs : d.starts[k]? = some s)
      (h : s.phase = .findingMilestone) (hm : d.store.milestones.get? s.milestone = some m)
      (other : j ≠ k) (holds : d.Holds j s.milestone)
  | occupied {s : Start} {m : Milestone} {a : ReleaseAttempt} (hs : d.starts[k]? = some s)
      (h : s.phase = .checkingLatest m) (latest : d.store.latestAttempt s.milestone = some a)
      (busy : a.status = .inProgress)

/-- The step of the start is nothing to anybody else: no row is saved and nothing is registered, nor
does the start turn to the engine or to the clients. -/
structure Traceless (d d' : ReleaseDesk) (k : Nat) : Prop where
  store : d'.store = d.store
  correlator : d'.correlator = d.correlator
  unasked : ∀ s a call r, d'.starts[k]? = some s → s.phase ≠ .asking a call r
  untold : ∀ s a, d'.starts[k]? = some s → s.phase ≠ .announcing a

/-- The fault of a milestone that is not there. -/
def missing (milestone : ResourceId) : Fault := .notFound ("milestone " ++ milestone.text)

theorem missing_ne_conflict (milestone : ResourceId) : missing milestone ≠ conflict milestone := nofun

theorem TurnsAway.cases (h : d.TurnsAway k) (hs : d.starts[k]? = some s) :
    (s.phase = .findingMilestone ∧ (∃ m, d.store.milestones.get? s.milestone = some m) ∧
      ∃ j, d.Holds j s.milestone) ∨
    (∃ m, s.phase = .checkingLatest m) ∧ d.isInProgress s.milestone = true := by
  cases h with
  | @marked s' m j hs' h hm other holds =>
      obtain rfl : s = s' := Option.some.inj (hs.symm.trans hs')
      exact .inl ⟨h, ⟨m, hm⟩, j, holds⟩
  | @occupied s' m a hs' h latest busy =>
      obtain rfl : s = s' := Option.some.inj (hs.symm.trans hs')
      exact .inr ⟨⟨m, h⟩, by simp [isInProgress, latest, busy]⟩

/-- A start is turned away by the step in which it makes the check. -/
theorem StartStep.conflict_iff (h : StartStep d k s e b p) (hs : d.starts[k]? = some s)
    (fine : e.fault? = none) (marks : d.Marked) (tended : d.Tended) :
    p = .ended (.error (conflict s.milestone)) ↔
      (∃ now id, e = .answerStart k none now id) ∧ d.TurnsAway k := by
  have not_away (hfind : s.phase ≠ .findingMilestone) (hcheck : ∀ m, s.phase ≠ .checkingLatest m) :
      ¬ d.TurnsAway k := by
    intro away
    rcases away.cases hs with ⟨h, -⟩ | ⟨⟨m, h⟩, -⟩
    · exact hfind h
    · exact hcheck m h
  cases h with
  | lookupFails | checkFails | saveFails | closeFails => cases fine
  | unknown h hm =>
      refine iff_of_false (fun heq => ?_) (mt And.right fun away => ?_)
      · exact missing_ne_conflict _ (by injection heq with heq; injection heq)
      · rcases away.cases hs with ⟨-, ⟨m, hm'⟩, -⟩ | ⟨⟨m, h'⟩, -⟩
        · rw [hm] at hm'
          cases hm'
        · rw [h] at h'
          cases h'
  | beaten h hm marked =>
      refine iff_of_true rfl ⟨⟨_, _, rfl⟩, ?_⟩
      obtain ⟨j, holds⟩ := tended _ marked
      refine .marked hs h hm ?_ holds
      rintro rfl
      have hmark := (holds.of_start hs).2
      rw [h] at hmark
      exact hmark
  | mark h hm free =>
      refine iff_of_false (by simp) (mt And.right fun away => ?_)
      rcases away.cases hs with ⟨-, -, j, holds⟩ | ⟨⟨m, h'⟩, -⟩
      · exact free (marks.mem_starting holds)
      · rw [h] at h'
        cases h'
  | occupied h busy =>
      refine iff_of_true rfl ⟨⟨_, _, rfl⟩, ?_⟩
      simp only [isInProgress, Option.any_eq_true, decide_eq_true_eq] at busy
      obtain ⟨a, latest, inProgress⟩ := busy
      exact .occupied hs h latest inProgress
  | proceed h idle =>
      refine iff_of_false (by simp) (mt And.right fun away => ?_)
      rcases away.cases hs with ⟨h', -⟩ | ⟨-, busy⟩
      · rw [h] at h'
        cases h'
      · rw [idle] at busy
        cases busy
  | enroll h | close h =>
      exact iff_of_false (by simp) (mt And.right (not_away (by simp [h]) (by simp [h])))
  | accept | refuse | announced | dropIdle | dropChecking | dropUnsaved | dropSaved | dropOpen
  | dropClosed =>
      refine iff_of_false (by simp) (mt And.left ?_)
      rintro ⟨_, _, heq⟩
      cases heq

/-- As long as nothing comes of a start, it does nothing that others notice. -/
theorem StartStep.barren (h : StartStep d k s e b p) (hs : d.starts[k]? = some s)
    (fine : e.fault? = none) (barren : p.IsBarren) :
    s.phase.IsBarren ∧ d.Traceless (b.withStart k p) k ∧
      ∀ f, p = .ended (.error f) → f = conflict s.milestone ∨ f = missing s.milestone := by
  have self : (b.withStart k p).starts[k]? = some { s with phase := p } :=
    getElem?_withStart_self (h.starts_eq ▸ hs)
  have traceless (store : b.store = d.store) (correlator : b.correlator = d.correlator) :
      d.Traceless (b.withStart k p) k := by
    refine ⟨store, correlator, fun s' a call r hs' hp => ?_, fun s' a hs' hp => ?_⟩
    · obtain rfl := Option.some.inj (self.symm.trans hs')
      obtain rfl : p = _ := hp
      exact barren
    · obtain rfl := Option.some.inj (self.symm.trans hs')
      obtain rfl : p = _ := hp
      exact barren
  cases h with
  | lookupFails | checkFails | saveFails | closeFails => cases fine
  | unknown h =>
      refine ⟨by rw [h]; trivial, traceless rfl rfl, fun f hf => .inr ?_⟩
      injection hf with hf
      injection hf with hf
      exact hf.symm
  | beaten h | occupied h =>
      refine ⟨by rw [h]; trivial, traceless rfl rfl, fun f hf => .inl ?_⟩
      injection hf with hf
      injection hf with hf
      exact hf.symm
  | mark h | proceed h => exact ⟨by rw [h]; trivial, traceless rfl rfl, nofun⟩
  | enroll | close | accept | refuse | announced | dropIdle | dropChecking | dropUnsaved | dropSaved
  | dropOpen | dropClosed => cases barren

end Step

/-- What start `k` has been through after the events `es` from `d₀`, if no repository has failed it. -/
structure Screened (d₀ : ReleaseDesk) (es : List Event) (d : ReleaseDesk) (k : Nat) : Prop where
  unborn : d.starts[k]? = none →
    ∀ t e, Happens ReleaseDesk.step d₀ es t e → e.caller? ≠ some k
  refused : ∀ s, d.starts[k]? = some s → (s.phase = .ended (.error (conflict s.milestone)) ↔
    ∃ t now id, Happens ReleaseDesk.step d₀ es t (.answerStart k none now id) ∧ t.TurnsAway k)
  faults : ∀ s f, d.starts[k]? = some s → s.phase = .ended (.error f) →
    f = conflict s.milestone ∨ f = missing s.milestone
  traceless : ∀ s, d.starts[k]? = some s → s.phase.IsBarren → ∀ t e u,
    Happens ReleaseDesk.step d₀ es t e → e.caller? = some k → t.step e = some u → t.Traceless u k

theorem Screened.own {d₀ d b : ReleaseDesk} {es : List Event} {k : Nat} {e : Event} {s : Start}
    {p : StartPhase} (h : Screened d₀ es d k) (run : Run ReleaseDesk.step d₀ es d)
    (hs : d.starts[k]? = some s) (step : StartStep d k s e b p)
    (last : d.step e = some (b.withStart k p)) (fine : e.fault? = none) (marks : d.Marked)
    (tended : d.Tended) : Screened d₀ (es ++ [e]) (b.withStart k p) k := by
  have self : (b.withStart k p).starts[k]? = some { s with phase := p } :=
    getElem?_withStart_self (step.starts_eq ▸ hs)
  -- A start that takes a step was not over, so it had not been turned away.
  have before : ¬∃ t now id, Happens ReleaseDesk.step d₀ es t (.answerStart k none now id) ∧
      t.TurnsAway k := by
    rw [← h.refused s hs]
    exact step.unended _
  refine ⟨fun absent => ?_, fun s' hs' => ?_, fun s' f hs' hf => ?_, fun s' hs' barren => ?_⟩
  · rw [self] at absent
    cases absent
  · obtain rfl := Option.some.inj (self.symm.trans hs')
    refine (step.conflict_iff hs fine marks tended).trans ?_
    constructor
    · rintro ⟨⟨now, id, rfl⟩, away⟩
      exact ⟨d, now, id, (happens_concat run).mpr (.inr ⟨rfl, rfl⟩), away⟩
    · rintro ⟨t, now, id, happens, away⟩
      rcases (happens_concat run).mp happens with earlier | ⟨rfl, rfl⟩
      · exact absurd ⟨t, now, id, earlier, away⟩ before
      · exact ⟨⟨now, id, rfl⟩, away⟩
  · obtain rfl := Option.some.inj (self.symm.trans hs')
    have hf : p = .ended (.error f) := hf
    exact (step.barren hs fine (hf ▸ trivial)).2.2 f hf
  · obtain rfl := Option.some.inj (self.symm.trans hs')
    obtain ⟨barren', traceless, -⟩ := step.barren hs fine barren
    intro t e' u happens own taken
    rcases (happens_concat run).mp happens with earlier | ⟨rfl, rfl⟩
    · exact h.traceless s hs barren' t e' u earlier own taken
    · obtain rfl := Option.some.inj (last.symm.trans taken)
      exact traceless

theorem Screened.foreign {d₀ d d' : ReleaseDesk} {es : List Event} {k : Nat} {e : Event}
    (h : Screened d₀ es d k) (run : Run ReleaseDesk.step d₀ es d) (last : d.step e = some d')
    (foreign : e.caller? ≠ some k) : Screened d₀ (es ++ [e]) d' k := by
  have earlier {t : ReleaseDesk} {e' : Event} (happens : Happens ReleaseDesk.step d₀ (es ++ [e]) t e')
      (own : e'.caller? = some k) : Happens ReleaseDesk.step d₀ es t e' := by
    rcases (happens_concat run).mp happens with earlier | ⟨-, rfl⟩
    · exact earlier
    · exact absurd own foreign
  have refused_iff : (∃ t now id, Happens ReleaseDesk.step d₀ (es ++ [e]) t
        (.answerStart k none now id) ∧ t.TurnsAway k) ↔
      ∃ t now id, Happens ReleaseDesk.step d₀ es t (.answerStart k none now id) ∧ t.TurnsAway k := by
    constructor
    · rintro ⟨t, now, id, happens, away⟩
      exact ⟨t, now, id, earlier happens rfl, away⟩
    · rintro ⟨t, now, id, happens, away⟩
      exact ⟨t, now, id, (happens_concat run).mpr (.inl happens), away⟩
  cases hk : d.starts[k]? with
  | some s =>
      have kept := start_kept last foreign hk
      refine ⟨fun absent => ?_, fun s' hs' => ?_, fun s' f hs' => ?_, fun s' hs' barren => ?_⟩
      · rw [kept] at absent
        cases absent
      · obtain rfl := Option.some.inj (kept.symm.trans hs')
        exact (h.refused s hk).trans refused_iff.symm
      · obtain rfl := Option.some.inj (kept.symm.trans hs')
        exact h.faults s f hk
      · obtain rfl := Option.some.inj (kept.symm.trans hs')
        exact fun t e' u happens own => h.traceless s hk barren t e' u (earlier happens own) own
  | none =>
      have none_before {t : ReleaseDesk} {e' : Event}
          (happens : Happens ReleaseDesk.step d₀ (es ++ [e]) t e') : e'.caller? ≠ some k :=
        fun own => h.unborn hk t e' (earlier happens own) own
      refine ⟨fun _ t e' happens => none_before happens, fun s hs => ?_, fun s f hs hf => ?_,
        fun _ _ _ t e' u happens own => absurd own (none_before happens)⟩
      · obtain ⟨fresh, -⟩ := phase_of_new last hk hs
        refine iff_of_false (fun ended => ?_) ?_
        · rw [fresh] at ended
          cases ended
        · rintro ⟨t, now, id, happens, -⟩
          exact none_before happens rfl
      · rw [(phase_of_new last hk hs).1] at hf
        cases hf

/-- What holds of the marks and of the starts after the events `es` from `d₀`. -/
structure Admits (d₀ : ReleaseDesk) (es : List Event) (d : ReleaseDesk) : Prop where
  /-- A milestone is marked while one start holds its mark. -/
  marks : ∀ milestone, milestone ∈ d.starting ↔ ∃! k, d.Holds k milestone
  /-- A start wins a mark only while it is free. -/
  won : ∀ e d' k milestone, d.step e = some d' → ¬d.Holds k milestone → d'.Holds k milestone →
    milestone ∉ d.starting
  /-- It holds the mark until its attempt is saved, or until it is over. -/
  letGo : ∀ e d' k milestone, d.step e = some d' → d.Holds k milestone → ¬d'.Holds k milestone →
    ∃ s, d'.starts[k]? = some s ∧ (s.phase.isOver = true ∨
      ∃ a call r, s.phase = .asking a call r ∧ d'.store.attempts.get? a.id = some a)
  /-- No step of others takes the mark from it. -/
  kept : ∀ e d' k milestone, d.step e = some d' → d.Holds k milestone → e.caller? ≠ some k →
    d'.Holds k milestone ∧ milestone ∈ d'.starting
  /-- A start that no repository has failed ends with a conflict if it was turned away at a check. -/
  refused : ∀ k s, d.starts[k]? = some s → (∀ e ∈ es, e.caller? = some k → e.fault? = none) →
    (s.phase = .ended (.error (conflict s.milestone)) ↔
      ∃ t now id, Happens ReleaseDesk.step d₀ es t (.answerStart k none now id) ∧ t.TurnsAway k)
  /-- If it ends with a fault, that is its own, and it has left no trace. -/
  traceless : ∀ k s f, d.starts[k]? = some s → (∀ e ∈ es, e.caller? = some k → e.fault? = none) →
    s.phase = .ended (.error f) → (f = conflict s.milestone ∨ f = missing s.milestone) ∧
      ∀ t e u, Happens ReleaseDesk.step d₀ es t e → e.caller? = some k → t.step e = some u →
        t.Traceless u k

section Run

variable {process : String} {callbackBase : Option String} {es : List Event} {d : ReleaseDesk}

theorem marked_of_run (run : Run ReleaseDesk.step (.empty process callbackBase) es d) : d.Marked :=
  run.invariant (marked_empty process callbackBase) fun _ _ _ marks => marks.step

theorem tended_of_run (run : Run ReleaseDesk.step (.empty process callbackBase) es d) : d.Tended :=
  run.invariant (tended_empty process callbackBase) fun _ _ _ tended => tended.step

theorem screened_of_run {k : Nat} (run : Run ReleaseDesk.step (.empty process callbackBase) es d)
    (fine : ∀ e ∈ es, e.caller? = some k → e.fault? = none) :
    Screened (.empty process callbackBase) es d k := by
  induction run with
  | nil =>
      have nothing : (ReleaseDesk.empty process callbackBase).starts[k]? = none := by
        simp [ReleaseDesk.empty]
      refine ⟨fun _ t e happens => absurd happens not_happens_nil, ?_, ?_, ?_⟩ <;>
        simp [nothing]
  | @snoc es t u e before last ih =>
      have ih := ih fun e' he' => fine e' (List.mem_append_left _ he')
      by_cases own : e.caller? = some k
      · have works : e.fault? = none := fine e (by simp) own
        obtain ⟨s, b, p, hs, step, rfl⟩ := moves_of_caller last own
        exact ih.own before hs step last works (marked_of_run before) (tended_of_run before)
      · exact ih.foreign before last own

theorem admits_of_run (run : Run ReleaseDesk.step (.empty process callbackBase) es d) :
    Admits (.empty process callbackBase) es d where
  marks milestone := by
    have marks := marked_of_run run
    constructor
    · intro marked
      obtain ⟨k, holds⟩ := tended_of_run run milestone marked
      exact ⟨k, holds, fun j holds' => marks.holder_unique holds' holds⟩
    · rintro ⟨k, holds, -⟩
      exact marks.mem_starting holds
  won e d' k milestone h before holds := holds.won h before
  letGo e d' k milestone h holds after := holds.let_go h after
  kept e d' k milestone h holds foreign := by
    have holds' := holds.kept h foreign
    exact ⟨holds', ((marked_of_run run).step h).mem_starting holds'⟩
  refused k s hs fine := (screened_of_run run fine).refused s hs
  traceless k s f hs fine hf := by
    have screened := screened_of_run run fine
    exact ⟨screened.faults s f hs hf, screened.traceless s hs (hf ▸ trivial)⟩

/-- The second of two starts that overlap is turned away by the mark of the first. -/
theorem admits_overlap :
    ∃ d : ReleaseDesk, Run ReleaseDesk.step (.empty "release" none) (overlap noon) d ∧
      ∃ t now id, Happens ReleaseDesk.step (.empty "release" none) (overlap noon) t
        (.answerStart 1 none now id) ∧ t.TurnsAway 1 := by
  have run := Run.iff_foldlM.mpr (Option.some_get overlap_runs).symm
  have fine : ∀ e ∈ overlap noon, e.caller? = some 1 → e.fault? = none := by decide
  exact ⟨_, run, ((admits_of_run run).refused 1 _ rfl fine).mp rfl⟩

end Run

end ReleaseDesk

end Foreman
