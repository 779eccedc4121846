import Foreman.Proofs.Release.Deliveries

/-!
The desk while reports on several attempts are dealt with. A report that comes gives a recording its
errand, and as long as the errands have nothing in common, each recording finds the rows of its own
as it has left them, however they take turns.
-/

namespace Foreman

open Release

namespace Release

/-- The report that the recording has just begun with. -/
def RecordingPhase.report? : RecordingPhase → Option Report
  | .findingMilestone report => some report
  | _ => none

/-- The recording that begins with the errand. -/
def Errand.recording (c : Errand) : Recording :=
  ⟨.ofResource c.attempt.id, c.milestone.id, c.attempt.id, .findingMilestone c.report⟩

end Release

namespace ReleaseDesk

/-- The process that the event is delivered to. -/
def Event.correlation? : Event → Option CorrelationId
  | dispatch id _ _ => some id
  | _ => none

/-- The recording that begins when the event is delivered, if one does. -/
def begun? (d : ReleaseDesk) : Event → Option Recording
  | .dispatch id name payload =>
    (d.dispatchNamed id name payload).2.recordings[d.recordings.length]?
  | _ => none

/-- The errand of the recording that begins when the event is delivered, if one does. -/
def errand? (d : ReleaseDesk) (e : Event) : Option Errand := do
  let r ← d.begun? e
  let report ← r.phase.report?
  let m ← d.store.milestones.get? r.milestone
  let a ← d.store.attempts.get? r.attempt
  return ⟨d.store, m, a, report⟩

/-- When an event begins a recording, and which. -/
inductive Begins (d : ReleaseDesk) : Event → Recording → Prop
  | result {id name payload t g m a result} (he : EventType.read name = .ok t)
      (hg : d.correlator.registration? id t = some g) (hl : g.listener = .result m a)
      (hr : (Wire.decode payload : Except Json.Fault ReleaseResult) = .ok result) :
      Begins d (.dispatch id name payload) ⟨id, m, a, .findingMilestone (.result result)⟩
  | failure {id name payload t g m a} (he : EventType.read name = .ok t)
      (hg : d.correlator.registration? id t = some g) (hl : g.listener = .failure m a) :
      Begins d (.dispatch id name payload) ⟨id, m, a, .findingMilestone (.failure payload)⟩

/-- A listener waits for the event that calls its writer. -/
def Tuned (d : ReleaseDesk) : Prop :=
  ∀ {id t g x w}, d.correlator.registration? id t = some g → g.listener.writer? x = some w →
    w.event? = some t

section Dispatch

variable {d d' t u : ReleaseDesk} {e : Event} {r : Recording}

theorem begun?_eq_some : d.begun? e = some r ↔ d.Begins e r := by
  constructor
  · intro h
    cases e with
    | dispatch id name payload =>
        rw [begun?] at h
        generalize hd' : (d.dispatchNamed id name payload).2 = d' at h
        have other : OtherStep d (.dispatch id name payload) d' :=
          hd' ▸ dispatch_other d id name payload
        cases other with
        | result he hg hl hr =>
            obtain rfl : _ = r := by simpa [beginRecording, consume] using h
            exact .result he hg hl hr
        | failure he hg hl =>
            obtain rfl : _ = r := by simpa [beginRecording, consume] using h
            exact .failure he hg hl
        | unmatched => simp at h
        | unrecorded => simp [consume] at h
    | beginStart | answerStart | answerAsking | startAnnounced | dropStart | answerRecording
    | recordingAnnounced | abandon | register | withdraw | edit => simp [begun?] at h
  · intro h
    cases h with
    | result he hg hl hr => simp [begun?, dispatchNamed, dispatch, he, hg, hl, hr, beginRecording]
    | failure he hg hl => simp [begun?, dispatchNamed, dispatch, he, hg, hl, beginRecording]

theorem Begins.congr (h : d.Begins e r)
    (same : ∀ id ∈ e.correlation?, ∀ y,
      t.correlator.registration? id y = d.correlator.registration? id y) : t.Begins e r := by
  cases h with
  | result he hg hl hr => exact .result he ((same _ rfl _).trans hg) hl hr
  | failure he hg hl => exact .failure he ((same _ rfl _).trans hg) hl

theorem begun?_congr (same : ∀ id ∈ e.correlation?, ∀ y,
    t.correlator.registration? id y = d.correlator.registration? id y) :
    t.begun? e = d.begun? e := by
  apply Option.ext
  intro r
  rw [begun?_eq_some, begun?_eq_some]
  exact ⟨fun h => h.congr fun id hid y => (same id hid y).symm, fun h => h.congr same⟩

theorem begun?_of_step (dispatch : e.isDispatch = true) (h : d.step e = some d') :
    d.begun? e = d'.recordings[d.recordings.length]? := by
  cases e with
  | dispatch id name payload => rw [← Option.some.inj h, begun?]
  | beginStart | answerStart | answerAsking | startAnnounced | dropStart | answerRecording
  | recordingAnnounced | abandon | register | withdraw | edit =>
      simp [Event.isDispatch] at dispatch

/-- A delivery changes no row, and only the listeners of its own process. -/
theorem step_dispatch (dispatch : e.isDispatch = true) (h : d.step e = some d') :
    d'.store = d.store ∧ d'.recordings = d.recordings ++ (d.begun? e).toList ∧
      ∀ id, e.correlation? ≠ some id → ∀ y,
        d'.correlator.registration? id y = d.correlator.registration? id y := by
  have begun := begun?_of_step dispatch h
  cases Event.other dispatch h with
  | unmatched => exact ⟨rfl, by simp [begun], fun _ _ _ => rfl⟩
  | unrecorded =>
      refine ⟨rfl, by simp [begun, consume], fun id hid y => ?_⟩
      refine (Correlator.registration?_consume ..).trans (if_neg ?_)
      exact fun h => hid (congrArg some h.1)
  | result | failure =>
      refine ⟨rfl, by simp [begun, consume, beginRecording], fun id hid y => ?_⟩
      refine (Correlator.registration?_consume ..).trans (if_neg ?_)
      exact fun h => hid (congrArg some h.1)
  | beginStart | abandon | register | withdraw | edit => simp [Event.isDispatch] at dispatch

/-- A recording takes away listeners of its own process at most. -/
theorem RecordingStep.registration_eq {b : ReleaseDesk} {k : Nat} {p : RecordingPhase}
    (h : RecordingStep d k r e b p) {id : CorrelationId} (hid : id ≠ r.correlation)
    (y : EventType) : b.correlator.registration? id y = d.correlator.registration? id y := by
  have forgotten : (d.forget r.correlation).correlator.registration? id y =
      d.correlator.registration? id y :=
    (Correlator.registration?_abandon ..).trans (if_neg hid.symm)
  cases h with
  | lost | passVersion => exact forgotten
  | @miss text s after fault now h | @closeFails a after f now h | @announced a after now h =>
      rcases fst_turn d r now after with h | h <;> rw [h]
      exact forgotten
  | saveVersion => split <;> exact forgotten
  | saveRecord | saveMilestone => split <;> rfl
  | describe | fail | passage | find | close | findRecord | missRecord | findVersion => rfl

end Dispatch

section Tuned

variable {d d' : ReleaseDesk} {e : Event} {process : String} {callbackBase : Option String}

theorem tuned_empty (process : String) (callbackBase : Option String) :
    (ReleaseDesk.empty process callbackBase).Tuned := by
  intro id t g x w hg
  simp [ReleaseDesk.empty, Correlator.empty, Correlator.registration?] at hg

theorem Tuned.step (hd : d.Tuned) (h : d.step e = some d') : d'.Tuned := by
  intro id t g x w hg hw
  rcases step_cases h with ⟨k, s, b, p, hk, step, rfl⟩ | ⟨k, r, b, p, _, step, rfl⟩ | step
  · rcases step.registration_cases hg with hg | ⟨m, a, -, -, -, hl⟩
    · exact hd hg hw
    · simp only [listeners, List.mem_cons, Prod.mk.injEq, List.not_mem_nil, or_false] at hl
      rcases hl with ⟨rfl, hl⟩ | ⟨rfl, hl⟩ <;>
        · obtain ⟨-, rfl⟩ := by simpa [hl, Listener.writer?] using hw
          rfl
  · exact hd (step.registration_of hg) hw
  · rcases step.begin_cases with ⟨-, listening⟩ | ⟨_, _, _, _, _, _, _, _, _, _, _, listening⟩
    · rcases listening hg with hg | ⟨n, hguest⟩
      · exact hd hg hw
      · simp [hguest, Listener.writer?] at hw
    · exact hd (listening hg).1 hw

theorem tuned_of_run {es : List Event}
    (run : Run ReleaseDesk.step (.empty process callbackBase) es d) : d.Tuned :=
  run.invariant (I := Tuned) (tuned_empty process callbackBase)
    fun _ _ _ ih step => Tuned.step ih step

end Tuned

/-- What the errands of reports rely on: rows are stored under their own ids, and listeners belong
to stored attempts. -/
structure Reliable (d : ReleaseDesk) : Prop where
  filed : ∃ ids, d.Filed ids
  placed : d.Placed
  tuned : d.Tuned
  versions : d.store.VersionsKeyed
  records : d.store.RecordsKeyed

/-- The errand `c` is the one of the event: its rows are stored. -/
structure Assigns (d : ReleaseDesk) (e : Event) (c : Errand) : Prop where
  start : c.start = d.store
  begins : d.Begins e c.recording
  milestone : d.store.milestones.get? c.milestone.id = some c.milestone
  attempt : d.store.attempts.get? c.attempt.id = some c.attempt
  own : c.attempt.milestone = c.milestone.id

section Errands

variable {d : ReleaseDesk} {e : Event} {r : Recording} {c : Errand}

theorem Begins.correlation (h : d.Begins e r) : e.correlation? = some r.correlation := by
  cases h <;> rfl

/-- Whatever begins a recording gives it an errand. -/
theorem Begins.errand (h : d.Begins e r) (hd : d.Reliable) :
    ∃ c, d.errand? e = some c ∧ d.Assigns e c ∧ c.recording = r := by
  obtain ⟨ids, filed⟩ := hd.filed
  have errand {id : CorrelationId} {m a : ResourceId} {report : Report}
      (h : d.Begins e ⟨id, m, a, .findingMilestone report⟩) (hid : id = .ofResource a)
      (hm : d.store.HasMilestone m) (ha : d.store.HasAttemptOf m a) :
      ∃ c, d.errand? e = some c ∧ d.Assigns e c ∧
        c.recording = ⟨id, m, a, .findingMilestone report⟩ := by
    obtain ⟨m, hm⟩ := hm
    obtain ⟨a, ha, own⟩ := ha
    obtain rfl := filed.milestones _ _ hm
    obtain rfl := (filed.attempts ha).1
    subst hid
    refine ⟨⟨d.store, m, a, report⟩, ?_, ⟨rfl, h, hm, ha, own⟩, rfl⟩
    simp [errand?, begun?_eq_some.mpr h, RecordingPhase.report?, hm, ha]
  cases h with
  | result he hg hl hr =>
      have listening := filed.listening hg
      have placed := hd.placed.listening hg
      rw [hl] at listening placed
      exact errand (.result he hg hl hr) listening.1 listening.2.1 placed
  | failure he hg hl =>
      have listening := filed.listening hg
      have placed := hd.placed.listening hg
      rw [hl] at listening placed
      exact errand (.failure he hg hl) listening.1 listening.2.1 placed

theorem Assigns.congr {e' : Event} {c' : Errand} (h : d.Assigns e c)
    (begins : d.Begins e' c'.recording) (start : c'.start = c.start)
    (milestone : c'.milestone = c.milestone) (attempt : c'.attempt = c.attempt) :
    d.Assigns e' c' where
  start := start.trans h.start
  begins := begins
  milestone := by rw [milestone, h.milestone]
  attempt := by rw [attempt, h.attempt]
  own := by rw [milestone, attempt, h.own]

theorem Assigns.unique {c' : Errand} (h : d.Assigns e c) (h' : d.Assigns e c')
    (same : c.recording = c'.recording) : c = c' := by
  obtain ⟨-, hm, ha, hphase⟩ := Recording.mk.inj same
  obtain ⟨s, m, a, report⟩ := c
  obtain ⟨s', m', a', report'⟩ := c'
  obtain rfl : s = s' := h.start.trans h'.start.symm
  obtain rfl : m = m' := Option.some.inj (h.milestone.symm.trans (hm ▸ h'.milestone))
  obtain rfl : a = a' := Option.some.inj (h.attempt.symm.trans (ha ▸ h'.attempt))
  obtain rfl := RecordingPhase.findingMilestone.inj hphase
  rfl

theorem errand?_eq_some (hd : d.Reliable) : d.errand? e = some c ↔ d.Assigns e c := by
  constructor
  · intro h
    obtain ⟨r, hr, -⟩ := Option.bind_eq_some_iff.mp h
    obtain ⟨c', hc', assigns, -⟩ := (begun?_eq_some.mp hr).errand hd
    obtain rfl := Option.some.inj (h.symm.trans hc')
    exact assigns
  · intro h
    obtain ⟨c', hc', assigns, same⟩ := h.begins.errand hd
    rw [hc', h.unique assigns same.symm]

/-- The errands are those of the recordings that begin. -/
theorem begun?_eq_map (hd : d.Reliable) (e : Event) :
    d.begun? e = (d.errand? e).map Errand.recording := by
  cases h : d.begun? e with
  | none => simp [errand?, h]
  | some r =>
      obtain ⟨c, hc, -, hr⟩ := (begun?_eq_some.mp h).errand hd
      rw [hc, Option.map_some, hr]

theorem Assigns.correlation (h : d.Assigns e c) :
    e.correlation? = some (.ofResource c.attempt.id) :=
  h.begins.correlation

/-- At first the rows are as they are. -/
theorem Assigns.rows (h : d.Assigns e c) : c.Rows d.store c.first where
  attempt := h.attempt
  milestone := h.milestone
  records id _ := by
    rw [h.start]
    exact Option.map_id'.symm
  current v hv := by
    have hversion := hv.1
    rw [h.start] at hversion
    rw [hversion, Errand.first, ← hv.2]
  version v hv current := ⟨h.start ▸ hv, current⟩
  artifacts := by rw [h.start]

end Errands

/-! ### Recordings that take turns -/

/-- The desk while reports are dealt with that came after `d`: the errands so far are `cs`, in the
order of their recordings, and `ids` are the processes that have delivered something. -/
structure Serving (d : ReleaseDesk) (cs : List Errand) (ids : List CorrelationId)
    (t : ReleaseDesk) : Prop where
  length : t.recordings.length = d.recordings.length + cs.length
  recordings : ∀ {j : Nat} {c : Errand}, cs[j]? = some c →
    ∃ p g, t.recordings[d.recordings.length + j]? = some { c.recording with phase := p } ∧
      c.Course p g ∧ c.Rows t.store g
  within : Errand.Within cs d.store t.store
  assigned : ∀ c ∈ cs, c.start = d.store ∧ .ofResource c.attempt.id ∈ ids
  registration : ∀ id ∉ ids, ∀ y,
    t.correlator.registration? id y = d.correlator.registration? id y

section Serving

variable {d t u : ReleaseDesk} {cs : List Errand} {ids : List CorrelationId} {e : Event} {k : Nat}

theorem apart_of_ne (h : cs.Pairwise Errand.Apart) {i j : Nat} {c c' : Errand}
    (hc : cs[i]? = some c) (hc' : cs[j]? = some c') (hne : i ≠ j) : c.Apart c' := by
  obtain ⟨hi, rfl⟩ := List.getElem?_eq_some_iff.mp hc
  obtain ⟨hj, rfl⟩ := List.getElem?_eq_some_iff.mp hc'
  rcases Nat.lt_or_gt_of_ne hne with hlt | hlt
  · exact List.pairwise_iff_getElem.mp h i j hi hj hlt
  · exact (List.pairwise_iff_getElem.mp h j i hj hi hlt).symm

theorem serving_first (d : ReleaseDesk) : Serving d [] [] d where
  length := rfl
  recordings h := by simp at h
  within := .refl [] d.store
  assigned c hc := by simp at hc
  registration _ _ _ := rfl

/-- A report is delivered for an attempt of another milestone. -/
theorem Serving.dispatch (h : Serving d cs ids t) (hd : d.Reliable)
    (dispatch : e.isDispatch = true) (hstep : t.step e = some u)
    (fresh : ∀ id ∈ e.correlation?, id ∉ ids)
    (apart : ∀ c ∈ d.errand? e, ∀ c' ∈ cs, c.Apart c') :
    Serving d (cs ++ (d.errand? e).toList) (ids ++ e.correlation?.toList) u := by
  obtain ⟨store, recordings, registration⟩ := step_dispatch dispatch hstep
  rw [begun?_congr fun id hid => h.registration id (fresh id hid), begun?_eq_map hd] at recordings
  have assigns {c : Errand} (hc : d.errand? e = some c) := (errand?_eq_some hd).mp hc
  refine ⟨?_, fun {j c} hc => ?_, ?_, fun c hc => ?_, fun id hid y => ?_⟩
  · rw [recordings, List.length_append, h.length, List.length_append, Nat.add_assoc]
    cases d.errand? e <;> rfl
  · rw [store, recordings]
    cases hx : d.errand? e with
    | none =>
        rw [hx, Option.toList_none, List.append_nil] at hc
        rw [Option.map_none, Option.toList_none, List.append_nil]
        exact h.recordings hc
    | some x =>
        rw [hx, Option.toList_some] at hc
        rw [Option.map_some, Option.toList_some]
        rcases getElem?_concat_cases hc with hc | ⟨rfl, rfl⟩
        · obtain ⟨p, g, hr, course, rows⟩ := h.recordings hc
          refine ⟨p, g, ?_, course, rows⟩
          exact (List.getElem?_append_left (List.getElem?_eq_some_iff.mp hr).1).trans hr
        · refine ⟨_, _, ?_, .findingMilestone rfl, (assigns hx).rows.frame h.within (apart c hx)⟩
          rw [← h.length, List.getElem?_concat_length]
          rfl
  · rw [store]
    exact h.within.mono (List.subset_append_left ..)
  · rcases List.mem_append.mp hc with hc | hc
    · obtain ⟨start, known⟩ := h.assigned c hc
      exact ⟨start, List.mem_append_left _ known⟩
    · have hc := assigns (Option.mem_toList.mp hc)
      refine ⟨hc.start, List.mem_append_right _ ?_⟩
      rw [hc.correlation]
      exact List.mem_cons_self
  · rw [registration id (fun hnew => ?_) y,
      h.registration id (fun hold => hid (List.mem_append_left _ hold)) y]
    exact hid (List.mem_append_right _ (Option.mem_toList.mpr hnew))

/-- A recording that takes a step keeps to its errand, and the others find their rows as they
were. -/
theorem Serving.serves (h : Serving d cs ids t) (hd : d.Reliable)
    (apart : cs.Pairwise Errand.Apart) (hk : d.recordings.length ≤ k) (serves : e.Serves k)
    (hstep : t.step e = some u) :
    Serving d cs ids u ∧ ∃ c ∈ cs, (∃ p, t.recordings[k]? = some { c.recording with phase := p }) ∧
      Errand.Within [c] t.store u.store := by
  obtain ⟨r, b, p, hr, move, rfl⟩ := serves.moves hstep
  obtain ⟨j, rfl⟩ := Nat.exists_eq_add_of_le hk
  obtain ⟨c, hc⟩ : ∃ c, cs[j]? = some c := by
    have hlt := (List.getElem?_eq_some_iff.mp hr).1
    rw [h.length] at hlt
    exact ⟨_, List.getElem?_eq_getElem (by omega)⟩
  have mem := List.mem_of_getElem? hc
  obtain ⟨q, g, hr', course, rows⟩ := h.recordings hc
  obtain rfl := Option.some.inj (hr.symm.trans hr')
  obtain ⟨start, known⟩ := h.assigned c mem
  obtain ⟨g', course, rows, within⟩ := move.errand serves.2 course rows rfl rfl
    (start ▸ hd.versions) (start ▸ hd.records)
  refine ⟨⟨?_, fun {j' c'} hc' => ?_, ?_, h.assigned, fun id hid y => ?_⟩, c, mem, ⟨q, hr⟩, within⟩
  · rw [withRecording, List.length_modify, move.frame.2.2, h.length]
  · by_cases hj : j' = j
    · subst hj
      obtain rfl := Option.some.inj (hc.symm.trans hc')
      rw [← move.frame.2.2] at hr
      have here := getElem?_withRecording_self (p := p) hr
      exact ⟨p, g', here, course, rows⟩
    · obtain ⟨p', g'', hr'', course', rows'⟩ := h.recordings hc'
      refine ⟨p', g'', ?_, course', rows'.frame within fun x hx => ?_⟩
      · rw [getElem?_withRecording_of_ne _ _ (by omega), move.frame.2.2]
        exact hr''
      · obtain rfl := List.mem_singleton.mp hx
        exact apart_of_ne apart hc' hc hj
  · exact h.within.trans (within.mono (List.cons_subset.mpr ⟨mem, List.nil_subset _⟩))
  · rw [← h.registration id hid y]
    refine move.registration_eq ?_ y
    rintro rfl
    exact hid known

theorem Event.Serves.errand?_eq_none (serves : e.Serves k) (d : ReleaseDesk) :
    e.correlation? = none ∧ d.errand? e = none := by
  cases e <;> simp [Event.Serves, Event.recording?] at serves <;> exact ⟨rfl, rfl⟩

theorem filterMap_singleton {α β : Type} (f : α → Option β) (a : α) :
    [a].filterMap f = (f a).toList := by
  cases h : f a <;> simp [h]

theorem serving_of_run {es : List Event} (hd : d.Reliable) (run : Run ReleaseDesk.step d es t)
    (serving : ∀ e ∈ es, e.isDispatch = true ∨ ∃ k ≥ d.recordings.length, e.Serves k)
    (fresh : (es.filterMap Event.correlation?).Nodup)
    (apart : (es.filterMap d.errand?).Pairwise Errand.Apart) :
    Serving d (es.filterMap d.errand?) (es.filterMap Event.correlation?) t := by
  induction run with
  | nil => exact serving_first d
  | @snoc es t u e before last ih =>
      rw [List.filterMap_append, filterMap_singleton] at fresh apart
      rw [List.filterMap_append, List.filterMap_append, filterMap_singleton, filterMap_singleton]
      obtain ⟨fresh, -, new⟩ := List.nodup_append.mp fresh
      obtain ⟨apart, -, other⟩ := List.pairwise_append.mp apart
      have here := ih (fun e he => serving e (List.mem_append_left _ he)) fresh apart
      rcases serving e (List.mem_append_right _ List.mem_cons_self) with dispatch | ⟨k, hk, serves⟩
      · refine here.dispatch hd dispatch last (fun id hid hmem => ?_) fun c hc c' hc' => ?_
        · exact new id hmem id (Option.mem_toList.mpr hid) rfl
        · exact (other c' hc' c (Option.mem_toList.mpr hc)).symm
      · obtain ⟨quiet, none⟩ := serves.errand?_eq_none d
        rw [quiet, none, Option.toList_none, Option.toList_none, List.append_nil, List.append_nil]
        exact (here.serves hd apart hk serves last).1

end Serving

end ReleaseDesk

end Foreman
