import Foreman.Proofs.Release.Breakdowns

/-!
Failures of repositories stay local. A report that is delivered while some methods fail is dealt with
all the same, and its process is forgotten. The rows of a repository that works become what they would
have become without the failures, those of the others stay as they were.
-/

namespace Foreman

open Release

namespace Release

/-- The attempts `t'` and `t₀` that the attempts `t` have become: in both the same one was closed, with
`text` and with `text₀` at the end of its log, or none was. -/
def ClosedAlike (attempt : ResourceId) (text₀ text : String)
    (t t₀ t' : Table ResourceId ReleaseAttempt) : Prop :=
  t₀ = t ∧ t' = t ∨ ∃ a a₀ a', t.get? attempt = some a ∧ t₀ = t.insert a.id a₀ ∧
    t' = t.insert a.id a' ∧ a₀.log = a.log ++ text₀ ∧ a'.log = a.log ++ text ∧
    ReleaseAttempt.Alike { a' with log := a₀.log } a₀

/-- The milestones `t'` and `t₀` that the milestones `t` have become: in both the same one has ended, or
none has. -/
def EndedAlike (t t₀ t' : Table ResourceId Milestone) : Prop :=
  t₀ = t ∧ t' = t ∨ ∃ m m₀ m' : Milestone, t₀ = t.insert m.id m₀ ∧ t' = t.insert m.id m' ∧ m'.Alike m₀

/-- What the account says while the methods of `broken` fail: dashes for the records and for the artifacts
that cannot be looked up, and otherwise what the rows say. -/
structure Dashes (broken : Method → Bool) (s : Store) : Prop where
  records : ∀ b, buildLine ((s.seen broken).records.get? b.record) b =
    if broken .findRecord then s!"- [buildRecordId: {b.record.text}, built from - rev -" ++ importLine b
    else buildLine (s.records.get? b.record) b
  artifacts : ∀ e, artifactLine ((s.seen broken).artifacts.get? e.artifact) e =
    if broken .findArtifact then
      s!"Failed to import - [artifactId:{e.artifact.text}]. Error message: {e.message}\n"
    else artifactLine (s.artifacts.get? e.artifact) e

theorem dashes_seen (broken : Method → Bool) (s : Store) : Dashes broken s where
  records b := by
    cases h : broken .findRecord with
    | true =>
        have unknown : (s.seen broken).records.get? b.record = none := by simp [Store.seen, h]
        rw [unknown, buildLine_none, if_pos rfl]
    | false =>
        have known : (s.seen broken).records = s.records := by simp [Store.seen, h]
        rw [known, if_neg Bool.false_ne_true]
  artifacts e := by
    cases h : broken .findArtifact with
    | true =>
        have unknown : (s.seen broken).artifacts.get? e.artifact = none := by simp [Store.seen, h]
        rw [unknown, artifactLine_none, if_pos rfl]
    | false =>
        have known : (s.seen broken).artifacts = s.artifacts := by simp [Store.seen, h]
        rw [known, if_neg Bool.false_ne_true]

/-- The rows `s` have become `s'` where the methods of `broken` have failed, and would have become `s₀`
otherwise. The milestone was found. -/
structure Contained (broken : Method → Bool) (attempt : ResourceId) (report : Report)
    (s s₀ s' : Store) : Prop where
  attempts : if broken .findAttempt || broken .saveAttempt then s'.attempts = s.attempts
    else ClosedAlike attempt (report.account s) (report.account (s.seen broken)) s.attempts
      s₀.attempts s'.attempts
  milestones : if broken .saveMilestone then s'.milestones = s.milestones
    else EndedAlike s.milestones s₀.milestones s'.milestones
  records : if broken .findRecord || broken .saveRecord then s'.records = s.records
    else s'.records = s₀.records
  versions : if broken .findVersion || broken .saveVersion then s'.versions = s.versions
    else s'.versions = s₀.versions
  artifacts : s'.artifacts = s.artifacts
  /-- The account suffers from nothing but lookups of records and artifacts. -/
  account : broken .findRecord = false → broken .findArtifact = false →
    report.account (s.seen broken) = report.account s
  dashes : Dashes broken s

theorem buildBlock_congr {s s' : Store} (records : s.records = s'.records)
    (artifacts : s.artifacts = s'.artifacts) : buildBlock s = buildBlock s' := by
  funext b
  unfold buildBlock faults
  rw [records, artifacts]

theorem account_seen {broken : Method → Bool} (report : Report) (s : Store)
    (records : broken .findRecord = false) (artifacts : broken .findArtifact = false) :
    report.account (s.seen broken) = report.account s := by
  cases report with
  | result r =>
      have same : buildBlock (s.seen broken) = buildBlock s :=
        buildBlock_congr (by simp [Store.seen, records]) (by simp [Store.seen, artifacts])
      rw [Report.account, Report.account, description, description, same]
  | failure payload => rfl

/-- Nothing has changed, and nothing would have. -/
theorem Contained.unchanged (broken : Method → Bool) (attempt : ResourceId) (report : Report)
    (s : Store) : Contained broken attempt report s s s where
  attempts := by
    split
    · rfl
    · exact .inl ⟨rfl, rfl⟩
  milestones := by
    split
    · rfl
    · exact .inl ⟨rfl, rfl⟩
  records := by split <;> rfl
  versions := by split <;> rfl
  artifacts := rfl
  account := account_seen report s
  dashes := dashes_seen broken s

namespace Breakdown

variable {c : Breakdown} {s : Store} {saved told : List ReleaseAttempt}

/-- The same report without failures. -/
def sound (c : Breakdown) : Breakdown := { c with broken := fun _ => false }

/-- What has become of the rows when the recording is over. -/
theorem Stage.outcome_cases (stage : c.Stage .ended s saved told) :
    told = saved ∧ (c.seen.milestones.get? c.milestone = none ∧ s = c.start ∧ saved = [] ∨
      ∃ m now later, c.seen.milestones.get? c.milestone = some m ∧ s = c.outcome m now later) := by
  cases stage with
  | missed hm => exact ⟨rfl, .inl ⟨hm, rfl, rfl⟩⟩
  | @ended m now later hm => exact ⟨rfl, .inr ⟨m, now, later, hm, rfl⟩⟩

theorem saved_eq (find : c.broken .findAttempt = false) (save : c.broken .saveAttempt = false)
    (now : Instant) :
    c.saved now = ((c.start.attempts.get? c.attempt).map (c.closed · now)).toList := by
  simp [Breakdown.saved, seen, Store.seen, find, save]

theorem attempts_contained (now now₀ : Instant) :
    if c.broken .findAttempt || c.broken .saveAttempt then c.attempts now = c.start.attempts
    else ClosedAlike c.attempt (c.report.account c.start) (c.report.account c.seen) c.start.attempts
      (c.sound.attempts now₀) (c.attempts now) := by
  cases find : c.broken .findAttempt with
  | true => simp [attempts, Breakdown.saved, seen, Store.seen, find]
  | false =>
      cases save : c.broken .saveAttempt with
      | true => simp [attempts, Breakdown.saved, save]
      | false =>
          -- Both runs find the same attempt, and what they add to it differs by the texts alone.
          have hsaved := saved_eq find save now
          have hsaved₀ : c.sound.saved now₀ =
              ((c.start.attempts.get? c.attempt).map (c.sound.closed · now₀)).toList :=
            saved_eq rfl rfl now₀
          show ClosedAlike ..
          rw [attempts, attempts, hsaved, hsaved₀]
          cases ha : c.start.attempts.get? c.attempt with
          | none => exact Or.inl ⟨rfl, rfl⟩
          | some a =>
              refine Or.inr ⟨a, c.sound.closed a now₀, c.closed a now, ha, rfl, rfl, rfl, rfl, ?_⟩
              refine ⟨rfl, ?_⟩
              by_cases still : c.report.verdict = .inProgress <;>
                simp [closed, ReleaseDesk.closedAttempt, sound, still]

theorem milestones_contained (m : Milestone) (later later₀ : Instant) :
    if c.broken .saveMilestone then c.milestones m later = c.start.milestones
    else EndedAlike c.start.milestones (c.sound.milestones m later₀) (c.milestones m later) := by
  cases save : c.broken .saveMilestone with
  | true =>
      cases hr : c.report <;> simp [milestones, hr, save]
  | false =>
      show EndedAlike ..
      cases hr : c.report with
      | result r =>
          right
          refine ⟨m, { m with endDate := some later₀ }, { m with endDate := some later }, ?_, ?_,
            rfl, rfl⟩
          · simp [milestones, sound, hr]
          · simp [milestones, hr, save]
      | failure payload =>
          left
          simp [milestones, sound, hr]

theorem records_contained (bs : List BuildImport) :
    if c.broken .findRecord || c.broken .saveRecord then c.records bs = c.start.records
    else c.records bs = c.sound.records bs := by
  split
  next broken => simp only [records, broken, if_true]
  next works => simp [records, works, sound]

theorem versions_contained (m : Milestone) :
    if c.broken .findVersion || c.broken .saveVersion then c.versions m = c.start.versions
    else c.versions m = c.sound.versions m := by
  cases find : c.broken .findVersion with
  | true =>
      have none : c.current? m = none := by simp [current?, seen, Store.seen, find]
      cases hr : c.report <;> simp [versions, hr, none]
  | false =>
      cases save : c.broken .saveVersion with
      | true => cases hr : c.report <;> cases hv : c.current? m <;> simp [versions, hr, hv, save]
      | false =>
          have seen : c.seen.versions = c.start.versions := by simp [seen, Store.seen, find]
          have current : c.sound.current? m = c.current? m := by
            rw [current?, current?, seen]
            rfl
          show c.versions m = c.sound.versions m
          rw [versions, versions, current, save]
          rfl

/-- Wherever a recording ends while methods fail, and wherever it ends while none does, the failures are
contained. The milestone is there for both or for neither. -/
theorem Stage.contained {s₀ : Store} {saved₀ told₀ : List ReleaseAttempt}
    (stage : c.Stage .ended s saved told) (stage₀ : c.sound.Stage .ended s₀ saved₀ told₀)
    (works : c.broken .findMilestone = false) :
    Contained c.broken c.attempt c.report c.start s₀ s := by
  -- The lookup of the milestone works in both runs, so both find it or both miss it.
  have same : c.sound.seen.milestones.get? c.sound.milestone =
      c.seen.milestones.get? c.milestone := by simp [seen, sound, Store.seen, works]
  obtain ⟨-, ⟨absent, rfl, -⟩ | ⟨m, now, later, hm, rfl⟩⟩ := stage.outcome_cases
  · obtain ⟨-, ⟨-, rfl, -⟩ | ⟨m₀, now₀, later₀, hm₀, -⟩⟩ := stage₀.outcome_cases
    · exact .unchanged ..
    · rw [same, absent] at hm₀
      cases hm₀
  · obtain ⟨-, ⟨absent₀, -, -⟩ | ⟨m₀, now₀, later₀, hm₀, rfl⟩⟩ := stage₀.outcome_cases
    · rw [same, hm] at absent₀
      cases absent₀
    · rw [same, hm] at hm₀
      obtain rfl := Option.some.inj hm₀
      exact ⟨attempts_contained now now₀, milestones_contained m later later₀,
        records_contained c.report.builds, versions_contained m, rfl,
        account_seen c.report c.start,
        dashes_seen c.broken c.start⟩

/-- If the milestone is not found because the lookup fails, nothing is done. -/
theorem Stage.untouched (stage : c.Stage .ended s saved told)
    (broken : c.broken .findMilestone = true) : s = c.start ∧ saved = [] := by
  obtain ⟨-, ⟨-, rfl, rfl⟩ | ⟨m, now, later, hm, -⟩⟩ := stage.outcome_cases
  · exact ⟨rfl, rfl⟩
  · simp [seen, Store.seen, broken] at hm

end Breakdown

end Release

namespace ReleaseDesk

/-- Whether the event takes the recording with number `k` one step further as it goes on while exactly
the methods of `broken` fail. -/
def isAmid (broken : Method → Bool) (k : Nat) (d : ReleaseDesk) (e : Event) : Bool :=
  e.recording? = some k &&
    (d.recordings[k]?.bind (·.phase.method?)).all fun x => e.fault?.isSome = broken x

def stepAmid (broken : Method → Bool) (k : Nat) (d : ReleaseDesk) (e : Event) : Option ReleaseDesk :=
  if d.isAmid broken k e then d.step e else none

/-- The report that comes with the event `e` is delivered, and its recording has got to `d'` by the
events `es` since, while exactly the methods of `broken` fail. Nothing else happens. -/
def Delivering (d : ReleaseDesk) (broken : Method → Bool) (e : Event) (es : List Event)
    (d' : ReleaseDesk) : Prop :=
  ∃ t, d.step e = some t ∧ Run (stepAmid broken d.recordings.length) t es d'

/-- The recording with number `k` is over. -/
def IsOver (d : ReleaseDesk) (k : Nat) : Prop :=
  ∃ r, d.recordings[k]? = some r ∧ r.phase = .ended

section Step

variable {d d' : ReleaseDesk} {k : Nat} {e : Event} {r : Recording} {broken : Method → Bool}

theorem moves_of_recording (h : d.step e = some d') (own : e.recording? = some k) :
    RecordingMoves d k e d' := by
  cases e with
  | answerRecording j fault now =>
      obtain rfl := Option.some.inj own
      exact answerRecording_moves h
  | recordingAnnounced j now =>
      obtain rfl := Option.some.inj own
      exact recordingAnnounced_moves h
  | beginStart | answerStart | answerAsking | startAnnounced | dropStart | dispatch | abandon
  | register | withdraw | edit => cases own

theorem stepAmid_eq_some (h : stepAmid broken k d e = some d') : d.step e = some d' ∧
    ∃ r b p, d.recordings[k]? = some r ∧ RecordingStep d k r e b p ∧ d' = b.withRecording k p ∧
      ∀ x ∈ r.phase.method?, e.fault?.isSome = broken x := by
  unfold stepAmid at h
  split at h
  next amid =>
    simp only [isAmid, Bool.and_eq_true, decide_eq_true_eq] at amid
    obtain ⟨own, answers⟩ := amid
    obtain ⟨r, b, p, hr, step, rfl⟩ := moves_of_recording h own
    refine ⟨h, r, b, p, hr, step, rfl, fun x hx => ?_⟩
    rw [hr, Option.bind_some, hx] at answers
    simpa using answers
  next => cases h

theorem run_of_amid {es : List Event} (run : Run (stepAmid broken k) d es d') :
    Run ReleaseDesk.step d es d' := by
  induction run with
  | nil => exact .nil
  | snoc before last ih => exact ih.snoc (stepAmid_eq_some last).1

/-- Whatever a repository answers, the recording takes the answer. -/
theorem isSome_answerRecording (hr : d.recordings[k]? = some r) (live : r.phase.IsLive)
    (asks : r.phase ≠ .ended ∧ r.phase.announced? = none) (fault : Option StorageFault)
    (now : Instant) : (d.answerRecording k fault now).isSome = true := by
  cases hp : r.phase with
  | findingMilestone report =>
      cases fault <;> cases report <;> cases hm : d.store.milestones.get? r.milestone <;>
        simp [answerRecording, hr, hp, hm]
  | describing m result text ahead =>
      rw [hp] at live
      obtain ⟨p, ahead, rfl⟩ := List.exists_cons_of_ne_nil live
      simp [answerRecording, hr, hp]
  | findingAttempt text s after =>
      cases fault <;> cases ha : d.store.attempts.get? r.attempt <;>
        simp [answerRecording, hr, hp, ha]
  | savingAttempt a after => cases fault <;> simp [answerRecording, hr, hp]
  | findingRecord m b ahead =>
      cases fault <;> cases hrow : d.store.records.get? b.record <;>
        simp [answerRecording, hr, hp, hrow]
  | savingRecord m row ahead => simp [answerRecording, hr, hp]
  | savingMilestone m => simp [answerRecording, hr, hp]
  | findingVersion id =>
      cases fault with
      | some f => simp [answerRecording, hr, hp]
      | none =>
          cases hv : d.store.versions.get? id with
          | none => simp [answerRecording, hr, hp, hv]
          | some v =>
              by_cases current : v.currentMilestone = some r.milestone <;>
                simp [answerRecording, hr, hp, hv, current]
  | savingVersion v => simp [answerRecording, hr, hp]
  | announcing a after => simp [hp, RecordingPhase.announced?] at asks
  | ended => simp [hp] at asks

/-- A recording that is not over can go on while the methods fail. -/
theorem exists_amid (broken : Method → Bool) (now : Instant) (hr : d.recordings[k]? = some r)
    (live : r.phase.IsLive) (hp : r.phase ≠ .ended) :
    ∃ e d', stepAmid broken k d e = some d' := by
  cases told : r.phase.announced? with
  | some a =>
      have possible : (d.recordingAnnounced k now).isSome = true := by
        cases hphase : r.phase <;> simp [hphase, RecordingPhase.announced?] at told
        simp [recordingAnnounced, hr, hphase]
      have asks : r.phase.method? = none := by
        cases hphase : r.phase <;> simp [hphase, RecordingPhase.announced?] at told
        rfl
      obtain ⟨d', hd'⟩ := Option.isSome_iff_exists.mp possible
      refine ⟨.recordingAnnounced k now, d', ?_⟩
      rw [stepAmid, if_pos (by simp [isAmid, Event.recording?, hr, asks])]
      exact hd'
  | none =>
      -- The method that is asked fails if it is one of those.
      let fault : Option StorageFault :=
        if r.phase.method?.any broken then some (.backend "") else none
      have amid : d.isAmid broken k (.answerRecording k fault now) = true := by
        cases asks : r.phase.method? with
        | none => simp [isAmid, Event.recording?, hr, asks]
        | some x =>
            cases fails : broken x <;>
              simp [isAmid, Event.recording?, Event.fault?, hr, asks, fault, fails]
      obtain ⟨d', hd'⟩ := Option.isSome_iff_exists.mp
        (isSome_answerRecording hr live ⟨hp, told⟩ fault now)
      refine ⟨.answerRecording k fault now, d', ?_⟩
      rw [stepAmid, if_pos amid]
      exact hd'

end Step

/-! ### The recording of a report -/

/-- How things stand when the report of `c` on the process `id`, which came at `d`, is being dealt with:
its recording has got to `p`, and nothing else has changed. -/
structure Handles (c : Breakdown) (id : CorrelationId) (d t : ReleaseDesk) (p : RecordingPhase)
    (saved told : List ReleaseAttempt) : Prop where
  recording : t.recordings[d.recordings.length]? = some ⟨id, c.milestone, c.attempt, p⟩
  stage : c.Stage p t.store saved told
  live : p.IsLive
  dropped : p = .ended → t.correlator.isPending id = false
  recordings : ∀ j < d.recordings.length, t.recordings[j]? = d.recordings[j]?
  starts : t.starts = d.starts
  starting : t.starting = d.starting
  listeners : ∀ id' ≠ id, ∀ y,
    t.correlator.registration? id' y = d.correlator.registration? id' y

section Handles

variable {c : Breakdown} {d t t' u : ReleaseDesk} {id : CorrelationId} {name : String}
  {payload : Json} {milestone attempt : ResourceId} {report : Report} {p : RecordingPhase}
  {saved told : List ReleaseAttempt} {e : Event} {es : List Event} {broken : Method → Bool}

theorem Begins.handles
    (begins : d.Begins (.dispatch id name payload) ⟨id, milestone, attempt, .findingMilestone report⟩)
    (arrival : d.step (.dispatch id name payload) = some t) :
    Handles ⟨broken, d.store, milestone, attempt, report⟩ id d t (.findingMilestone report) [] [] := by
  obtain ⟨store, recordings, listeners⟩ := step_dispatch rfl arrival
  rw [begun?_eq_some.mpr begins] at recordings
  have other : OtherStep d (.dispatch id name payload) t := Event.other rfl arrival
  refine ⟨?_, store ▸ .findingMilestone rfl, trivial, nofun, fun j hj => ?_, ?_, other.starting_eq,
    fun id' hid y => listeners id' (fun h => hid (Option.some.inj h).symm) y⟩
  · rw [recordings]
    exact List.getElem?_concat_length ..
  · rw [recordings, List.getElem?_append_left hj]
  · cases other <;> rfl

theorem Handles.step (h : Handles c id d t p saved told)
    (hs : stepAmid c.broken d.recordings.length t e = some u) :
    ∃ q, Handles c id d u q (saved ++ (t.written? e).toList) (told ++ t.announcements e) ∧
      q.calls < p.calls := by
  obtain ⟨-, r, b, q, hr, move, rfl, amid⟩ := stepAmid_eq_some hs
  obtain rfl := Option.some.inj (h.recording.symm.trans hr)
  obtain ⟨live, fewer⟩ := move.calls_lt
  obtain ⟨starts, starting, recordings⟩ := move.frame
  refine ⟨q, ⟨?_, ?_, live, move.forgets, fun j hj => ?_, starts.trans h.starts,
    starting.trans h.starting, fun id' hid y => ?_⟩, fewer⟩
  · exact getElem?_withRecording_self (recordings.symm ▸ hr)
  · exact move.stage hr h.stage amid rfl rfl
  · rw [getElem?_withRecording_of_ne _ _ hj.ne, recordings]
    exact h.recordings j hj
  · exact (move.registration_eq hid y).trans (h.listeners id' hid y)

theorem Handles.run (h : Handles c id d t p [] [])
    (run : Run (stepAmid c.broken d.recordings.length) t es u) :
    ∃ q, Handles c id d u q (notes ReleaseDesk.step (fun t e => (t.written? e).toList) t es)
        (notes ReleaseDesk.step announcements t es) ∧ es.length + q.calls ≤ p.calls := by
  induction run with
  | nil => exact ⟨p, h, by simp⟩
  | @snoc es u u' e before last ih =>
      obtain ⟨q, handles, bound⟩ := ih
      obtain ⟨q', handles', fewer⟩ := handles.step last
      have steps := run_of_amid before
      have step := (stepAmid_eq_some last).1
      rw [notes_snoc _ steps step, notes_snoc _ steps step]
      refine ⟨q', handles', ?_⟩
      rw [List.length_append, List.length_singleton]
      omega

/-- However far the recording has got, it can be taken to its end. -/
theorem Handles.exists_over (h : Handles c id d t p saved told) :
    ∃ es u, Run (stepAmid c.broken d.recordings.length) t es u ∧ u.IsOver d.recordings.length := by
  -- By the number of calls that are left.
  induction hn : p.calls using Nat.strong_induction_on generalizing t p saved told with
  | _ n ih =>
      by_cases hp : p = .ended
      · exact ⟨[], t, .nil, _, h.recording, hp⟩
      · obtain ⟨e, t', step⟩ := exists_amid c.broken noon h.recording h.live hp
        obtain ⟨q, handles, fewer⟩ := h.step step
        obtain ⟨es, u, run, ended⟩ := ih _ (hn ▸ fewer) handles rfl
        exact ⟨[e] ++ es, u, (Run.nil.snoc step).trans run, ended⟩

end Handles

/-- What becomes of the report on the attempt that the event `e` delivers to the process `id`, while the
methods of `broken` fail. The events `es` have taken its recording from `d` to its end at `d'`. -/
structure StaysLocal (broken : Method → Bool) (id : CorrelationId) (attempt : ResourceId)
    (report : Report) (d : ReleaseDesk) (e : Event) (es : List Event) (d' : ReleaseDesk) : Prop where
  /-- Nobody waits for the process any more. -/
  dropped : d'.correlator.isPending id = false
  /-- The clients are told of the attempt if it was saved. -/
  announced : notes ReleaseDesk.step announcements d (e :: es) =
    notes ReleaseDesk.step (fun t e => (t.written? e).toList) d (e :: es)
  lost : broken .findMilestone = true → d'.store = d.store ∧
    notes ReleaseDesk.step announcements d (e :: es) = []
  contained : broken .findMilestone = false → ∀ es₀ d₀, d.Delivering (fun _ => false) e es₀ d₀ →
    d₀.IsOver d.recordings.length → Contained broken attempt report d.store d₀.store d'.store
  recordings : ∀ j < d.recordings.length, d'.recordings[j]? = d.recordings[j]?
  starts : d'.starts = d.starts
  starting : d'.starting = d.starting
  listeners : ∀ id' ≠ id, ∀ y,
    d'.correlator.registration? id' y = d.correlator.registration? id' y

section Delivering

variable {d d' : ReleaseDesk} {id : CorrelationId} {name : String} {payload : Json}
  {milestone attempt : ResourceId} {report : Report} {es : List Event}

theorem Delivering.handles {broken : Method → Bool}
    (begins : d.Begins (.dispatch id name payload) ⟨id, milestone, attempt, .findingMilestone report⟩)
    (delivering : d.Delivering broken (.dispatch id name payload) es d')
    (ended : d'.IsOver d.recordings.length) :
    Handles ⟨broken, d.store, milestone, attempt, report⟩ id d d' .ended
      (notes ReleaseDesk.step (fun t e => (t.written? e).toList) d (.dispatch id name payload :: es))
      (notes ReleaseDesk.step announcements d (.dispatch id name payload :: es)) := by
  obtain ⟨t, arrival, run⟩ := delivering
  obtain ⟨q, handles, -⟩ := (begins.handles arrival).run run
  obtain ⟨r, hr, hp⟩ := ended
  obtain rfl := Option.some.inj (handles.recording.symm.trans hr)
  obtain rfl : q = .ended := hp
  have first (f : ReleaseDesk → Event → List ReleaseAttempt)
      (quiet : f d (.dispatch id name payload) = []) :
      notes ReleaseDesk.step f d (.dispatch id name payload :: es) =
        notes ReleaseDesk.step f t es := by
    rw [notes, arrival]
    simp [quiet]
  rwa [first _ rfl, first _ rfl]

/-- Whatever methods fail, a report that comes for an attempt is delivered, its recording comes to an
end after so many steps at most, and then the failures have stayed local. -/
theorem failures_stay_local (broken : Method → Bool)
    (begins : d.Begins (.dispatch id name payload)
      ⟨id, milestone, attempt, .findingMilestone report⟩) :
    (d.dispatchNamed id name payload).1 = .recording d.recordings.length ∧
      (∃ t, d.Delivering broken (.dispatch id name payload) [] t) ∧
      (∀ es t, d.Delivering broken (.dispatch id name payload) es t →
        es.length ≤ (RecordingPhase.findingMilestone report).calls ∧
        ∃ es' d', d.Delivering broken (.dispatch id name payload) (es ++ es') d' ∧
          d'.IsOver d.recordings.length) ∧
      ∀ es d', d.Delivering broken (.dispatch id name payload) es d' →
        d'.IsOver d.recordings.length →
        StaysLocal broken id attempt report d (.dispatch id name payload) es d' := by
  refine ⟨?_, ⟨_, _, rfl, .nil⟩, fun es t delivering => ?_, fun es d' delivering ended => ?_⟩
  · cases begins with
    | result he hg hl hr => simp [dispatchNamed, dispatch, he, hg, hl, hr]
    | failure he hg hl => simp [dispatchNamed, dispatch, he, hg, hl]
  · obtain ⟨t₀, arrival, run⟩ := delivering
    obtain ⟨q, handles, bound⟩ := (begins.handles arrival).run run
    obtain ⟨es', u, rest, ended⟩ := handles.exists_over
    exact ⟨by omega, es', u, ⟨t₀, arrival, run.trans rest⟩, ended⟩
  · have handles := delivering.handles begins ended
    obtain ⟨announced, -⟩ := handles.stage.outcome_cases
    refine ⟨handles.dropped rfl, announced, fun fails => ?_, fun works es₀ d₀ delivering₀ ended₀ => ?_,
      handles.recordings, handles.starts, handles.starting, handles.listeners⟩
    · obtain ⟨store, unsaved⟩ := handles.stage.untouched fails
      exact ⟨store, announced.trans unsaved⟩
    · exact handles.stage.contained (delivering₀.handles begins ended₀).stage works

end Delivering

/-- No build record is found and the milestone cannot be saved: the version becomes what it would have
become. -/
theorem failures_stay_local_twice :
    let report : Event := .dispatch (.ofResource ⟨20⟩) EventType.importSuccess.text twice
    let broken : Method → Bool := (· ∈ [.findRecord, .saveMilestone])
    ∃ es d' es₀ d₀, waiting.Delivering broken report es d' ∧
      waiting.Delivering (fun _ => false) report es₀ d₀ ∧
      d'.store.records = waiting.store.records ∧
      d'.store.milestones = waiting.store.milestones ∧
      d'.store.versions = d₀.store.versions ∧
      d'.correlator.isPending (.ofResource ⟨20⟩) = false := by
  intro report broken
  have begins : waiting.Begins report ⟨.ofResource ⟨20⟩, ⟨7⟩, ⟨20⟩, .findingMilestone (.result _)⟩ :=
    .result rfl rfl rfl rfl
  obtain ⟨-, ⟨t, arrival⟩, ends, stays⟩ := failures_stay_local broken begins
  obtain ⟨-, ⟨t₀, arrival₀⟩, ends₀, -⟩ := failures_stay_local (fun _ => false) begins
  obtain ⟨-, es, d', delivering, ended⟩ := ends _ t arrival
  obtain ⟨-, es₀, d₀, delivering₀, ended₀⟩ := ends₀ _ t₀ arrival₀
  have here := stays _ d' delivering ended
  have rows := here.contained rfl _ d₀ delivering₀ ended₀
  exact ⟨_, d', _, d₀, delivering, delivering₀, rows.records, rows.milestones, rows.versions,
    here.dropped⟩

end ReleaseDesk

end Foreman
