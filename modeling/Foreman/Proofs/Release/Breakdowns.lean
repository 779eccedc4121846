import Foreman.Proofs.Release.Success

/-!
Reports that are dealt with while repositories fail. A recording asks for one row at a time, and a
method that fails costs it this row alone: the recording goes on with what comes next, comes to its
end, and leaves the rows of the repositories that work as it would have left them otherwise.
-/

namespace Foreman

open Release

namespace Release

/-- What recordings ask of the repositories. -/
inductive Method where
  | findMilestone
  | saveMilestone
  | findAttempt
  | saveAttempt
  | findRecord
  | saveRecord
  | findVersion
  | saveVersion
  | findArtifact
deriving DecidableEq

def Passage.method? : Passage → Option Method
  | .build _ => some .findRecord
  | .artifact _ => some .findArtifact
  | .close => none

/-- The method whose answer a recording waits for. -/
def RecordingPhase.method? : RecordingPhase → Option Method
  | .findingMilestone _ => some .findMilestone
  | .describing _ _ _ (p :: _) => p.method?
  | .findingAttempt _ _ _ => some .findAttempt
  | .savingAttempt _ _ => some .saveAttempt
  | .findingRecord _ _ _ => some .findRecord
  | .savingRecord _ _ _ => some .saveRecord
  | .savingMilestone _ => some .saveMilestone
  | .findingVersion _ => some .findVersion
  | .savingVersion _ => some .saveVersion
  | .describing _ _ _ [] | .announcing _ _ | .ended => none

/-- What the report adds to the log of its attempt, with what is found in the store. -/
def Report.account (s : Store) : Report → String
  | .result r => description s r
  | .failure payload => failureNote payload

def Report.verdict : Report → AttemptStatus
  | .result r => r.status.attemptStatus
  | .failure _ => .systemError

/-- What is left to do after the attempt. -/
def Report.after (m : Milestone) : Report → Option (Milestone × ReleaseResult)
  | .result r => some (m, r)
  | .failure _ => none

end Release

/-- The rows that are found while the methods of `broken` fail. -/
def Store.seen (s : Store) (broken : Method → Bool) : Store where
  versions := if broken .findVersion then .empty else s.versions
  milestones := if broken .findMilestone then .empty else s.milestones
  records := if broken .findRecord then .empty else s.records
  artifacts := if broken .findArtifact then .empty else s.artifacts
  attempts := if broken .findAttempt then .empty else s.attempts

namespace Release

/-- A report on an attempt, the rows as they are when it comes, and the methods that fail while it is
dealt with. -/
structure Breakdown where
  broken : Method → Bool
  start : Store
  milestone : ResourceId
  attempt : ResourceId
  report : Report

namespace Breakdown

variable (c : Breakdown)

def seen : Store := c.start.seen c.broken

def closed (a : ReleaseAttempt) (now : Instant) : ReleaseAttempt :=
  ReleaseDesk.closedAttempt a (c.report.account c.seen) c.report.verdict now

/-- The attempts that are saved: the one that is found, if it can be saved. -/
def saved (now : Instant) : List ReleaseAttempt :=
  if c.broken .saveAttempt then []
  else ((c.seen.attempts.get? c.attempt).map (c.closed · now)).toList

def attempts (now : Instant) : Table ResourceId ReleaseAttempt :=
  (c.saved now).foldl (fun t a => t.insert a.id a) c.start.attempts

/-- The records once one more build is imported. -/
def importRecord (t : Table ResourceId BuildRecord) (b : BuildImport) :
    Table ResourceId BuildRecord :=
  match t.get? b.record with
  | some row =>
    t.insert (ReleaseDesk.importedRecord row b).id (ReleaseDesk.importedRecord row b)
  | none => t

def records (done : List BuildImport) : Table ResourceId BuildRecord :=
  if c.broken .findRecord || c.broken .saveRecord then c.start.records
  else done.foldl importRecord c.start.records

def milestones (m : Milestone) (now : Instant) : Table ResourceId Milestone :=
  match c.report with
  | .result _ =>
    if c.broken .saveMilestone then c.start.milestones
    else c.start.milestones.insert m.id { m with endDate := some now }
  | .failure _ => c.start.milestones

/-- The version whose current milestone is the one that is released. -/
def current? (m : Milestone) : Option ProductVersion :=
  (c.seen.versions.get? m.productVersion).filter (·.currentMilestone = some c.milestone)

def versions (m : Milestone) : Table ResourceId ProductVersion :=
  match c.report, c.current? m with
  | .result _, some v =>
    if c.broken .saveVersion then c.start.versions
    else c.start.versions.insert v.id { v with currentMilestone := none }
  | _, _ => c.start.versions

/-- The rows once the attempt is dealt with and some builds are imported. -/
def told (now : Instant) (done : List BuildImport) : Store :=
  { c.start with attempts := c.attempts now, records := c.records done }

/-- The rows once the milestone is dealt with as well. -/
def past (m : Milestone) (now later : Instant) : Store :=
  { c.told now c.report.builds with milestones := c.milestones m later }

/-- The rows in the end. -/
def outcome (m : Milestone) (now later : Instant) : Store :=
  { c.past m now later with versions := c.versions m }

/-- How far a recording has got: its phase, the rows, the attempts that were saved, and those that the
clients were told of. -/
inductive Stage : RecordingPhase → Store → List ReleaseAttempt → List ReleaseAttempt → Prop
  | findingMilestone {report} (hr : c.report = report) :
      Stage (.findingMilestone report) c.start [] []
  | missed (hm : c.seen.milestones.get? c.milestone = none) : Stage .ended c.start [] []
  | describing {m r text ahead} (hm : c.seen.milestones.get? c.milestone = some m)
      (hr : c.report = .result r)
      (rest : text ++ details c.seen ahead = c.report.account c.seen) :
      Stage (.describing m r text ahead) c.start [] []
  | findingAttempt {m} (hm : c.seen.milestones.get? c.milestone = some m) :
      Stage (.findingAttempt (c.report.account c.seen) c.report.verdict (c.report.after m))
        c.start [] []
  | savingAttempt {m a now} (hm : c.seen.milestones.get? c.milestone = some m)
      (ha : c.seen.attempts.get? c.attempt = some a) :
      Stage (.savingAttempt (c.closed a now) (c.report.after m)) c.start [] []
  | announcing {m a now} (hm : c.seen.milestones.get? c.milestone = some m)
      (hsaved : c.saved now = [c.closed a now]) :
      Stage (.announcing (c.closed a now) (c.report.after m)) (c.told now []) (c.saved now) []
  | findingRecord {m r b done ahead now} (hm : c.seen.milestones.get? c.milestone = some m)
      (hr : c.report = .result r) (split : r.builds = done ++ b :: ahead) :
      Stage (.findingRecord m b ahead) (c.told now done) (c.saved now) (c.saved now)
  | savingRecord {m r b done ahead row now} (hm : c.seen.milestones.get? c.milestone = some m)
      (hr : c.report = .result r) (split : r.builds = done ++ b :: ahead)
      (found : c.broken .findRecord = false) (hrow : (c.records done).get? b.record = some row) :
      Stage (.savingRecord m (ReleaseDesk.importedRecord row b) ahead) (c.told now done)
        (c.saved now) (c.saved now)
  | savingMilestone {m r now later} (hm : c.seen.milestones.get? c.milestone = some m)
      (hr : c.report = .result r) :
      Stage (.savingMilestone { m with endDate := some later }) (c.told now c.report.builds)
        (c.saved now) (c.saved now)
  | findingVersion {m r now later} (hm : c.seen.milestones.get? c.milestone = some m)
      (hr : c.report = .result r) :
      Stage (.findingVersion m.productVersion) (c.past m now later) (c.saved now) (c.saved now)
  | savingVersion {m r v now later} (hm : c.seen.milestones.get? c.milestone = some m)
      (hr : c.report = .result r) (hv : c.current? m = some v) :
      Stage (.savingVersion { v with currentMilestone := none }) (c.past m now later)
        (c.saved now) (c.saved now)
  | ended {m now later} (hm : c.seen.milestones.get? c.milestone = some m) :
      Stage .ended (c.outcome m now later) (c.saved now) (c.saved now)

variable {c}

theorem told_of_saved {now : Instant} (h : c.saved now = []) : c.told now [] = c.start := by
  simp [told, attempts, records, h]

theorem records_concat (done : List BuildImport) (b : BuildImport) :
    c.records (done ++ [b]) =
      if c.broken .findRecord || c.broken .saveRecord then c.records done
      else importRecord (c.records done) b := by
  unfold records
  split
  · rfl
  · rw [List.foldl_append, List.foldl_cons, List.foldl_nil]

theorem outcome_of_failure {payload : Json} (hp : c.report = .failure payload) (m : Milestone)
    (now later : Instant) : c.outcome m now later = c.told now [] := by
  simp [outcome, past, told, milestones, versions, hp, Report.builds]

/-! ### What comes next -/

theorem Stage.describe {m : Milestone} {r : ReleaseResult}
    (hm : c.seen.milestones.get? c.milestone = some m) (hr : c.report = .result r) (text : String)
    (ahead : List Passage) (rest : text ++ details c.seen ahead = c.report.account c.seen) :
    c.Stage (ReleaseDesk.describe m r text ahead) c.start [] [] := by
  fun_induction ReleaseDesk.describe m r text ahead with
  | case1 text ahead ih => exact ih (by rw [← rest, details, String.append_assoc]; rfl)
  | case2 text =>
      rw [details, String.append_empty] at rest
      have verdict : r.status.attemptStatus = c.report.verdict := by rw [hr]; rfl
      have after : some (m, r) = c.report.after m := by rw [hr]; rfl
      rw [rest, verdict, after]
      exact .findingAttempt hm
  | case3 => exact .describing hm hr rest

theorem Stage.nextRecord {m : Milestone} {r : ReleaseResult} {done ahead : List BuildImport}
    (hm : c.seen.milestones.get? c.milestone = some m) (hr : c.report = .result r)
    (split : r.builds = done ++ ahead) (now later : Instant) :
    c.Stage (ReleaseDesk.nextRecord m later ahead) (c.told now done) (c.saved now)
      (c.saved now) := by
  cases ahead with
  | nil =>
      have all : done = c.report.builds := by rw [hr, Report.builds, split, List.append_nil]
      rw [all]
      exact .savingMilestone hm hr
  | cons b ahead => exact .findingRecord hm hr split

/-- Once the attempt is dealt with, its builds come next, or the recording is over. -/
theorem Stage.turn {m : Milestone} (hm : c.seen.milestones.get? c.milestone = some m)
    (d : ReleaseDesk) (rec : Recording) {now : Instant} (later : Instant)
    (hs : d.store = c.told now []) :
    c.Stage (d.turn rec later (c.report.after m)).2 (d.turn rec later (c.report.after m)).1.store
      (c.saved now) (c.saved now) := by
  cases hr : c.report with
  | result r =>
      show c.Stage (ReleaseDesk.nextRecord m later r.builds) d.store _ _
      rw [hs]
      exact .nextRecord hm hr rfl now later
  | failure payload =>
      show c.Stage .ended d.store _ _
      rw [hs, ← outcome_of_failure hr m now later]
      exact .ended hm

/-! ### What each answer leads to -/

section Answers

variable {s : Store} {saved told : List ReleaseAttempt} {fault : Option StorageFault}
  {m : Milestone} {text : String}

theorem found_eq {α : Type} {off : Bool} (h : fault.isSome = off) (t : Table ResourceId α)
    (id : ResourceId) : ReleaseDesk.found fault (t.get? id) = (if off then .empty else t).get? id := by
  subst h
  cases fault <;> rfl

theorem Stage.lost {report : Report} (stage : c.Stage (.findingMilestone report) s saved told)
    (off : fault.isSome = c.broken .findMilestone)
    (hm : ReleaseDesk.found fault (s.milestones.get? c.milestone) = none) :
    c.Stage .ended s saved told := by
  rw [found_eq off] at hm
  cases stage with
  | findingMilestone => exact .missed hm

theorem Stage.found {report : Report} (stage : c.Stage (.findingMilestone report) s saved told)
    (off : fault.isSome = c.broken .findMilestone)
    (hm : ReleaseDesk.found fault (s.milestones.get? c.milestone) = some m) :
    s = c.start ∧ saved = [] ∧ told = [] ∧ c.report = report ∧
      c.seen.milestones.get? c.milestone = some m := by
  rw [found_eq off] at hm
  cases stage with
  | findingMilestone hr => exact ⟨rfl, rfl, rfl, hr, hm⟩

theorem Stage.passage {r : ReleaseResult} {p : Passage} {ahead : List Passage}
    (stage : c.Stage (.describing m r text (p :: ahead)) s saved told)
    (off : ∀ x ∈ p.method?, fault.isSome = c.broken x) :
    c.Stage (ReleaseDesk.describe m r
      (text ++ p.text (fun id => ReleaseDesk.found fault (s.records.get? id))
        (fun id => ReleaseDesk.found fault (s.artifacts.get? id))) ahead) s saved told := by
  cases stage with
  | describing hm hr rest =>
      have same : p.text (fun id => ReleaseDesk.found fault (c.start.records.get? id))
          (fun id => ReleaseDesk.found fault (c.start.artifacts.get? id)) =
          p.text c.seen.records.get? c.seen.artifacts.get? := by
        cases p with
        | build b =>
            have row := found_eq (off _ rfl) c.start.records b.record
            exact congrArg (buildText b) row
        | artifact e =>
            have row := found_eq (off _ rfl) c.start.artifacts e.artifact
            exact congrArg (artifactText e) row
        | close => rfl
      rw [same]
      exact .describe hm hr _ _ (by rw [← rest, details, String.append_assoc])

theorem Stage.find {a : ReleaseAttempt} {status : AttemptStatus}
    {after : Option (Milestone × ReleaseResult)} (now : Instant)
    (stage : c.Stage (.findingAttempt text status after) s saved told)
    (off : fault.isSome = c.broken .findAttempt)
    (ha : ReleaseDesk.found fault (s.attempts.get? c.attempt) = some a) :
    c.Stage (.savingAttempt (ReleaseDesk.closedAttempt a text status now) after) s saved told := by
  rw [found_eq off] at ha
  cases stage with
  | findingAttempt hm => exact .savingAttempt hm ha

theorem Stage.miss {status : AttemptStatus} {after : Option (Milestone × ReleaseResult)}
    {d : ReleaseDesk} (rec : Recording) (now : Instant)
    (stage : c.Stage (.findingAttempt text status after) d.store saved told)
    (off : fault.isSome = c.broken .findAttempt)
    (ha : ReleaseDesk.found fault (d.store.attempts.get? c.attempt) = none) :
    c.Stage (d.turn rec now after).2 (d.turn rec now after).1.store saved told := by
  rw [found_eq off] at ha
  generalize hs : d.store = s at stage ha
  cases stage with
  | findingAttempt hm =>
      have absent : c.seen.attempts.get? c.attempt = none := ha
      have unsaved : c.saved now = [] := by simp [Breakdown.saved, absent]
      exact unsaved ▸ Stage.turn hm d rec now (hs.trans (told_of_saved unsaved).symm)

theorem Stage.close {a : ReleaseAttempt} {after : Option (Milestone × ReleaseResult)}
    (stage : c.Stage (.savingAttempt a after) s saved told) (works : c.broken .saveAttempt = false) :
    c.Stage (.announcing a after) (s.saveAttempt a) (saved ++ [a]) told := by
  cases stage with
  | @savingAttempt m a now hm ha =>
      have one : c.saved now = [c.closed a now] := by simp [Breakdown.saved, works, ha]
      have rows : c.start.saveAttempt (c.closed a now) = c.told now [] := by
        simp [Breakdown.told, Breakdown.attempts, Breakdown.records, one, Store.saveAttempt]
      rw [rows, List.nil_append, ← one]
      exact .announcing hm one

theorem Stage.closeFails {a : ReleaseAttempt} {after : Option (Milestone × ReleaseResult)}
    {d : ReleaseDesk} (rec : Recording) (now : Instant)
    (stage : c.Stage (.savingAttempt a after) d.store saved told)
    (broken : c.broken .saveAttempt = true) :
    c.Stage (d.turn rec now after).2 (d.turn rec now after).1.store saved told := by
  generalize hs : d.store = s at stage
  cases stage with
  | savingAttempt hm ha =>
      have unsaved : c.saved now = [] := by simp [Breakdown.saved, broken]
      exact unsaved ▸ Stage.turn hm d rec now (hs.trans (told_of_saved unsaved).symm)

theorem Stage.announced {a : ReleaseAttempt} {after : Option (Milestone × ReleaseResult)}
    {d : ReleaseDesk} (rec : Recording) (now : Instant)
    (stage : c.Stage (.announcing a after) d.store saved told) :
    c.Stage (d.turn rec now after).2 (d.turn rec now after).1.store saved (told ++ [a]) := by
  generalize hs : d.store = s at stage
  cases stage with
  | announcing hm one =>
      rw [List.nil_append, ← one]
      exact .turn hm d rec now hs

theorem Stage.findRecord {b : BuildImport} {ahead : List BuildImport} {row : BuildRecord}
    (stage : c.Stage (.findingRecord m b ahead) s saved told)
    (off : fault.isSome = c.broken .findRecord)
    (hrow : ReleaseDesk.found fault (s.records.get? b.record) = some row) :
    c.Stage (.savingRecord m (ReleaseDesk.importedRecord row b) ahead) s saved told := by
  rw [found_eq off] at hrow
  cases stage with
  | findingRecord hm hr split =>
      cases hbroken : c.broken .findRecord with
      | true => simp [hbroken] at hrow
      | false => exact .savingRecord hm hr split hbroken (by simpa [hbroken, Breakdown.told] using hrow)

theorem Stage.missRecord {b : BuildImport} {ahead : List BuildImport} (later : Instant)
    (stage : c.Stage (.findingRecord m b ahead) s saved told)
    (off : fault.isSome = c.broken .findRecord)
    (hrow : ReleaseDesk.found fault (s.records.get? b.record) = none) :
    c.Stage (ReleaseDesk.nextRecord m later ahead) s saved told := by
  rw [found_eq off] at hrow
  cases stage with
  | @findingRecord m r b done ahead now hm hr split =>
      have same : c.records (done ++ [b]) = c.records done := by
        rw [records_concat]
        split
        · rfl
        next works =>
          have works : c.broken .findRecord = false := by simp_all
          have absent : (c.records done).get? b.record = none := by
            simpa [works, Breakdown.told] using hrow
          rw [importRecord, absent]
      have rest : r.builds = done ++ [b] ++ ahead := by simpa using split
      have next := Stage.nextRecord hm hr rest now later
      rwa [Breakdown.told, same] at next

theorem Stage.saveRecord {ahead : List BuildImport} {row : BuildRecord} (later : Instant)
    (stage : c.Stage (.savingRecord m row ahead) s saved told)
    (off : fault.isSome = c.broken .saveRecord) :
    c.Stage (ReleaseDesk.nextRecord m later ahead)
      (if fault.isNone then s.saveRecord row else s) saved told := by
  cases stage with
  | @savingRecord m r b done ahead row now hm hr split works hrow =>
      have rows : (if fault.isNone then
          (c.told now done).saveRecord (ReleaseDesk.importedRecord row b) else c.told now done) =
          c.told now (done ++ [b]) := by
        rw [Breakdown.told, Breakdown.told, records_concat, importRecord, hrow, works, ← off]
        cases fault <;> rfl
      rw [rows]
      exact .nextRecord hm hr (by simpa using split) now later

theorem Stage.saveMilestone (stage : c.Stage (.savingMilestone m) s saved told)
    (off : fault.isSome = c.broken .saveMilestone) :
    c.Stage (.findingVersion m.productVersion) (if fault.isNone then s.saveMilestone m else s) saved
      told := by
  cases stage with
  | @savingMilestone m r now later hm hr =>
      have rows : (if fault.isNone then
          (c.told now c.report.builds).saveMilestone { m with endDate := some later }
          else c.told now c.report.builds) = c.past m now later := by
        rw [past, milestones, hr, ← off]
        cases fault <;> rfl
      rw [rows]
      exact Stage.findingVersion (m := m) hm hr

theorem Stage.findVersion {id : ResourceId} {v : ProductVersion}
    (stage : c.Stage (.findingVersion id) s saved told)
    (off : fault.isSome = c.broken .findVersion)
    (hv : ReleaseDesk.found fault (s.versions.get? id) = some v)
    (current : v.currentMilestone = some c.milestone) :
    c.Stage (.savingVersion { v with currentMilestone := none }) s saved told := by
  rw [found_eq off] at hv
  cases stage with
  | findingVersion hm hr =>
      exact .savingVersion hm hr (Option.filter_eq_some_iff.mpr ⟨hv, by simpa using current⟩)

theorem Stage.passVersion {id : ResourceId} (stage : c.Stage (.findingVersion id) s saved told)
    (off : fault.isSome = c.broken .findVersion)
    (other : ∀ v, ReleaseDesk.found fault (s.versions.get? id) = some v →
      v.currentMilestone ≠ some c.milestone) : c.Stage .ended s saved told := by
  cases stage with
  | @findingVersion m r now later hm hr =>
      have absent : c.current? m = none := by
        refine Option.filter_eq_none_iff.mpr fun v hv => ?_
        simpa using other v ((found_eq off ..).trans hv)
      have rows : c.outcome m now later = c.past m now later := by
        rw [outcome, versions, absent, hr]
        rfl
      rw [← rows]
      exact .ended hm

theorem Stage.saveVersion {v : ProductVersion} (stage : c.Stage (.savingVersion v) s saved told)
    (off : fault.isSome = c.broken .saveVersion) :
    c.Stage .ended (if fault.isNone then s.saveVersion v else s) saved told := by
  cases stage with
  | @savingVersion m r v now later hm hr hv =>
      have rows : (if fault.isNone then
          (c.past m now later).saveVersion { v with currentMilestone := none }
          else c.past m now later) = c.outcome m now later := by
        rw [outcome, versions, hr, hv, ← off]
        cases fault <;> rfl
      rw [rows]
      exact .ended hm

end Answers

end Breakdown

end Release

namespace ReleaseDesk

section Step

variable {c : Breakdown} {d b : ReleaseDesk} {k : Nat} {e : Event} {r : Recording}
  {p q : RecordingPhase} {s : Store} {saved told : List ReleaseAttempt}
  {fault : Option StorageFault} {now : Instant}

theorem written?_answerRecording (hr : d.recordings[k]? = some r) (fault : Option StorageFault)
    (now : Instant) : d.written? (.answerRecording k fault now) =
      if fault.isSome then none else r.phase.saving?.map (·.2) := by
  cases fault <;> simp [written?, saving?, hr]

/-- An answer that lets no attempt be saved lets nobody be told of one either. -/
theorem stage_of_unwritten (unwritten : d.written? (.answerRecording k fault now) = none)
    (stage : c.Stage p s saved told) :
    c.Stage p s (saved ++ (d.written? (.answerRecording k fault now)).toList)
      (told ++ d.announcements (.answerRecording k fault now)) := by
  have untold : d.announcements (.answerRecording k fault now) = [] := rfl
  rwa [unwritten, untold, Option.toList_none, List.append_nil, List.append_nil]

/-- An answer in a phase that saves no attempt leads to the stage that the phase and the answer
say. -/
theorem stage_of_quiet (hr : d.recordings[k]? = some r) (h : r.phase = q) (quiet : q.saving? = none)
    (stage : c.Stage r.phase d.store saved told)
    (amid : ∀ x ∈ r.phase.method?, fault.isSome = c.broken x)
    (next : c.Stage q d.store saved told → (∀ x ∈ q.method?, fault.isSome = c.broken x) →
      c.Stage p s saved told) :
    c.Stage p s (saved ++ (d.written? (.answerRecording k fault now)).toList)
      (told ++ d.announcements (.answerRecording k fault now)) := by
  have unwritten : d.written? (.answerRecording k fault now) = none := by
    rw [written?_answerRecording hr, h, quiet]
    split <;> rfl
  rw [h] at stage amid
  exact stage_of_unwritten unwritten (next stage amid)

theorem store_ite (d : ReleaseDesk) (fault : Option StorageFault) (s : Store) :
    (if fault.isNone then { d with store := s } else d).store =
      if fault.isNone then s else d.store := by
  cases fault <;> rfl

/-- While some methods fail, a recording gets from stage to stage. -/
theorem RecordingStep.stage (h : RecordingStep d k r e b p) (hr : d.recordings[k]? = some r)
    (stage : c.Stage r.phase d.store saved told)
    (amid : ∀ x ∈ r.phase.method?, e.fault?.isSome = c.broken x)
    (milestone : r.milestone = c.milestone) (attempt : r.attempt = c.attempt) :
    c.Stage p b.store (saved ++ (d.written? e).toList) (told ++ d.announcements e) := by
  -- Each answer is dealt with by the lemma of its name; only `close` saves and `announced` tells.
  cases h with
  | lost h hm =>
      exact stage_of_quiet hr h rfl stage amid fun stage off =>
        stage.lost (off _ rfl) (milestone ▸ hm)
  | describe h hm =>
      refine stage_of_quiet hr h rfl stage amid fun stage off => ?_
      obtain ⟨hs, rfl, rfl, report, hm⟩ := stage.found (off _ rfl) (milestone ▸ hm)
      rw [hs]
      refine .describe hm report _ _ ?_
      rw [report]
      exact description_eq ..
  | fail h hm =>
      refine stage_of_quiet hr h rfl stage amid fun stage off => ?_
      obtain ⟨hs, rfl, rfl, report, hm⟩ := stage.found (off _ rfl) (milestone ▸ hm)
      have next := Breakdown.Stage.findingAttempt hm
      rw [failureText_eq]
      rwa [report, ← hs] at next
  | passage h =>
      exact stage_of_quiet hr h rfl stage amid fun stage off => stage.passage off
  | find h ha =>
      exact stage_of_quiet hr h rfl stage amid fun stage off =>
        stage.find _ (off _ rfl) (attempt ▸ ha)
  | miss h ha =>
      exact stage_of_quiet hr h rfl stage amid fun stage off =>
        stage.miss r _ (off _ rfl) (attempt ▸ ha)
  | @close a after now h =>
      have one : d.written? (.answerRecording k none now) = some a := by
        rw [written?_answerRecording hr, h]
        rfl
      have untold : d.announcements (.answerRecording k none now) = [] := rfl
      rw [one, untold, List.append_nil]
      rw [h] at stage amid
      exact stage.close (amid _ rfl).symm
  | closeFails h =>
      refine stage_of_unwritten (written?_answerRecording hr ..) ?_
      rw [h] at stage amid
      exact stage.closeFails r _ (amid _ rfl).symm
  | @announced a after now h =>
      have one : d.announcements (.recordingAnnounced k now) = [a] := by
        simp [ReleaseDesk.announcements, Event.told?, announced?, hr, h,
          RecordingPhase.announced?]
      have unwritten : d.written? (.recordingAnnounced k now) = none := rfl
      rw [one, unwritten, Option.toList_none, List.append_nil]
      rw [h] at stage
      exact stage.announced r now
  | findRecord h hrow =>
      exact stage_of_quiet hr h rfl stage amid fun stage off => stage.findRecord (off _ rfl) hrow
  | missRecord h hrow =>
      exact stage_of_quiet hr h rfl stage amid fun stage off => stage.missRecord _ (off _ rfl) hrow
  | saveRecord h =>
      refine stage_of_quiet hr h rfl stage amid fun stage off => ?_
      rw [store_ite]
      exact stage.saveRecord _ (off _ rfl)
  | saveMilestone h =>
      refine stage_of_quiet hr h rfl stage amid fun stage off => ?_
      rw [store_ite]
      exact stage.saveMilestone (off _ rfl)
  | findVersion h hv current =>
      exact stage_of_quiet hr h rfl stage amid fun stage off =>
        stage.findVersion (off _ rfl) hv (milestone ▸ current)
  | passVersion h other =>
      exact stage_of_quiet hr h rfl stage amid fun stage off =>
        stage.passVersion (off _ rfl) fun v hv => milestone ▸ other v hv
  | saveVersion h =>
      refine stage_of_quiet hr h rfl stage amid fun stage off => ?_
      rw [ReleaseDesk.forget, store_ite]
      exact stage.saveVersion (off _ rfl)

end Step

end ReleaseDesk

end Foreman
