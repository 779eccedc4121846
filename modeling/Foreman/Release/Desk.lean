import Foreman.Correlator
import Foreman.Release.Description
import Foreman.Wire.Release

/-!
The desk at which milestones are released. Starting a release saves an attempt in progress and asks
the engine to start the release process; the result that the process delivers closes the attempt.
Starts and results go on step by step, one step for each answer of a repository, of the engine or
of the clients, so that any number of them can be under way.
-/

namespace Foreman

namespace Release

/-- What a start does, or waits for. Between winning the mark of the milestone and having the
attempt saved, the milestone is marked as starting. -/
inductive StartPhase where
  | findingMilestone
  | checkingLatest (m : Milestone)
  | savingAttempt (m : Milestone) (a : ReleaseAttempt)
  | asking (a : ReleaseAttempt) (call : Nat) (request : ProcessRequest)
  | savingRefusal (a : ReleaseAttempt)
  | announcing (a : ReleaseAttempt)
  | ended (outcome : Except Fault ReleaseAttempt)
  /-- The caller gave up. -/
  | dropped

structure Start where
  milestone : ResourceId
  accessToken : String
  phase : StartPhase

/-- What a process delivers: a result, or whatever the engine has to say about a failure. -/
inductive Report where
  | result (r : ReleaseResult)
  | failure (payload : Json)

/-- What is done with a report. After the attempt come the builds, the milestone and its version,
if the report is a result. -/
inductive RecordingPhase where
  | findingMilestone (r : Report)
  | describing (m : Milestone) (r : ReleaseResult) (text : String) (ahead : List Passage)
  | findingAttempt (text : String) (s : AttemptStatus) (after : Option (Milestone × ReleaseResult))
  | savingAttempt (a : ReleaseAttempt) (after : Option (Milestone × ReleaseResult))
  | announcing (a : ReleaseAttempt) (after : Option (Milestone × ReleaseResult))
  | findingRecord (m : Milestone) (b : BuildImport) (ahead : List BuildImport)
  | savingRecord (m : Milestone) (r : BuildRecord) (ahead : List BuildImport)
  | savingMilestone (m : Milestone)
  | findingVersion (id : ResourceId)
  | savingVersion (v : ProductVersion)
  | ended

structure Recording where
  correlation : CorrelationId
  milestone : ResourceId
  attempt : ResourceId
  phase : RecordingPhase

/-- Who is called when an event comes: the desk for one of its attempts, or someone else. -/
inductive Listener where
  | result (milestone attempt : ResourceId)
  | failure (milestone attempt : ResourceId)
  | guest (number : Nat)

end Release

open Release

structure ReleaseDesk where
  store : Store
  correlator : Correlator Listener
  /-- The milestones that are marked as starting. -/
  starting : List ResourceId
  starts : List Start
  recordings : List Recording
  /-- The process that the engine runs to release a milestone. -/
  process : String
  /-- Where the engine posts results to, without a slash at the end. -/
  callbackBase : Option String

namespace ReleaseDesk

def empty (process : String) (callbackBase : Option String) : ReleaseDesk :=
  ⟨.empty, .empty, [], [], [], process, callbackBase.map Text.trimSlashes⟩

def conflict (milestone : ResourceId) : Fault :=
  .conflict ("milestone " ++ milestone.text ++ " already has a release in progress")

def isInProgress (d : ReleaseDesk) (milestone : ResourceId) : Bool :=
  (d.store.latestAttempt milestone).any (·.status = .inProgress)

/-! ### Starts -/

/-- Begins a start; its number is the count of those before it. -/
def beginStart (d : ReleaseDesk) (milestone : ResourceId) (accessToken : String) : ReleaseDesk :=
  { d with starts := d.starts ++ [⟨milestone, accessToken, .findingMilestone⟩] }

def mark (d : ReleaseDesk) (milestone : ResourceId) : ReleaseDesk :=
  { d with starting := milestone :: d.starting }

def unmark (d : ReleaseDesk) (milestone : ResourceId) : ReleaseDesk :=
  { d with starting := d.starting.filter (· ≠ milestone) }

def withStart (d : ReleaseDesk) (k : Nat) (p : StartPhase) : ReleaseDesk :=
  { d with starts := d.starts.modify k fun s => { s with phase := p } }

/-- The URL at which the engine reports on a process. -/
def callbackUrl (d : ReleaseDesk) (id : CorrelationId) : Option String :=
  d.callbackBase.map fun base => base ++ "/" ++ id.text

def payload (d : ReleaseDesk) (m : Milestone) (accessToken : String) (id : CorrelationId) : Json :=
  .object [
    ("accessToken", .string accessToken),
    ("callbackUrl", Wire.ofOption .string (d.callbackUrl id)),
    ("milestoneId", .string m.id.text),
    ("milestoneVersion", .string m.version)]

def request (d : ReleaseDesk) (m : Milestone) (accessToken : String) (a : ReleaseAttempt) :
    ProcessRequest :=
  let id := CorrelationId.ofResource a.id
  ⟨id, d.process, d.payload m accessToken id⟩

/-- Either event closes the attempt. -/
def listeners (milestone attempt : ResourceId) : List (EventType × Listener) :=
  [(.importSuccess, .result milestone attempt), (.importError, .failure milestone attempt)]

/-- The attempt that a start saves. -/
def firstAttempt (id milestone : ResourceId) (now : Instant) : ReleaseAttempt :=
  { ReleaseAttempt.start id milestone now with log := startedText }

/-- The attempt after the engine has refused to start the process. -/
def refusedAttempt (a : ReleaseAttempt) (now : Instant) : ReleaseAttempt :=
  { a with log := a.log ++ refusedText, status := .systemError, endDate := some now }

/-- A repository has answered the start: it did what was asked, or it failed without effect. An id
is used where the start makes a new attempt. -/
def answerStart (d : ReleaseDesk) (k : Nat) (fault : Option StorageFault) (now : Instant)
    (id : ResourceId) : Option ReleaseDesk := do
  let s ← d.starts[k]?
  let failed (f : StorageFault) : StartPhase := .ended (.error f.toFault)
  match s.phase, fault with
  | .findingMilestone, some f => some (d.withStart k (failed f))
  | .findingMilestone, none =>
    match d.store.milestones.get? s.milestone with
    | none =>
      some (d.withStart k (.ended (.error (.notFound ("milestone " ++ s.milestone.text)))))
    | some m =>
      if s.milestone ∈ d.starting then some (d.withStart k (.ended (.error (conflict s.milestone))))
      else some ((d.mark s.milestone).withStart k (.checkingLatest m))
  | .checkingLatest _, some f => some ((d.unmark s.milestone).withStart k (failed f))
  | .checkingLatest m, none =>
    if d.isInProgress s.milestone then
      some ((d.unmark s.milestone).withStart k (.ended (.error (conflict s.milestone))))
    else some (d.withStart k (.savingAttempt m (firstAttempt id s.milestone now)))
  | .savingAttempt _ _, some f => some ((d.unmark s.milestone).withStart k (failed f))
  | .savingAttempt m a, none =>
    let call := d.correlator.calls
    let r := d.request m s.accessToken a
    let d := ({ d with store := d.store.saveAttempt a }).unmark s.milestone
    some ({ d with
      correlator := d.correlator.register r.correlation d.process now (listeners m.id a.id)
      }.withStart k (.asking a call r))
  | .savingRefusal _, some f => some (d.withStart k (failed f))
  | .savingRefusal a, none =>
    some ({ d with store := d.store.saveAttempt a }.withStart k (.announcing a))
  | _, _ => none

/-- The engine has answered the start. -/
def answerAsking (d : ReleaseDesk) (k : Nat) (answer : Except EngineFault Unit) (now : Instant) :
    Option ReleaseDesk := do
  let s ← d.starts[k]?
  match s.phase, answer with
  | .asking a _ _, .ok () => some (d.withStart k (.announcing a))
  | .asking a call r, .error _ =>
    some ({ d with correlator := d.correlator.withdraw r.correlation call }.withStart k
      (.savingRefusal (refusedAttempt a now)))
  | _, _ => none

/-- The clients have been told of the attempt. -/
def startAnnounced (d : ReleaseDesk) (k : Nat) : Option ReleaseDesk := do
  let s ← d.starts[k]?
  match s.phase with
  | .announcing a => some (d.withStart k (.ended (.ok a)))
  | _ => none

/-- The caller gives up. A save that is under way may have `landed` or not. -/
def dropStart (d : ReleaseDesk) (k : Nat) (landed : Bool) : Option ReleaseDesk := do
  let s ← d.starts[k]?
  let save (a : ReleaseAttempt) (d : ReleaseDesk) : ReleaseDesk :=
    if landed then { d with store := d.store.saveAttempt a } else d
  match s.phase with
  | .ended _ | .dropped => none
  | .checkingLatest _ => some ((d.unmark s.milestone).withStart k .dropped)
  | .savingAttempt _ a => some (((save a d).unmark s.milestone).withStart k .dropped)
  | .savingRefusal a => some ((save a d).withStart k .dropped)
  | .findingMilestone | .asking _ _ _ | .announcing _ => some (d.withStart k .dropped)

/-! ### Results -/

def withRecording (d : ReleaseDesk) (k : Nat) (p : RecordingPhase) : ReleaseDesk :=
  { d with recordings := d.recordings.modify k fun r => { r with phase := p } }

/-- The process has delivered what it had to; its other listener goes with it. -/
def finishRecording (d : ReleaseDesk) (k : Nat) (r : Recording) : ReleaseDesk :=
  { d with correlator := d.correlator.abandon r.correlation }.withRecording k .ended

/-- The next lookup for the description, or the attempt if there is none. -/
def describe (m : Milestone) (r : ReleaseResult) (text : String) : List Passage → RecordingPhase
  | .close :: ahead => describe m r (text ++ "\n") ahead
  | [] => .findingAttempt text r.status.attemptStatus (some (m, r))
  | ahead => .describing m r text ahead

/-- The next build, or the milestone if there is none. -/
def nextRecord (m : Milestone) (now : Instant) : List BuildImport → RecordingPhase
  | [] => .savingMilestone { m with endDate := some now }
  | b :: ahead => .findingRecord m b ahead

/-- What comes after the attempt. -/
def afterAttempt (d : ReleaseDesk) (k : Nat) (r : Recording) (now : Instant) :
    Option (Milestone × ReleaseResult) → ReleaseDesk
  | some (m, result) => d.withRecording k (nextRecord m now result.builds)
  | none => d.finishRecording k r

def closedAttempt (a : ReleaseAttempt) (text : String) (s : AttemptStatus) (now : Instant) :
    ReleaseAttempt :=
  { a with
    endDate := if s = .inProgress then a.endDate else some now
    status := s
    log := a.log ++ text }

/-- The record with what the import says about its build. -/
def importedRecord (r : BuildRecord) (b : BuildImport) : BuildRecord :=
  let r := match b.brewBuildId with
    | some id => r.putAttribute "brewId" (toString id)
    | none => r
  match b.brewBuildUrl with
  | some url => r.putAttribute "brewLink" url
  | none => r

/-- A repository has answered the recording: it did what was asked, or it failed without effect. -/
def answerRecording (d : ReleaseDesk) (k : Nat) (fault : Option StorageFault) (now : Instant) :
    Option ReleaseDesk := do
  let r ← d.recordings[k]?
  let works := fault.isNone
  let found {α : Type} (row : Option α) : Option α := if works then row else none
  match r.phase with
  | .findingMilestone report =>
    match found (d.store.milestones.get? r.milestone), report with
    | none, _ => some (d.finishRecording k r)
    | some m, .result result =>
      some (d.withRecording k (describe m result (heading result) (passages result)))
    | some _, .failure payload =>
      some (d.withRecording k (.findingAttempt (failureText payload) .systemError none))
  | .describing m result text (p :: ahead) =>
    let records (id : ResourceId) : Option BuildRecord := found (d.store.records.get? id)
    let artifacts (id : ResourceId) : Option Artifact := found (d.store.artifacts.get? id)
    some (d.withRecording k (describe m result (text ++ p.text records artifacts) ahead))
  | .findingAttempt text s after =>
    match found (d.store.attempts.get? r.attempt) with
    | some a => some (d.withRecording k (.savingAttempt (closedAttempt a text s now) after))
    | none => some (d.afterAttempt k r now after)
  | .savingAttempt a after =>
    if works then
      some ({ d with store := d.store.saveAttempt a }.withRecording k (.announcing a after))
    else some (d.afterAttempt k r now after)
  | .findingRecord m b ahead =>
    match found (d.store.records.get? b.record) with
    | some row => some (d.withRecording k (.savingRecord m (importedRecord row b) ahead))
    | none => some (d.withRecording k (nextRecord m now ahead))
  | .savingRecord m row ahead =>
    let d := if works then { d with store := d.store.saveRecord row } else d
    some (d.withRecording k (nextRecord m now ahead))
  | .savingMilestone m =>
    let d := if works then { d with store := d.store.saveMilestone m } else d
    some (d.withRecording k (.findingVersion m.productVersion))
  | .findingVersion id =>
    match found (d.store.versions.get? id) with
    | some v =>
      if v.currentMilestone = some r.milestone then
        some (d.withRecording k (.savingVersion { v with currentMilestone := none }))
      else some (d.finishRecording k r)
    | none => some (d.finishRecording k r)
  | .savingVersion v =>
    let d := if works then { d with store := d.store.saveVersion v } else d
    some (d.finishRecording k r)
  | _ => none

/-- The clients have been told of the closed attempt. -/
def recordingAnnounced (d : ReleaseDesk) (k : Nat) (now : Instant) : Option ReleaseDesk := do
  let r ← d.recordings[k]?
  match r.phase with
  | .announcing _ after => some (d.afterAttempt k r now after)
  | _ => none

def beginRecording (d : ReleaseDesk) (id : CorrelationId) (milestone attempt : ResourceId)
    (report : Report) : ReleaseDesk :=
  { d with recordings := d.recordings ++ [⟨id, milestone, attempt, .findingMilestone report⟩] }

/-- What becomes of an event that is delivered. -/
inductive Dispatch where
  /-- Nobody waits for it. -/
  | unmatched
  /-- The recording with this number deals with it. -/
  | recording (k : Nat)
  /-- It is for someone else. -/
  | guest (number : Nat)
  /-- Its payload is not a result; the listener is gone all the same. -/
  | unreadable
deriving DecidableEq

def dispatch (d : ReleaseDesk) (id : CorrelationId) (e : EventType) (payload : Json) :
    Dispatch × ReleaseDesk :=
  match d.correlator.registration? id e with
  | none => (.unmatched, d)
  | some r =>
    let d := { d with correlator := d.correlator.consume id e }
    let k := d.recordings.length
    match r.listener with
    | .result m a =>
      match (Wire.decode payload : Except Json.Fault ReleaseResult) with
      | .ok result => (.recording k, d.beginRecording id m a (.result result))
      | .error _ => (.unreadable, d)
    | .failure m a => (.recording k, d.beginRecording id m a (.failure payload))
    | .guest n => (.guest n, d)

/-- Delivers an event by its name; one that is unknown matches nothing. -/
def dispatchNamed (d : ReleaseDesk) (id : CorrelationId) (name : String) (payload : Json) :
    Dispatch × ReleaseDesk :=
  match EventType.read name with
  | .ok e => d.dispatch id e payload
  | .error _ => (.unmatched, d)

end ReleaseDesk

end Foreman
