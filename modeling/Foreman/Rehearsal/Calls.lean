import Foreman.Rehearsal.Stage

/-!
How releases and processes go on in a rehearsal. Each call is a stack of places in the work; the
innermost one goes on as soon as whoever it waits for has an answer.
-/

namespace Foreman.Rehearsal.Stage

/-- What a place hands to the one around it. -/
inductive Handback where
  | engine (r : Except EngineFault Unit)
  | dispatch (delivered : Bool)

/-- Hands something to the places around; they end until one has more to do. -/
def handBack (s : Stage) : Handback → List Frame → Option (Stage × Call)
  | .dispatch delivered, [] => some (s, ⟨[], some (.dispatch delivered)⟩)
  | .dispatch delivered, .interjected :: rest =>
    some ({ s with interjections := s.interjections ++ [delivered] }, ⟨rest, none⟩)
  | .dispatch delivered, .followed tag :: rest =>
    handBack { s with notes := s.notes ++ [.dispatched tag delivered] } (.dispatch true) rest
  | .engine r, .release k :: rest => do
    let d ← s.service.desk.answerAsking k r s.now
    some ((s.withDesk d).tick, ⟨.release k :: rest, none⟩)
  | .engine (.ok ()), .process _ _ :: _ => some (s, ⟨[], some (.process (.ok ()))⟩)
  | .engine (.error e), .process id call :: _ =>
    let d := s.service.desk
    some (s.withDesk { d with correlator := d.correlator.withdraw id call },
      ⟨[], some (.process (.error (.start id e)))⟩)
  | _, _ => none

/-- A guest's listener notes its payload and goes on as its script says. The places are those in
which it still has work to do. -/
def callGuest (s : Stage) (n : Nat) (id : CorrelationId) (payload : Json) : Stage × List Frame :=
  match s.guests[n]? with
  | none => (s, [])
  | some g =>
    match g.read payload with
    | none => (s, [])
    | some v =>
      let s := { s with notes := s.notes ++ [.called g.tag v] }
      match g.followUp with
      | .nothing | .crash => (s, [])
      | .abandon =>
        let d := s.service.desk
        let note := Note.abandoned g.tag (d.correlator.isPending id)
        ({ s with notes := s.notes ++ [note] }.withDesk
          { d with correlator := d.correlator.abandon id }, [])
      | .dispatch event => (s, [.follow g.tag id event])

/-- Delivers an event inside of other places. -/
def dispatchWithin (s : Stage) (id : CorrelationId) (event : String) (payload : Json)
    (rest : List Frame) : Option (Stage × Call) :=
  let (outcome, d) := s.service.desk.dispatchNamed id event payload
  let s := s.withDesk d
  match outcome with
  | .unmatched => s.handBack (.dispatch false) rest
  | .unreadable => s.handBack (.dispatch true) rest
  | .recording k => some (s, ⟨.recording k :: rest, none⟩)
  | .guest n =>
    match s.callGuest n id payload with
    | (s, []) => s.handBack (.dispatch true) rest
    | (s, frames) => some (s, ⟨frames ++ rest, none⟩)

/-- The call that a start of a release waits for. -/
def startCall : Release.StartPhase → Option StorageCall
  | .findingMilestone => some .findMilestone
  | .checkingLatest _ => some .latestAttempt
  | .savingAttempt _ _ | .savingRefusal _ => some .saveAttempt
  | _ => none

/-- The call that a recording waits for. -/
def recordingCall : Release.RecordingPhase → Option StorageCall
  | .findingMilestone _ => some .findMilestone
  | .describing _ _ _ (.build _ :: _) => some .findRecord
  | .describing _ _ _ _ => some .findArtifact
  | .findingAttempt _ _ _ => some .findAttempt
  | .savingAttempt _ _ => some .saveAttempt
  | .findingRecord _ _ _ => some .findRecord
  | .savingRecord _ _ _ => some .saveRecord
  | .savingMilestone _ => some .saveMilestone
  | .findingVersion _ => some .findVersion
  | .savingVersion _ => some .saveVersion
  | _ => none

/-- One step of the innermost place, if one is possible. -/
def stepFrames (s : Stage) : List Frame → Option (Stage × Call)
  | .release k :: rest => do
    let d := s.service.desk
    let start ← d.starts[k]?
    match start.phase with
    | .asking _ _ r =>
      some ({ s with requests := s.requests ++ [r] },
        ⟨.engine r s.engine.during :: .release k :: rest, none⟩)
    | .announcing a =>
      let s := { s with service := s.service.publishAttempt Player.send a }
      some (s.withDesk (← d.startAnnounced k), ⟨.release k :: rest, none⟩)
    | .ended outcome => some (s, ⟨[], some (.release outcome)⟩)
    | phase =>
      let fault ← s.answer (← startCall phase)
      let d ← d.answerStart k fault s.now s.id
      some ((s.withDesk d).tick, ⟨.release k :: rest, none⟩)
  | .engine r (i :: ahead) :: rest =>
    s.dispatchWithin (i.id.getD r.correlation) i.event i.payload
      (.interjected :: .engine r ahead :: rest)
  | .engine _ [] :: rest =>
    match s.engine.conduct with
    | .works => s.handBack (.engine (.ok ())) rest
    | .fails e => s.handBack (.engine (.error e)) rest
    | .hangs => none
  | .recording k :: rest => do
    let d := s.service.desk
    let recording ← d.recordings[k]?
    match recording.phase with
    | .announcing a _ =>
      let s := { s with service := s.service.publishAttempt Player.send a }
      some ((s.withDesk (← d.recordingAnnounced k s.now)).tick, ⟨.recording k :: rest, none⟩)
    | .ended => s.handBack (.dispatch true) rest
    | phase =>
      let fault ← s.answer (← recordingCall phase)
      let d ← d.answerRecording k fault s.now
      some ((s.withDesk d).tick, ⟨.recording k :: rest, none⟩)
  | .follow tag id event :: rest => s.dispatchWithin id event .null (.followed tag :: rest)
  | _ => none

/-- One step of the first call that can go on. -/
def stepCalls (s : Stage) : Option Stage :=
  (List.range s.calls.length).findSome? fun k => do
    let c ← s.calls[k]?
    let (s, c) ← s.stepFrames c.stack
    some { s with calls := s.calls.set k c }

/-- Begins to start a release; the call's number is the count of those before it. -/
def startRelease (s : Stage) (milestone : ResourceId) (accessToken : String) : Stage :=
  let k := s.service.desk.starts.length
  { s.withDesk (s.service.desk.beginStart milestone accessToken) with
    calls := s.calls ++ [⟨[.release k], none⟩] }

/-- Begins to start a guest's process. -/
def startProcess (s : Stage) (r : ProcessRequest) (listeners : List (EventType × Guest)) : Stage :=
  let d := s.service.desk
  let call := d.correlator.calls
  let entries := listeners.zipIdx s.guests.length |>.map fun ((e, _), n) =>
    (e, Release.Listener.guest n)
  let s := s.withDesk { d with
    correlator := d.correlator.register r.correlation r.process s.now entries }
  { s with
    guests := s.guests ++ listeners.map (·.2)
    requests := s.requests ++ [r]
    calls := s.calls ++ [⟨[.engine r s.engine.during, .process r.correlation call], none⟩] }

/-- Begins to deliver an event. -/
def startDispatch (s : Stage) (id : CorrelationId) (event : String) (payload : Json) : Stage :=
  match s.dispatchWithin id event payload [] with
  | some (s, c) => { s with calls := s.calls ++ [c] }
  | none => s

/-- Drops a call. What listeners were called for it goes on without it. -/
def dropCall (s : Stage) (k : Nat) : Stage :=
  match s.calls[k]? with
  | none => s
  | some c =>
    let listeners := if c.stack.any Frame.isInterjected then
        c.stack.takeWhile fun f => !f.isInterjected
      else []
    let desk := c.stack.foldl (fun d f => match f with
      | .release k => (d.dropStart k false).getD d
      | _ => d) s.service.desk
    { s.withDesk desk with calls := s.calls.set k ⟨listeners, none⟩ }

end Foreman.Rehearsal.Stage
