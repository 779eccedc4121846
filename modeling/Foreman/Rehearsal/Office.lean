import Foreman.Rehearsal.World

/-!
Rehearsals of the release desk and of the processes of guests.
-/

namespace Foreman.Rehearsal.Office

inductive Cue where
  | setEngine (s : EngineScript)
  | start (label : Option String) (r : ProcessRequest) (listeners : List (EventType × Guest))
  | startRelease (label : Option String) (milestone : ResourceId) (accessToken : String)
  | outcome (label : String)
  | cancel (label : String)
  | dispatch (id : CorrelationId) (event : String) (payload : Json)
  | abandon (id : CorrelationId)
  | isPending (id : CorrelationId)
  | isIdle (milestone : ResourceId)
  | latest (milestone : ResourceId)
  | put (r : Row)
  | find (k : RowKind) (id : ResourceId)
  | newAttempt (milestone : ResourceId) (startingDate : Option Instant)
  | listRecords (configuration : ResourceId)
  | setStorage (c : StorageCall) (conduct : Conduct StorageFault)
  | addClient (name : String) (p : Player)

def deliveredText (delivered : Bool) : Json :=
  .string (if delivered then "delivered" else "unmatched")

def reply : Option CallOutcome → Reply
  | none => .word "pending"
  | some (.release r) => .ofExcept r Wire.encode
  | some (.process (.ok ())) => .nothing
  | some (.process (.error f)) => .error (.workflow f)
  | some (.dispatch delivered) => .ok (deliveredText delivered)

/-- What has become of a call. -/
def outcome (w : World) (k : Nat) : Reply := reply (w.stage.calls[k]?.bind (·.outcome))

/-- Begins a call and runs; what has become of it then is the reply. -/
def call (budget : Nat) (w : World) (label : Option String) (start : Stage → Stage) :
    Reply × World :=
  let k := w.stage.calls.length
  let labels := match label with
    | some l => w.labels.insert l k
    | none => w.labels
  let w := { w with stage := start w.stage, labels }.run budget
  (outcome w k, w)

def newAttempt (w : World) (milestone : ResourceId) (startingDate : Option Instant) :
    Reply × World :=
  let a := ReleaseAttempt.start w.stage.id milestone w.stage.now
  { w with stage := w.stage.tick }.put
    (.attempt { a with startingDate := startingDate.getD a.startingDate })

def play (budget : Nat) (w : World) (cue : Cue) : Reply × World :=
  match cue with
  | .setEngine s => (.nothing, { w with stage := { w.stage with engine := s } })
  | .start label r listeners => call budget w label fun s => s.startProcess r listeners
  | .startRelease label m token => call budget w label fun s => s.startRelease m token
  | .dispatch id event payload => call budget w none fun s => s.startDispatch id event payload
  | .outcome label =>
    match w.labels.get? label with
    | some k => (outcome w k, w)
    | none => (.word "unknown", w)
  | .cancel label =>
    match w.labels.get? label with
    | some k => (.nothing, { w with stage := w.stage.dropCall k, labels := w.labels.erase label })
    | none => (.nothing, w)
  | .abandon id =>
    (.flag (w.desk.correlator.isPending id),
      w.withDesk { w.desk with correlator := w.desk.correlator.abandon id })
  | .isPending id => (.flag (w.desk.correlator.isPending id), w)
  | .isIdle m => (w.ask .latestAttempt (.bool !(w.desk.isInProgress m)), w)
  | .latest m =>
    (w.ask .latestAttempt (Wire.ofOption Wire.encode (w.store.latestAttempt m)), w)
  | .put r => w.put r
  | .find k id => (w.find k id, w)
  | .newAttempt m startingDate => newAttempt w m startingDate
  | .listRecords c =>
    (w.ask .listRecords (Wire.ofList Wire.encode (w.store.recordsOf c)), w)
  | .setStorage c conduct => (.nothing, w.setStorage c conduct)
  | .addClient name p => (.nothing, w.addClient name p)

def ofNote : Note → Json
  | .called tag payload => .object [("tag", .string tag), ("payload", payload)]
  | .abandoned tag b => .object [("tag", .string tag), ("abandon", .bool b)]
  | .dispatched tag d => .object [("tag", .string tag), ("dispatch", deliveredText d)]

/-- How many processes are pending, and what was noted since the last look. -/
def view (w : World) : List (String × Json) × World :=
  let s := w.stage
  let fields := [("pending", .ofNat s.service.desk.correlator.pendingCount)] ++
    unlessEmpty "calls" (s.notes.map ofNote) ++
    unlessEmpty "requests" (s.requests.map Wire.encode) ++
    unlessEmpty "during" (s.interjections.map deliveredText)
  let (received, w) := { w with
    stage := { s with notes := [], requests := [], interjections := [] } }.takeReceived fun l => l
  (fields ++ received, w)

def start (process : String) (callbackBase : Option String) : World :=
  .ofService ⟨.empty process callbackBase, none, .empty⟩

end Foreman.Rehearsal.Office
