import Foreman.Rehearsal.Bench
import Foreman.Rehearsal.World

/-!
Rehearsals of the coordinator.
-/

namespace Foreman.Rehearsal.Yard

inductive Cue where
  | build (label : String) (c : BuildConfiguration) (callbackUrl : Option String)
    (r : Option RepositoryConfiguration)
  | setDriver (name : String) (conduct : Conduct DriverError)
  | finish (name : String) (ending : Except DriverError BuildDetails)
  | spawn (count : Nat)
  | shutdown
  | wait (label : String)
  | drop (label : String)
  | update (label : String) (s : TaskStatus)
  | complete (label : String)
  /-- Takes the task out of the running set. -/
  | evict (label : String)
  /-- Takes an entry of the queue and drops it. -/
  | discard
  | records (configuration : ResourceId)
  | setStorage (c : StorageCall) (conduct : Conduct StorageFault)
  | setReportFault (f : Option EngineFault)
  | addClient (name : String) (p : Player)

def build (w : World) (label : String) (configuration : BuildConfiguration)
    (callbackUrl : Option String) (repository : Option RepositoryConfiguration) : Reply × World :=
  match w.coordinator.submit configuration callbackUrl w.stage.now with
  | .error f => (.fault f, w)
  | .ok c =>
    let i := w.coordinator.workshop.tasks.length
    let c := { c with workshop := c.workshop.change i fun t => { t with repository } }
    let shown := (c.task? i).map (·.shown)
    (.ok (.object [("identity", Wire.encode configuration.identity),
        ("status", Wire.ofOption (fun s => .string (TaskStatus.text s)) shown)]),
      { w.withCoordinator c with
        labels := w.labels.insert label i
        handles := w.handles.insert label true })

/-- Stops all processors; the reply is how many have stopped then. -/
def shutdown (budget : Nat) (w : World) : Reply × World :=
  let c := w.coordinator
  let live := (List.range c.processors.length).filter fun p =>
    (c.processors[p]?).any (·.phase ≠ .stopped)
  let w := (w.withCoordinator (live.foldl Coordinator.stop c)).run budget
  (.ok (.ofNat (live.countP fun p => (w.coordinator.processors[p]?).any (·.phase = .stopped))), w)

/-- Lets go of the task and waits for its result. -/
def wait (budget : Nat) (w : World) (label : String) (i : Nat) : Reply × World :=
  let w := { w with handles := w.handles.insert label false }.run budget
  match w.coordinator.outcome? i false with
  | none => (.word "pending", w)
  | some r => (.ofExcept r Wire.encode, { w with handles := w.handles.erase label })

def play (budget : Nat) (w : World) (cue : Cue) : Reply × World :=
  let c := w.coordinator
  let held (label : String) (act : Nat → Reply × World) : Reply × World :=
    match w.handles.get? label, w.labels.get? label with
    | some _, some i => act i
    | _, _ => (.word "unknown", w)
  let tried (r : Except Fault Workshop) : Reply × World :=
    (.ofExcept r fun _ => .null,
      w.withCoordinator { c with workshop := r.toOption.getD c.workshop })
  match cue with
  | .build label configuration callbackUrl repository =>
    build w label configuration callbackUrl repository
  | .setDriver name conduct => (.nothing, w.setDriver name conduct)
  | .finish name ending => (.nothing, w.addEnding name ending)
  | .spawn count => (.nothing, w.withCoordinator (Nat.repeat Coordinator.spawn count c))
  | .shutdown => shutdown budget w
  | .wait label => held label (wait budget w label)
  | .drop label => (.nothing, { w with handles := w.handles.erase label })
  | .update label s => held label fun i => tried (c.workshop.update i w.stage.now s)
  | .complete label => held label fun i => tried (c.workshop.complete i)
  | .evict label => held label fun i =>
    (.flag ((c.task? i).any fun t => c.running.holds t.identity i),
      w.withCoordinator { c with workshop := c.workshop.remove i })
  | .discard =>
    match c.workshop.queue.tryTake? with
    | some (_, queue) =>
      (.flag true, w.withCoordinator { c with workshop := { c.workshop with queue } })
    | none => (.flag false, w)
  | .records id =>
    (w.ask .listRecords (Wire.ofList Bench.ofRecord (w.store.recordsOf id)), w)
  | .setStorage call conduct => (.nothing, w.setStorage call conduct)
  | .setReportFault f => (.nothing, { w with stage := { w.stage with reportFault := f } })
  | .addClient name p => (.nothing, w.addClient name p)

/-- Messages by the names of their builds, those of one build in order. -/
def byName (l : List Notification) : List Notification :=
  let name : Notification → String
    | .buildStatusChanged _ name _ => name
    | _ => ""
  l.mergeSort fun a b => name a ≤ name b

def ofStarted (s : String × Option RepositoryConfiguration) : Json :=
  .object [("name", .string s.1), ("repository", Wire.ofOption Wire.encode s.2)]

/-- The builds and the records, and what was noted since the last look. -/
def view (w : World) : List (String × Json) × World :=
  let c := w.coordinator
  let builds := w.labels.entries.filterMap fun (label, i) =>
    (c.task? i).map fun t => (label, Json.string t.shown.text)
  let running := c.running.members.values.filterMap fun i =>
    (c.task? i).map fun t => t.job.configuration.name
  let fields := [("builds", .object builds),
      ("running", Wire.ofList .string (sortTexts running)),
      ("queue_len", .number (.whole c.workshop.queue.count)),
      ("records", .ofNat w.store.records.size)] ++
    unlessEmpty "started" (sortByText (w.stage.started.map ofStarted)) ++
    unlessEmpty "callbacks" (sortByText (w.stage.reports.map Bench.ofReport))
  let (received, w) :=
    { w with stage := { w.stage with started := [], reports := [] } }.takeReceived byName
  (fields ++ received, w)

def start (reports : Bool) : World := .ofService ⟨.empty "" none, some (.empty reports), .empty⟩

end Foreman.Rehearsal.Yard
