import Foreman.Rehearsal.Reply
import Foreman.Rehearsal.Run
import Foreman.Watcher

/-!
Rehearsals of tasks with their running set, their queue and its processors.
-/

namespace Foreman.Rehearsal

structure Bench where
  stage : Stage
  /-- The tasks by their names. -/
  names : Table String Nat
  watchers : Table Nat Watcher
  /-- The signals of the running set that were seen. -/
  signals : Nat
  /-- Those who wait for an entry of the queue, by their names. -/
  takers : Table String Nat

namespace Bench

inductive Cue where
  | create (name : String) (c : BuildConfiguration) (callbackUrl : Option String)
  | createJob (name : String) (j : BuildJob)
  | submit (name : String)
  | remove (name : String)
  | update (name : String) (s : TaskStatus)
  | fail (name : String) (e : DriverError)
  | complete (name : String)
  | result (name : String)
  | record (name : String)
  | job (name : String)
  | setDetails (name : String) (d : BuildDetails)
  | setRepository (name : String) (r : RepositoryConfiguration)
  | watch (name : String)
  | takeStream (name : String)
  | readStream (name : String)
  | dropStream (name : String)
  | receive (name : String)
  | dropResult (name : String)
  | tryTake
  | enqueue (name : String) (o : Outcome)
  | process
  | runProcessor
  | beginTake (taker : String)
  | taken (taker : String)
  | cancelTake (taker : String)
  | reports
  | setReportFault (f : Option EngineFault)
  | records
  | setStorage (c : StorageCall) (conduct : Conduct StorageFault)
  | generation
  | lookUp (id : BuildIdentity)
  | compare (a b : String)

def ofRecord (r : BuildRecord) : Json :=
  match Wire.encode r with
  | .object fields => .object (fields.filter (·.1 ≠ "id"))
  | v => v

def ofReport (r : String × BuildResult) : Json :=
  .object [("url", .string r.1), ("result", Wire.encode r.2), ("success", .bool r.2.isSuccess)]

def empty (reports : Bool) : Bench :=
  ⟨.ofService ⟨.empty "" none, some (.empty reports), .empty⟩, .empty, .empty, 0, .empty⟩

def coordinator (b : Bench) : Coordinator := b.stage.service.coordinator.getD (.empty false)

def workshop (b : Bench) : Workshop := b.coordinator.workshop

def withCoordinator (b : Bench) (c : Coordinator) : Bench :=
  { b with stage := (b.stage.withCoordinator c).tick }

def withWorkshop (b : Bench) (w : Workshop) : Bench :=
  b.withCoordinator { b.coordinator with workshop := w }

def withQueue (b : Bench) (q : TaskQueue QueuedTask) : Bench :=
  b.withWorkshop { b.workshop with queue := q }

/-- The name of a task; one whose name went over to another has none. -/
def nameOf (b : Bench) (i : Nat) : String :=
  ((b.names.entries.find? (·.2 = i)).map (·.1)).getD ""

def watcher (b : Bench) (i : Nat) : Watcher := (b.watchers.get? i).getD .start

def withWatcher (b : Bench) (i : Nat) (f : Watcher → Watcher) : Bench :=
  { b with watchers := b.watchers.insert i (f (b.watcher i)) }

/-- Runs until nothing can go on, or until `budget` steps are done. -/
def run (budget : Nat) (b : Bench) : Bench := { b with stage := b.stage.run budget }

/-- A processor that only does what it is told to. -/
def addProcessor (c : Coordinator) : Coordinator :=
  { c with processors := c.processors ++ [⟨.stopped, true⟩] }

def create (b : Bench) (name : String) (j : BuildJob) : Reply × Bench :=
  let w := b.workshop
  let b' := b.withWorkshop (w.create (.new j b.stage.now))
  (.value j.identity, { b' with names := b'.names.insert name w.tasks.length })

def ofEntry (b : Bench) (e : QueuedTask) : Json :=
  .object [("task", .string (b.nameOf e.task)), ("outcome", match e.outcome with
    | .finished s => .object [("finished", Wire.encode s)]
    | .errored e => .object [("errored", Wire.encode e)])]

/-- Takes an entry past the line and begins to process it. -/
def process (b : Bench) : Reply × Bench :=
  match b.workshop.queue.tryTake? with
  | none => (.nothing, b)
  | some (e, queue) =>
    let c := addProcessor { b.coordinator with workshop := { b.workshop with queue } }
    match c.accept b.coordinator.processors.length e b.stage.now b.stage.id with
    | some (c, errand) => (.ok (b.ofEntry e), { b with stage := b.stage.after c errand })
    | none => (.nameless, b)

/-- Runs a processor until it is idle and stops it. -/
def runProcessor (budget : Nat) (b : Bench) : Bench :=
  let b' := (b.withCoordinator b.coordinator.spawn).run budget
  b'.withCoordinator (b'.coordinator.stop b.coordinator.processors.length)

def beginTake (b : Bench) (taker : String) : Bench :=
  let p := b.coordinator.processors.length
  let b := (b.withCoordinator (addProcessor b.coordinator)).withQueue (b.workshop.queue.wait p)
  { b with
    stage := { b.stage with collectors := b.stage.collectors.insert p none }
    takers := b.takers.insert taker p }

/-- What a taker has got. -/
def taken (b : Bench) (taker : String) : Reply :=
  match (b.takers.get? taker).bind b.stage.collectors.get? with
  | some (some e) => .ok (b.ofEntry e)
  | some none => .word "pending"
  | none => .nothing

/-- The records of all tasks that have names. -/
def records (b : Bench) : Json :=
  let store := b.stage.service.store
  let tasks := b.names.values.filterMap b.workshop.task?
  let identities := (tasks.map Task.identity).eraseDups
  let rows := identities.flatMap fun id => store.recordsOf id.configuration
  .object [("len", .ofNat store.records.size), ("empty", .bool store.records.isEmpty),
    ("records", .array (sortByText (rows.map ofRecord)))]

def receive (b : Bench) (i : Nat) (t : Task) : Reply × Bench :=
  match (b.watcher i).result t with
  | .pending => (.word "pending", b)
  | .closed => (.word "closed", b)
  | .dropped => (.word "dropped", b)
  | .ready r =>
    (.ok (.object [("result", Wire.encode r), ("success", .bool r.isSuccess)]),
      b.withWatcher i (·.takeResult t))

def play (budget : Nat) (b : Bench) (cue : Cue) : Reply × Bench :=
  let w := b.workshop
  let named (name : String) (act : Nat → Task → Reply × Bench) : Reply × Bench :=
    match b.names.get? name with
    | some i => match w.task? i with
      | some t => act i t
      | none => (.nameless, b)
    | none => (.nameless, b)
  let tried (r : Except Fault Workshop) : Reply × Bench :=
    (.ofExcept r fun _ => .null, b.withWorkshop (r.toOption.getD w))
  match cue with
  | .create name c callbackUrl => b.create name ⟨c, b.stage.now, callbackUrl⟩
  | .createJob name j => b.create name j
  | .submit name => named name fun i _ => tried (w.submit i)
  | .remove name => named name fun i t =>
    (.flag (w.running.holds t.identity i), b.withWorkshop (w.remove i))
  | .update name s => named name fun i _ => tried (w.update i b.stage.now s)
  | .fail name e => named name fun i _ => (.nothing, b.withWorkshop (w.fail i e))
  | .complete name => named name fun i _ => tried (w.complete i)
  | .result name => named name fun _ t => (.value t.result, b)
  | .record name => named name fun _ t => (.ok (ofRecord (t.record b.stage.id)), b)
  | .job name => named name fun _ t =>
    (.ok (.object [("job", Wire.encode t.job), ("identity", Wire.encode t.identity)]), b)
  | .setDetails name d => named name fun i _ =>
    (.value d, b.withWorkshop (w.change i fun t => { t with details := some d }))
  | .setRepository name r => named name fun i t =>
    (.ok (.array [Wire.ofOption Wire.encode t.repository, Wire.encode r]),
      b.withWorkshop (w.change i fun t => { t with repository := some r }))
  | .watch name => named name fun i t =>
    (.ok (.object [("changed", .bool ((b.watcher i).hasChanged t)),
      ("status", Wire.encode t.shown)]), b.withWatcher i (·.look t))
  | .takeStream name => named name fun i _ =>
    (.flag !(b.watcher i).tookStream, b.withWatcher i Watcher.takeStream)
  | .readStream name => named name fun i t =>
    match (b.watcher i).news? t with
    | some l => (.ok (Wire.ofList (fun s => .string (TaskStatus.text s)) l),
      b.withWatcher i (·.readStream t))
    | none => (.nothing, b)
  | .dropStream name => named name fun i _ => (.nothing, b.withWatcher i Watcher.dropStream)
  | .receive name => named name b.receive
  | .dropResult name => named name fun i _ => (.nothing, b.withWatcher i Watcher.dropResult)
  | .tryTake =>
    match w.queue.tryTake? with
    | some (e, q) => (.ok (b.ofEntry e), b.withQueue q)
    | none => (.nothing, b)
  | .enqueue name o => named name fun i _ => (.nothing, b.withWorkshop (w.enqueue i (some o)))
  | .process => b.process
  | .runProcessor => (.flag true, b.runProcessor budget)
  | .beginTake taker => (.nothing, b.beginTake taker)
  | .taken taker => (b.taken taker, b)
  | .cancelTake taker =>
    match b.takers.get? taker with
    | some p => (.nothing, b.withQueue (w.queue.cancel p))
    | none => (.nothing, b)
  | .reports =>
    (.ok (Wire.ofList ofReport b.stage.reports), { b with stage := { b.stage with reports := [] } })
  | .setReportFault f => (.nothing, { b with stage := { b.stage with reportFault := f } })
  | .records => (.ok b.records, b)
  | .setStorage c conduct =>
    (.nothing, { b with stage := { b.stage with storage := b.stage.storage.insert c conduct } })
  | .generation =>
    (.ok (.object [("changed", .bool (b.signals < w.running.signals)),
      ("value", .ofNat w.running.generation.toNat)]), { b with signals := w.running.signals })
  | .lookUp id =>
    (.ok (.object [("contains", .bool (w.running.contains id)),
      ("get", Wire.ofOption (fun i => .string (b.nameOf i)) (w.running.get? id))]), b)
  | .compare x y => named x fun _ x => named y fun _ y =>
    let same : Json := .bool (x.identity = y.identity)
    (.ok (.object [("equal", same), ("same_hash", same)]), b)

/-- The tasks that have names, the running set and the queue. -/
def view (b : Bench) : List (String × Json) :=
  let w := b.workshop
  let tasks := b.names.entries.filterMap fun (name, i) => (w.task? i).map fun t =>
    (name, Json.object [("status", .string t.status.text), ("completed", .bool t.isCompleted),
      ("error", Wire.ofOption (fun e => .string (DriverError.text e)) t.lastError)])
  [("tasks", .object tasks),
    ("running", Wire.ofList .string (sortTexts (w.running.members.values.map b.nameOf))),
    ("running_len", .ofNat w.running.size), ("running_empty", .bool w.running.isEmpty),
    ("queue_len", .number (.whole w.queue.count)), ("queue_empty", .bool (w.queue.count = 0))]

end Bench

end Foreman.Rehearsal
