import Foreman.DependencyWait
import Foreman.Notification
import Foreman.Workshop

/-!
Builds from their submission to their result. Each build is driven through the driver once its
dependencies are over, each status is forwarded to the clients, and processors save the records of
finished builds, report their results and complete them. All of this goes on step by step, one step
for each stretch of work between two waits.
-/

namespace Foreman

/-- The builds that must be over before the job runs; itself it does not wait for. -/
def BuildJob.dependencies (j : BuildJob) : List BuildIdentity :=
  (j.configuration.dependencies.map BuildIdentity.mk).filter (· ≠ j.identity)

inductive DrivePhase where
  | arriving
  | waiting (w : DependencyWait)
  /-- The driver is to start the build. -/
  | starting
  /-- The driver is to say how the build went. -/
  | monitoring
  | ended
deriving DecidableEq

structure Drive where
  task : Nat
  phase : DrivePhase
deriving DecidableEq

inductive ForwardPhase where
  | listening
  | sending (s : TaskStatus)
  | ended
deriving DecidableEq

structure Forward where
  task : Nat
  /-- How many statuses were taken. -/
  taken : Nat
  phase : ForwardPhase
deriving DecidableEq

inductive ProcessorPhase where
  | idle
  | saving (e : QueuedTask) (r : BuildRecord)
  | reporting (e : QueuedTask)
  | stopped
deriving DecidableEq

structure Processor where
  phase : ProcessorPhase
  /-- Stops after the build in hand. -/
  stopping : Bool
deriving DecidableEq

structure Coordinator where
  workshop : Workshop
  drives : List Drive
  forwards : List Forward
  processors : List Processor
  /-- Whether results are reported to the builds' callback URLs. -/
  reports : Bool

/-- What a step asks of others: the driver, the clients, the repository, and whoever takes
reports. -/
inductive Errand where
  | start (drive : Nat)
  | monitor (drive : Nat)
  | publish (forward : Nat) (n : Notification) (qualifier : ResourceId)
  | save (processor : Nat) (r : BuildRecord)
  | report (processor : Nat) (url : String) (r : BuildResult)

namespace Coordinator

def empty (reports : Bool) : Coordinator := ⟨.empty, [], [], [], reports⟩

def running (c : Coordinator) : RunningSet := c.workshop.running

def task? (c : Coordinator) (i : Nat) : Option Task := c.workshop.task? i

/-- Takes a build in unless one of the same configuration is in flight. Its number is the count of
those before it. -/
def submit (c : Coordinator) (configuration : BuildConfiguration) (callbackUrl : Option String)
    (now : Instant) : Except Fault Coordinator := do
  let i := c.workshop.tasks.length
  let w ← (c.workshop.create (.new ⟨configuration, now, callbackUrl⟩ now)).submit i
  return { c with
    workshop := w
    drives := c.drives ++ [⟨i, .arriving⟩]
    forwards := c.forwards ++ [⟨i, 0, .listening⟩] }

/-! ### Drives -/

def withDrive (c : Coordinator) (k : Nat) (p : DrivePhase) : Coordinator :=
  { c with drives := c.drives.modify k fun d => { d with phase := p } }

/-- Gives the task of a drive a new status; if it refuses, the drive ends. -/
def advance (c : Coordinator) (k task : Nat) (now : Instant) (s : TaskStatus) (p : DrivePhase) :
    Coordinator :=
  match c.workshop.update task now s with
  | .ok w => { c with workshop := w }.withDrive k p
  | .error _ => c.withDrive k .ended

/-- After a look at the dependencies: runs the build if none is in flight, else waits, which the
task reports the first time. -/
def proceed (c : Coordinator) (k task : Nat) (w : DependencyWait) (now : Instant)
    (reported : Bool) : Coordinator × Option Errand :=
  if w.isOver then
    match c.workshop.update task now ⟨.build, .running⟩ with
    | .ok w => ({ c with workshop := w }.withDrive k .starting, some (.start k))
    | .error _ => (c.withDrive k .ended, none)
  else if reported then (c.withDrive k (.waiting w), none)
  else (c.advance k task now ⟨.build, .waitingForDependencies⟩ (.waiting w), none)

/-- A drive looks at its dependencies, when it begins and after each signal of the running set. -/
def drive (c : Coordinator) (k : Nat) (now : Instant) : Option (Coordinator × Option Errand) := do
  let d ← c.drives[k]?
  let t ← c.task? d.task
  match d.phase with
  | .arriving =>
    let w := (DependencyWait.start t.job.dependencies c.running).pass c.running
    some (c.proceed k d.task w now false)
  | .waiting w =>
    if w.seen = c.running.signals then none
    else some (c.proceed k d.task ((w.wake c.running).pass c.running) now true)
  | _ => none

/-- The driver has answered whether it started the build. -/
def started (c : Coordinator) (k : Nat) (answer : Except DriverError Unit) :
    Option (Coordinator × Option Errand) := do
  let d ← c.drives[k]?
  match d.phase, answer with
  | .starting, .ok () => some (c.withDrive k .monitoring, some (.monitor k))
  | .starting, .error e =>
    some ({ c with workshop := c.workshop.fail d.task e }.withDrive k .ended, none)
  | _, _ => none

/-- The status of a build that ran to its end. -/
def endStatus (d : BuildDetails) : TaskStatus :=
  ⟨.collectResults, if d.success then .completed else .failed⟩

/-- The driver has said how the build went. -/
def monitored (c : Coordinator) (k : Nat) (answer : Except DriverError BuildDetails)
    (now : Instant) : Option (Coordinator × Option Errand) := do
  let d ← c.drives[k]?
  match d.phase, answer with
  | .monitoring, .ok details =>
    let w := c.workshop.change d.task fun t => { t with details := some details }
    some ({ c with workshop := w }.advance k d.task now (endStatus details) .ended, none)
  | .monitoring, .error e =>
    some ({ c with workshop := c.workshop.fail d.task e }.withDrive k .ended, none)
  | _, _ => none

/-! ### Forwards -/

def withForward (c : Coordinator) (k : Nat) (f : Forward) : Coordinator :=
  { c with forwards := c.forwards.set k f }

/-- Takes the next status that the task has published and sends it to the clients. -/
def forward (c : Coordinator) (k : Nat) : Option (Coordinator × Option Errand) := do
  let f ← c.forwards[k]?
  let t ← c.task? f.task
  let s ← t.published[f.taken]?
  match f.phase with
  | .listening =>
    let configuration := t.job.configuration
    some (c.withForward k { f with taken := f.taken + 1, phase := .sending s },
      some (.publish k (.buildStatusChanged configuration.id configuration.name s)
        configuration.id))
  | _ => none

/-- The clients have been sent the status; after a terminal one nothing follows. -/
def forwarded (c : Coordinator) (k : Nat) : Option (Coordinator × Option Errand) := do
  let f ← c.forwards[k]?
  match f.phase with
  | .sending s =>
    some (c.withForward k { f with phase := if s.isTerminal then .ended else .listening }, none)
  | _ => none

/-! ### Processors -/

def withProcessor (c : Coordinator) (p : Nat) (phase : ProcessorPhase) : Coordinator :=
  { c with processors := c.processors.modify p fun r => { r with phase } }

/-- A new processor gets in line. -/
def spawn (c : Coordinator) : Coordinator :=
  { c with
    processors := c.processors ++ [⟨.idle, false⟩]
    workshop := { c.workshop with queue := c.workshop.queue.wait c.processors.length } }

/-- A processor that is idle stops, another one after the build in hand. -/
def stop (c : Coordinator) (p : Nat) : Coordinator :=
  match c.processors[p]? with
  | some ⟨.idle, _⟩ =>
    { c with workshop := { c.workshop with queue := c.workshop.queue.cancel p } }.withProcessor p
      .stopped
  | _ => { c with processors := c.processors.modify p fun r => { r with stopping := true } }

/-- Begins with an entry of the queue: a failed build gets its status, and the record is saved. -/
def accept (c : Coordinator) (p : Nat) (e : QueuedTask) (now : Instant) (id : ResourceId) :
    Option (Coordinator × Option Errand) := do
  let w := c.workshop.settle e now
  let t ← w.task? e.task
  let r := t.record id
  some ({ c with workshop := w }.withProcessor p (.saving e r), some (.save p r))

/-- The first processor in line takes the first entry. -/
def take (c : Coordinator) (now : Instant) (id : ResourceId) :
    Option (Coordinator × Option Errand) := do
  let (p, e, queue) ← c.workshop.queue.take?
  { c with workshop := { c.workshop with queue } }.accept p e now id

/-- Completes the build in hand; the processor gets in line again or stops. -/
def finish (c : Coordinator) (p : Nat) (e : QueuedTask) : Coordinator :=
  let c := match c.workshop.complete e.task with
    | .ok w => { c with workshop := w }
    | .error _ => c
  match c.processors[p]? with
  | some ⟨_, false⟩ =>
    { c with workshop := { c.workshop with queue := c.workshop.queue.wait p } }.withProcessor p
      .idle
  | _ => c.withProcessor p .stopped

/-- The repository has answered, in whatever way. The result is reported if that is due. -/
def saved (c : Coordinator) (p : Nat) : Option (Coordinator × Option Errand) := do
  let r ← c.processors[p]?
  match r.phase with
  | .saving e _ =>
    let t ← c.task? e.task
    match c.reports, t.job.callbackUrl with
    | true, some url => some (c.withProcessor p (.reporting e), some (.report p url t.result))
    | _, _ => some (c.finish p e, none)
  | _ => none

/-- Whoever takes reports has answered, in whatever way. -/
def reported (c : Coordinator) (p : Nat) : Option (Coordinator × Option Errand) := do
  let r ← c.processors[p]?
  match r.phase with
  | .reporting e => some (c.finish p e, none)
  | _ => none

/-! ### Steps -/

inductive Action where
  | submit (configuration : BuildConfiguration) (callbackUrl : Option String) (now : Instant)
  | drive (k : Nat) (now : Instant)
  | started (k : Nat) (answer : Except DriverError Unit)
  | monitored (k : Nat) (answer : Except DriverError BuildDetails) (now : Instant)
  | forward (k : Nat)
  | forwarded (k : Nat)
  | spawn
  | stop (p : Nat)
  | take (now : Instant) (id : ResourceId)
  | saved (p : Nat)
  | reported (p : Nat)

/-- One step, if the action is possible; a build that is refused changes nothing. -/
def step (c : Coordinator) : Action → Option (Coordinator × Option Errand)
  | .submit configuration url now =>
    some ((c.submit configuration url now).toOption.getD c, none)
  | .drive k now => c.drive k now
  | .started k answer => c.started k answer
  | .monitored k answer now => c.monitored k answer now
  | .forward k => c.forward k
  | .forwarded k => c.forwarded k
  | .spawn => some (c.spawn, none)
  | .stop p => some (c.stop p, none)
  | .take now id => c.take now id
  | .saved p => c.saved p
  | .reported p => c.reported p

/-! ### Results -/

def ProcessorPhase.carries (i : Nat) : ProcessorPhase → Bool
  | .saving e _ | .reporting e => e.task = i
  | _ => false

/-- Whether anything may still complete the task. -/
def isCarried (c : Coordinator) (i : Nat) : Bool :=
  c.running.members.values.contains i || c.workshop.queue.entries.any (·.task = i) ||
    c.drives.any (fun d => d.task = i ∧ d.phase ≠ .ended) ||
    c.processors.any (ProcessorPhase.carries i ·.phase)

def dropped (id : BuildIdentity) : Fault :=
  .internal ("build " ++ id.text ++ " was dropped before completing")

/-- What one who waits for a task gets, if the wait is over. A task that its submitter holds is not
dropped. -/
def outcome? (c : Coordinator) (i : Nat) (held : Bool) : Option (Except Fault BuildResult) := do
  let t ← c.task? i
  match t.completion with
  | some r => some (.ok r)
  | none => if held || c.isCarried i then none else some (.error (dropped t.identity))

end Coordinator

end Foreman
