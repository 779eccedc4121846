import Foreman.Rehearsal.Stage

/-!
How builds go on in a rehearsal: errands are answered in the order in which they were asked, as
soon as the script has an answer, and everything else as soon as it can.
-/

namespace Foreman.Rehearsal.Stage

/-- Notes the errand of a step. -/
def after (s : Stage) (c : Coordinator) (errand : Option Errand) : Stage :=
  { s.withCoordinator c with errands := s.errands ++ errand.toList }.tick

/-- The job that a drive carries out. -/
def job? (c : Coordinator) (k : Nat) : Option (Task × BuildConfiguration) := do
  let d ← c.drives[k]?
  let t ← c.task? d.task
  some (t, t.job.configuration)

/-- Takes out the first ending for a name. -/
def takeEnding (name : String) : List (String × Except DriverError BuildDetails) →
    Option (Except DriverError BuildDetails × List (String × Except DriverError BuildDetails))
  | [] => none
  | (n, e) :: rest =>
    if n = name then some (e, rest)
    else (takeEnding name rest).map fun (e', rest) => (e', (n, e) :: rest)

/-- Answers an errand if the script has an answer. -/
def answerErrand (s : Stage) (c : Coordinator) : Errand → Option Stage
  | .start k => do
    let (t, configuration) ← job? c k
    match s.driver.get? configuration.name with
    | some .hangs => none
    | some (.fails e) =>
      let (c, errand) ← c.started k (.error e)
      some (s.after c errand)
    | _ =>
      let (c, errand) ← c.started k (.ok ())
      some ({ s with started := s.started ++ [(configuration.name, t.repository)] }.after c errand)
  | .monitor k => do
    let (_, configuration) ← job? c k
    let (ending, endings) ← takeEnding configuration.name s.endings
    let (c, errand) ← c.monitored k ending s.now
    some ({ s with endings }.after c errand)
  | .publish k n qualifier => do
    let (c, errand) ← c.forwarded k
    some ({ s with service := s.service.publishBuild Player.send n qualifier }.after c errand)
  | .save p r => do
    let fault ← s.answer .saveRecord
    let (c, errand) ← c.saved p
    let s := if fault.isNone then
        { s with service := s.service.withStore (s.service.store.saveRecord r) }
      else s
    some (s.after c errand)
  | .report p url r => do
    let (c, errand) ← c.reported p
    some ({ s with reports := s.reports ++ [(url, r)] }.after c errand)

/-- Answers the first errand that has an answer. -/
def answerErrands (s : Stage) (c : Coordinator) (before : List Errand) : List Errand → Option Stage
  | [] => none
  | e :: rest =>
    match { s with errands := before ++ rest }.answerErrand c e with
    | some s => some s
    | none => answerErrands s c (before ++ [e]) rest

/-- Hands the first entry of the queue to the first in line. -/
def handOut (s : Stage) (c : Coordinator) : Option Stage := do
  let (p, e, queue) ← c.workshop.queue.take?
  if s.collectors.contains p then
    some ({ s with collectors := s.collectors.insert p (some e) }.withCoordinator
      { c with workshop := { c.workshop with queue } })
  else
    let (c, errand) ← c.take s.now s.id
    some (s.after c errand)

/-- One step of the builds, if one is possible. -/
def stepBuilds (s : Stage) : Option Stage := do
  let c ← s.service.coordinator
  let stepOf (step : Nat → Option (Coordinator × Option Errand)) (n : Nat) : Option Stage :=
    ((List.range n).findSome? step).map fun (c, errand) => s.after c errand
  s.answerErrands c [] s.errands
    <|> stepOf (fun k => c.drive k s.now) c.drives.length
    <|> stepOf c.forward c.forwards.length
    <|> s.handOut c

end Foreman.Rehearsal.Stage
