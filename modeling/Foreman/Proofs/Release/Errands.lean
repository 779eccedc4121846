import Foreman.Proofs.Release.Files

/-!
What one recording does to the rows. Its errand is given by the report and by the rows as they are
when the report comes: the attempt is closed with an account of the report, and after a result the
builds it names get their attributes, the milestone ends, and its version is left without a current
milestone if it was this one. Step by step the recording keeps to its errand as long as nobody else
changes the rows that it is about.
-/

namespace Foreman

open Release

namespace Store

def VersionsKeyed (s : Store) : Prop := ∀ id v, s.versions.get? id = some v → v.id = id

def RecordsKeyed (s : Store) : Prop := ∀ id r, s.records.get? id = some r → r.id = id

instance (s : Store) : Decidable s.VersionsKeyed :=
  decidable_of_iff (∀ p ∈ s.versions.entries, p.2.id = p.1) <| by
    simp only [VersionsKeyed, Table.get?_eq_some, Prod.forall]

instance (s : Store) : Decidable s.RecordsKeyed :=
  decidable_of_iff (∀ p ∈ s.records.entries, p.2.id = p.1) <| by
    simp only [RecordsKeyed, Table.get?_eq_some, Prod.forall]

end Store

namespace Release

/-- The text of the passages, all rows being looked up in the store `s`. -/
def details (s : Store) : List Passage → String
  | [] => ""
  | p :: ahead => p.text s.records.get? s.artifacts.get? ++ details s ahead

theorem mem_builds_of_passage {r : ReleaseResult} {b : BuildImport}
    (h : .build b ∈ passages r) : b ∈ r.builds := by
  obtain ⟨b', hb', h⟩ := List.mem_flatMap.mp h
  obtain rfl : b = b' := by
    rcases List.mem_cons.mp h with h | h
    · exact Passage.build.inj h
    · split at h <;> simp at h
  exact hb'

/-- The record with what the imports say about its build, one after the other. -/
def importAll (bs : List BuildImport) (r : BuildRecord) : BuildRecord :=
  bs.foldl (fun r b => if b.record = r.id then ReleaseDesk.importedRecord r b else r) r

def Report.builds : Report → List BuildImport
  | .result r => r.builds
  | .failure _ => []

/-- The build records that the report is about. -/
def Report.named (r : Report) : List ResourceId := r.builds.map (·.record)

/-- What a recording has to do: the report on an attempt, with the rows as they are when it comes
in. -/
structure Errand where
  start : Store
  milestone : Milestone
  attempt : ReleaseAttempt
  report : Report

/-- The rows of an errand as they become: the attempt, the imports that its records have from the
report, the milestone, and the current milestone of its version if that was this one. -/
structure Progress where
  attempt : ReleaseAttempt
  imported : List BuildImport
  milestone : Milestone
  current : Option ResourceId

namespace Errand

variable (c : Errand)

/-- What is added to the log of the attempt. -/
def account : String :=
  match c.report with
  | .result r => heading r ++ details c.start (passages r)
  | .failure payload => failureText payload

def verdict : AttemptStatus :=
  match c.report with
  | .result r => r.status.attemptStatus
  | .failure _ => .systemError

/-- What is left to do after the attempt. -/
def after : Option (Milestone × ReleaseResult) :=
  match c.report with
  | .result r => some (c.milestone, r)
  | .failure _ => none

def closed (now : Instant) : ReleaseAttempt :=
  ReleaseDesk.closedAttempt c.attempt c.account c.verdict now

def ended (now : Instant) : Milestone := { c.milestone with endDate := some now }

/-- Nothing is done yet. -/
def first : Progress := ⟨c.attempt, [], c.milestone, some c.milestone.id⟩

/-- The attempt is closed, and some records have their imports. -/
def told (now : Instant) (done : List BuildImport) : Progress :=
  ⟨c.closed now, done, c.milestone, some c.milestone.id⟩

/-- The milestone has ended as well. -/
def past (now later : Instant) (current : Option ResourceId) : Progress :=
  ⟨c.closed now, c.report.builds, c.ended later, current⟩

/-- The version whose current milestone is the one of the errand. -/
def Current (v : ProductVersion) : Prop :=
  c.start.versions.get? c.milestone.productVersion = some v ∧
    v.currentMilestone = some c.milestone.id

/-- How far the errand has got when the recording is in some phase. -/
inductive Course : RecordingPhase → Progress → Prop
  | findingMilestone {report} (hr : c.report = report) :
      Course (.findingMilestone report) c.first
  | describing {r text ahead} (hr : c.report = .result r)
      (rest : text ++ details c.start ahead = c.account)
      (part : ∀ b, .build b ∈ ahead → b.record ∈ c.report.named) :
      Course (.describing c.milestone r text ahead) c.first
  | findingAttempt : Course (.findingAttempt c.account c.verdict c.after) c.first
  | savingAttempt {now} : Course (.savingAttempt (c.closed now) c.after) c.first
  | announcing {now} : Course (.announcing (c.closed now) c.after) (c.told now [])
  | findingRecord {r now done b ahead} (hr : c.report = .result r)
      (split : r.builds = done ++ b :: ahead) :
      Course (.findingRecord c.milestone b ahead) (c.told now done)
  | savingRecord {r now done b ahead row} (hr : c.report = .result r)
      (split : r.builds = done ++ b :: ahead) (hrow : c.start.records.get? b.record = some row) :
      Course (.savingRecord c.milestone (ReleaseDesk.importedRecord (importAll done row) b) ahead)
        (c.told now done)
  | savingMilestone {r now later} (hr : c.report = .result r) :
      Course (.savingMilestone (c.ended later)) (c.told now c.report.builds)
  | findingVersion {r now later} (hr : c.report = .result r) :
      Course (.findingVersion c.milestone.productVersion)
        (c.past now later (some c.milestone.id))
  | savingVersion {r now later v} (hr : c.report = .result r) (hv : c.Current v) :
      Course (.savingVersion { v with currentMilestone := none })
        (c.past now later (some c.milestone.id))
  | recorded {r now later} (hr : c.report = .result r) : Course .ended (c.past now later none)
  | failed {payload now} (hp : c.report = .failure payload) : Course .ended (c.told now [])

/-- The rows that the errand is about are as far as `g` says, and so are those it only reads. -/
structure Rows (s : Store) (g : Progress) : Prop where
  attempt : s.attempts.get? c.attempt.id = some g.attempt
  milestone : s.milestones.get? c.milestone.id = some g.milestone
  records : ∀ id ∈ c.report.named,
    s.records.get? id = (c.start.records.get? id).map (importAll g.imported)
  current : ∀ v, c.Current v → s.versions.get? c.milestone.productVersion =
    some { v with currentMilestone := g.current }
  version : ∀ v, s.versions.get? c.milestone.productVersion = some v →
    v.currentMilestone = some c.milestone.id → c.Current v
  artifacts : s.artifacts = c.start.artifacts

/-- Only rows of the errands change from `s` to `s'`: their attempts, their milestones, the records
that the reports name, and the versions of the milestones. A version is left without a current
milestone, and only if that was the one of an errand. -/
structure Within (cs : List Errand) (s s' : Store) : Prop where
  attempts : ∀ id, (∀ c ∈ cs, id ≠ c.attempt.id) → s'.attempts.get? id = s.attempts.get? id
  milestones : ∀ id, (∀ c ∈ cs, id ≠ c.milestone.id) →
    s'.milestones.get? id = s.milestones.get? id
  records : ∀ id, (∀ c ∈ cs, id ∉ c.report.named) → s'.records.get? id = s.records.get? id
  versions : ∀ id, s'.versions.get? id = s.versions.get? id ∨
    ∃ c ∈ cs, id = c.milestone.productVersion ∧
      ∃ v, c.Current v ∧ s'.versions.get? id = some { v with currentMilestone := none }
  artifacts : s'.artifacts = s.artifacts

/-- Errands that start from the same rows and have no milestone, attempt or record in common. -/
structure Apart (c c' : Errand) : Prop where
  start : c.start = c'.start
  milestone : c.milestone.id ≠ c'.milestone.id
  attempt : c.attempt.id ≠ c'.attempt.id
  named : c.report.named.Disjoint c'.report.named

theorem Apart.symm {c c' : Errand} (h : c.Apart c') : c'.Apart c :=
  ⟨h.start.symm, h.milestone.symm, h.attempt.symm, List.disjoint_symm h.named⟩

variable {c} {cs cs' : List Errand} {s s' s'' : Store} {g : Progress}

theorem Within.refl (cs : List Errand) (s : Store) : Within cs s s :=
  ⟨fun _ _ => rfl, fun _ _ => rfl, fun _ _ => rfl, fun _ => .inl rfl, rfl⟩

theorem Within.trans (h : Within cs s s') (h' : Within cs s' s'') : Within cs s s'' where
  attempts id hid := (h'.attempts id hid).trans (h.attempts id hid)
  milestones id hid := (h'.milestones id hid).trans (h.milestones id hid)
  records id hid := (h'.records id hid).trans (h.records id hid)
  versions id := by
    rcases h'.versions id with heq | cleared
    · rw [heq]
      exact h.versions id
    · exact .inr cleared
  artifacts := h'.artifacts.trans h.artifacts

theorem Within.mono (h : Within cs s s') (sub : cs ⊆ cs') : Within cs' s s' where
  attempts id hid := h.attempts id fun c hc => hid c (sub hc)
  milestones id hid := h.milestones id fun c hc => hid c (sub hc)
  records id hid := h.records id fun c hc => hid c (sub hc)
  versions id := (h.versions id).imp_right fun ⟨c, hc, cleared⟩ => ⟨c, sub hc, cleared⟩
  artifacts := h.artifacts

/-- Other errands leave the rows as they are. -/
theorem Rows.frame (h : c.Rows s g) (within : Within cs s s') (apart : ∀ c' ∈ cs, c.Apart c') :
    c.Rows s' g where
  attempt := (within.attempts _ fun c' hc => (apart c' hc).attempt).trans h.attempt
  milestone := (within.milestones _ fun c' hc => (apart c' hc).milestone).trans h.milestone
  records id hid :=
    (within.records id fun c' hc hid' => (apart c' hc).named hid hid').trans (h.records id hid)
  current v hv := by
    rcases within.versions c.milestone.productVersion with heq | ⟨c', hc, hid, v', hv', -⟩
    · exact heq.trans (h.current v hv)
    · -- The version has one current milestone only.
      obtain rfl : v = v' := by
        have := hv'.1
        rw [← hid, ← (apart c' hc).start] at this
        exact Option.some.inj (hv.1.symm.trans this)
      exact absurd (Option.some.inj (hv.2.symm.trans hv'.2)) (apart c' hc).milestone
  version v hv current := by
    rcases within.versions c.milestone.productVersion with heq | ⟨_, _, -, v', -, hv'⟩
    · exact h.version v (heq.symm.trans hv) current
    · rw [← Option.some.inj (hv'.symm.trans hv)] at current
      simp at current
  artifacts := within.artifacts.trans h.artifacts

end Errand

/-! ### Imports -/

theorem id_importedRecord (r : BuildRecord) (b : BuildImport) :
    (ReleaseDesk.importedRecord r b).id = r.id := by
  unfold ReleaseDesk.importedRecord
  cases b.brewBuildId <;> cases b.brewBuildUrl <;> rfl

theorem importAll_concat (done : List BuildImport) (b : BuildImport) (r : BuildRecord) :
    importAll (done ++ [b]) r =
      if b.record = (importAll done r).id then ReleaseDesk.importedRecord (importAll done r) b
      else importAll done r := by
  rw [importAll, List.foldl_concat]
  rfl

theorem id_importAll (bs : List BuildImport) (r : BuildRecord) : (importAll bs r).id = r.id := by
  induction bs using List.reverseRecOn with
  | nil => rfl
  | append_singleton done b ih =>
      rw [importAll_concat]
      split
      · rw [id_importedRecord, ih]
      · exact ih

/-- An import changes no other record. -/
theorem importAll_concat_of_ne {done : List BuildImport} {b : BuildImport} {r : BuildRecord}
    (h : b.record ≠ r.id) : importAll (done ++ [b]) r = importAll done r := by
  rw [importAll_concat, id_importAll, if_neg h]

namespace Errand

variable {c : Errand} {s : Store} {g : Progress}

/-! ### The rows as they are saved -/

theorem Rows.saveAttempt (h : c.Rows s g) {a : ReleaseAttempt} (ha : a.id = c.attempt.id) :
    c.Rows (s.saveAttempt a) { g with attempt := a } ∧ Within [c] s (s.saveAttempt a) := by
  refine ⟨{ h with attempt := ?_ }, { Within.refl [c] s with attempts := fun id hid => ?_ }⟩
  · rw [Store.get?_saveAttempt, if_pos ha]
  · rw [Store.get?_saveAttempt, if_neg fun h => hid c List.mem_cons_self (h.symm.trans ha)]

theorem Rows.saveMilestone (h : c.Rows s g) {m : Milestone} (hm : m.id = c.milestone.id) :
    c.Rows (s.saveMilestone m) { g with milestone := m } ∧ Within [c] s (s.saveMilestone m) := by
  refine ⟨{ h with milestone := ?_ }, { Within.refl [c] s with milestones := fun id hid => ?_ }⟩
  · exact hm ▸ s.milestones.get?_insert_self ..
  · exact s.milestones.get?_insert_of_ne (fun h => hid c List.mem_cons_self (h.symm.trans hm)) _

/-- The version of the errand is left without a current milestone. -/
theorem Rows.saveVersion (h : c.Rows s g) {v : ProductVersion} (hv : c.Current v)
    (hid : v.id = c.milestone.productVersion) :
    c.Rows (s.saveVersion { v with currentMilestone := none }) { g with current := none } ∧
      Within [c] s (s.saveVersion { v with currentMilestone := none }) := by
  have saved : (s.saveVersion { v with currentMilestone := none }).versions.get?
      c.milestone.productVersion = some { v with currentMilestone := none } :=
    hid ▸ s.versions.get?_insert_self ..
  refine ⟨{ h with current := fun v' hv' => ?_, version := fun v' hv' current => ?_ },
    { Within.refl [c] s with versions := fun id => ?_ }⟩
  · obtain rfl : v = v' := Option.some.inj (hv.1.symm.trans hv'.1)
    exact saved
  · rw [← Option.some.inj (saved.symm.trans hv')] at current
    simp at current
  · by_cases h : id = c.milestone.productVersion
    · exact .inr ⟨c, List.mem_cons_self, h, v, hv, h ▸ saved⟩
    · exact .inl (s.versions.get?_insert_of_ne (fun h' => h (h'.symm.trans hid)) _)

/-- There is no such record to save an import in. -/
theorem Rows.passRecord (h : c.Rows s g) (keyed : c.start.RecordsKeyed) {b : BuildImport}
    (absent : s.records.get? b.record = none) :
    c.Rows s { g with imported := g.imported ++ [b] } := by
  refine { h with records := fun id hid => (h.records id hid).trans ?_ }
  cases hrow : c.start.records.get? id with
  | none => rfl
  | some row =>
      refine congrArg some (importAll_concat_of_ne fun heq => ?_).symm
      rw [heq, keyed id row hrow, h.records id hid, hrow] at absent
      simp at absent

theorem Rows.saveRecord (h : c.Rows s g) (keyed : c.start.RecordsKeyed) {b : BuildImport}
    {row : BuildRecord} (hb : b.record ∈ c.report.named)
    (hrow : c.start.records.get? b.record = some row) :
    c.Rows (s.saveRecord (ReleaseDesk.importedRecord (importAll g.imported row) b))
        { g with imported := g.imported ++ [b] } ∧
      Within [c] s (s.saveRecord (ReleaseDesk.importedRecord (importAll g.imported row) b)) := by
  have hid : (ReleaseDesk.importedRecord (importAll g.imported row) b).id = b.record := by
    rw [id_importedRecord, id_importAll, keyed _ _ hrow]
  refine ⟨{ h with records := fun id hmem => (Table.get?_insert ..).trans ?_ },
    { Within.refl [c] s with records := fun id hmem => (Table.get?_insert ..).trans (if_neg ?_) }⟩
  · rw [hid]
    split
    next heq =>
      rw [← heq, hrow, Option.map_some, importAll_concat, id_importAll, keyed _ _ hrow,
        if_pos rfl]
    next hne =>
      rw [h.records id hmem]
      refine Option.map_congr fun r hr => (importAll_concat_of_ne ?_).symm
      rwa [keyed id r hr]
  · rintro rfl
    exact hmem c List.mem_cons_self (hid ▸ hb)

/-! ### The phases -/

/-- The description goes through the passages one after the other. -/
theorem Course.describe {r : ReleaseResult} (hr : c.report = .result r) {text : String}
    {ahead : List Passage} (rest : text ++ details c.start ahead = c.account)
    (part : ∀ b, .build b ∈ ahead → b.record ∈ c.report.named) :
    c.Course (ReleaseDesk.describe c.milestone r text ahead) c.first := by
  fun_induction ReleaseDesk.describe c.milestone r text ahead with
  | case1 text ahead ih =>
      refine ih ?_ fun b hb => part b (List.mem_cons_of_mem _ hb)
      rw [String.append_assoc]
      exact rest
  | case2 text =>
      have hverdict : c.verdict = r.status.attemptStatus := by rw [verdict, hr]
      have hafter : c.after = some (c.milestone, r) := by rw [after, hr]
      rw [← hverdict, ← hafter, show text = c.account by rw [← rest, details, String.append_empty]]
      exact .findingAttempt
  | case3 text ahead => exact .describing hr rest part

/-- A result is described first. -/
theorem Course.ofResult {r : ReleaseResult} {m : Milestone}
    (h : c.Course (.findingMilestone (.result r)) g) (hm : g.milestone = m) :
    c.Course (ReleaseDesk.describe m r (heading r) (passages r)) g := by
  cases h with
  | findingMilestone hr =>
      obtain rfl : c.milestone = m := hm
      have account : heading r ++ details c.start (passages r) = c.account := by
        rw [Errand.account, hr]
      refine .describe hr account fun b hb => ?_
      rw [hr]
      exact List.mem_map_of_mem (mem_builds_of_passage hb)

theorem Course.ofFailure {payload : Json}
    (h : c.Course (.findingMilestone (.failure payload)) g) :
    c.Course (.findingAttempt (failureText payload) .systemError none) g := by
  cases h with
  | findingMilestone hr =>
      have := @Course.findingAttempt c
      rwa [account, verdict, after, hr] at this

/-- As long as no import is saved, descriptions find the rows as they were. -/
theorem Rows.text_eq (h : c.Rows s c.first) {p : Passage}
    (hp : ∀ b, p = .build b → b.record ∈ c.report.named) :
    p.text s.records.get? s.artifacts.get? =
      p.text c.start.records.get? c.start.artifacts.get? := by
  rw [h.artifacts]
  cases p with
  | build b =>
      have hrow : s.records.get? b.record = c.start.records.get? b.record :=
        (h.records _ (hp b rfl)).trans Option.map_id'
      rw [Passage.text, Passage.text, hrow]
  | artifact | close => rfl

theorem Course.passage {m : Milestone} {r : ReleaseResult} {text : String} {p : Passage}
    {ahead : List Passage} (h : c.Course (.describing m r text (p :: ahead)) g)
    (rows : c.Rows s g) :
    c.Course (ReleaseDesk.describe m r (text ++ p.text s.records.get? s.artifacts.get?) ahead)
      g := by
  cases h with
  | describing hr rest part =>
      refine .describe hr ?_ fun b hb => part b (List.mem_cons_of_mem _ hb)
      rw [String.append_assoc, rows.text_eq fun b hb => part b (hb ▸ List.mem_cons_self)]
      exact rest

theorem builds_of_result {r : ReleaseResult} (hr : c.report = .result r) :
    c.report.builds = r.builds := by
  rw [hr]
  rfl

theorem Course.nextRecord {r : ReleaseResult} (hr : c.report = .result r) {now : Instant}
    {done ahead : List BuildImport} (split : r.builds = done ++ ahead) (later : Instant) :
    c.Course (ReleaseDesk.nextRecord c.milestone later ahead) (c.told now done) := by
  cases ahead with
  | nil =>
      rw [List.append_nil, ← builds_of_result hr] at split
      exact split ▸ .savingMilestone hr
  | cons b ahead => exact .findingRecord hr split

/-- After the attempt a recording goes on with the builds, or it is over. -/
theorem Course.turn (d : ReleaseDesk) (r : Recording) (now later : Instant) :
    c.Course (d.turn r later c.after).2 (c.told now []) := by
  cases hr : c.report with
  | result result =>
      rw [show c.after = some (c.milestone, result) by rw [after, hr]]
      exact .nextRecord hr rfl later
  | failure payload =>
      rw [show c.after = none by rw [after, hr]]
      exact .failed hr

theorem named_of_split {r : ReleaseResult} (hr : c.report = .result r) {b : BuildImport}
    {done ahead : List BuildImport} (split : r.builds = done ++ b :: ahead) :
    b.record ∈ c.report.named := by
  rw [hr, Report.named, Report.builds, split]
  exact List.mem_map_of_mem (List.mem_append_right _ List.mem_cons_self)

end Errand

end Release

namespace ReleaseDesk

/-- What a repository answers, if one does. -/
def Event.fault? : Event → Option StorageFault
  | answerStart _ fault _ _ | answerRecording _ fault _ => fault
  | _ => none

variable {c : Errand} {d b : ReleaseDesk} {k : Nat} {e : Event} {r : Recording}
  {p : RecordingPhase} {g : Progress}

/-- A step of a recording is a step of its errand, if the repositories do what they are asked to. -/
theorem RecordingStep.errand (h : RecordingStep d k r e b p) (works : e.fault? = none)
    (course : c.Course r.phase g) (rows : c.Rows d.store g)
    (milestone : r.milestone = c.milestone.id) (attempt : r.attempt = c.attempt.id)
    (versions : c.start.VersionsKeyed) (records : c.start.RecordsKeyed) :
    ∃ g', c.Course p g' ∧ c.Rows b.store g' ∧ Errand.Within [c] d.store b.store := by
  have turned (now : Instant) (o : Option (Milestone × ReleaseResult)) :
      (d.turn r now o).1.store = d.store := by
    rcases fst_turn d r now o with h | h <;> rw [h]
    rfl
  have rest {g' : Progress} {q : RecordingPhase} (course : c.Course q g')
      (rows : c.Rows d.store g') :
      ∃ g', c.Course q g' ∧ c.Rows d.store g' ∧ Errand.Within [c] d.store d.store :=
    ⟨g', course, rows, .refl [c] d.store⟩
  cases h with
  | @lost report fault now h hm =>
      obtain rfl : fault = none := works
      rw [found_none, milestone, rows.milestone] at hm
      simp at hm
  | @describe result m fault now h hm =>
      obtain rfl : fault = none := works
      rw [found_none, milestone, rows.milestone] at hm
      exact rest (Errand.Course.ofResult (h ▸ course) (Option.some.inj hm)) rows
  | @fail payload m fault now h hm =>
      exact rest (Errand.Course.ofFailure (h ▸ course)) rows
  | @passage m result text p ahead fault now h =>
      obtain rfl : fault = none := works
      exact rest (Errand.Course.passage (h ▸ course) rows) rows
  | @find text s after a fault now h ha =>
      obtain rfl : fault = none := works
      rw [h] at course
      cases course with
      | findingAttempt =>
          rw [found_none, attempt, rows.attempt] at ha
          obtain rfl : c.attempt = a := Option.some.inj ha
          exact rest .savingAttempt rows
  | @miss text s after fault now h ha =>
      obtain rfl : fault = none := works
      rw [found_none, attempt, rows.attempt] at ha
      simp at ha
  | @close a after now h =>
      rw [h] at course
      cases course with
      | savingAttempt => exact ⟨_, .announcing, rows.saveAttempt rfl⟩
  | closeFails => simp [Event.fault?] at works
  | @announced a after now h =>
      rw [h] at course
      cases course with
      | @announcing now' =>
          rw [turned]
          exact rest (.turn d r now' now) rows
  | @findRecord m b' ahead row fault now h hrow =>
      obtain rfl : fault = none := works
      rw [h] at course
      cases course with
      | findingRecord hr split =>
          rw [found_none, rows.records _ (Errand.named_of_split hr split)] at hrow
          obtain ⟨row', hrow', rfl⟩ := Option.map_eq_some_iff.mp hrow
          exact rest (.savingRecord hr split hrow') rows
  | @missRecord m b' ahead fault now h hrow =>
      obtain rfl : fault = none := works
      rw [h] at course
      cases course with
      | findingRecord hr split =>
          refine rest (.nextRecord hr ?_ now) (rows.passRecord records hrow)
          exact split.trans (List.append_cons ..)
  | @saveRecord m row ahead fault now h =>
      obtain rfl : fault = none := works
      rw [h] at course
      cases course with
      | savingRecord hr split hrow =>
          refine ⟨_, .nextRecord hr ?_ now,
            rows.saveRecord records (Errand.named_of_split hr split) hrow⟩
          exact split.trans (List.append_cons ..)
  | @saveMilestone m fault now h =>
      obtain rfl : fault = none := works
      rw [h] at course
      cases course with
      | savingMilestone hr =>
          exact ⟨_, .findingVersion hr, rows.saveMilestone rfl⟩
  | @findVersion id v fault now h hv current =>
      obtain rfl : fault = none := works
      rw [h] at course
      cases course with
      | findingVersion hr =>
          have own := rows.version v hv (current.trans (congrArg some milestone))
          exact rest (.savingVersion hr own) rows
  | @passVersion id fault now h other =>
      obtain rfl : fault = none := works
      rw [h] at course
      cases course with
      | findingVersion hr =>
          refine rest (.recorded hr) { rows with current := fun v hv => ?_ }
          exact absurd (congrArg some milestone.symm) (other _ (rows.current v hv))
  | @saveVersion v fault now h =>
      obtain rfl : fault = none := works
      rw [h] at course
      cases course with
      | savingVersion hr hv =>
          exact ⟨_, .recorded hr, rows.saveVersion hv (versions _ _ hv.1)⟩

end ReleaseDesk

end Foreman
