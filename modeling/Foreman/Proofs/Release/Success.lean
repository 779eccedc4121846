import Foreman.Proofs.Release.Accounts
import Foreman.Proofs.Release.Heralds
import Foreman.Proofs.Release.Serial

/-!
What the result of a release leaves behind. The attempt is closed with an account of the push, each
record that the result names has what the last of its imports says, the milestone ends and is no
longer the current one of its version. All other rows are as they were, the clients are told once,
and nobody waits for the process any more.
-/

namespace Foreman

open Release

namespace Release

/-- The status of an attempt after a push with this outcome. -/
def verdictOn : ReleaseStatus → AttemptStatus
  | .success => .succeeded
  | .failure | .importError => .failed
  | .setUpError | .systemError => .systemError

/-- The value that the last import of the record gives, of those that give one. -/
def lastImport? {α : Type} (bs : List BuildImport) (record : ResourceId)
    (field : BuildImport → Option α) : Option α :=
  (bs.filter (·.record = record)).reverse.findSome? field

/-- The record `row'` is `row` with what the imports say about its build. -/
structure Imported (bs : List BuildImport) (row row' : BuildRecord) : Prop where
  fields : row' = { row with attributes := row'.attributes }
  brewId : row'.attributes.get? "brewId" =
    ((lastImport? bs row.id (·.brewBuildId)).map toString).or (row.attributes.get? "brewId")
  brewLink : row'.attributes.get? "brewLink" =
    (lastImport? bs row.id (·.brewBuildUrl)).or (row.attributes.get? "brewLink")
  others : ∀ key, key ≠ "brewId" → key ≠ "brewLink" →
    row'.attributes.get? key = row.attributes.get? key

/-- The rows `s'` are `s` after the result of the attempt `x` to release the milestone `m`. -/
structure Released (x : ReleaseAttempt) (m : Milestone) (r : ReleaseResult) (s s' : Store) :
    Prop where
  attempt : ∃ now, s'.attempts.get? x.id = some { x with
    status := verdictOn r.status, endDate := some now, log := x.log ++ description s r }
  records : ∀ id row, s.records.get? id = some row → (∃ b ∈ r.builds, b.record = id) →
    ∃ row', s'.records.get? id = some row' ∧ Imported r.builds row row'
  milestone : ∃ now, s'.milestones.get? m.id = some { m with endDate := some now }
  versions : ∀ id, s'.versions.get? id = (s.versions.get? id).map fun v =>
    if id = m.productVersion ∧ v.currentMilestone = some m.id then
      { v with currentMilestone := none } else v
  otherAttempts : ∀ id ≠ x.id, s'.attempts.get? id = s.attempts.get? id
  otherRecords : ∀ id, s.records.get? id = none ∨ (∀ b ∈ r.builds, b.record ≠ id) →
    s'.records.get? id = s.records.get? id
  otherMilestones : ∀ id ≠ m.id, s'.milestones.get? id = s.milestones.get? id
  artifacts : s'.artifacts = s.artifacts

/-! ### Imports -/

theorem lastImport?_concat {α : Type} (bs : List BuildImport) (b : BuildImport)
    (record : ResourceId) (field : BuildImport → Option α) :
    lastImport? (bs ++ [b]) record field =
      if b.record = record then (field b).or (lastImport? bs record field)
      else lastImport? bs record field := by
  unfold lastImport?
  rw [List.filter_append, List.reverse_append]
  split
  next own => cases h : field b <;> simp [own, h]
  next other => simp [other]

theorem attributes_importedRecord (row : BuildRecord) (b : BuildImport) :
    ReleaseDesk.importedRecord row b =
        { row with attributes := (ReleaseDesk.importedRecord row b).attributes } ∧
      ∀ key, (ReleaseDesk.importedRecord row b).attributes.get? key =
        if key = "brewId" then (b.brewBuildId.map toString).or (row.attributes.get? key)
        else if key = "brewLink" then b.brewBuildUrl.or (row.attributes.get? key)
        else row.attributes.get? key := by
  unfold ReleaseDesk.importedRecord
  cases b.brewBuildId <;> cases b.brewBuildUrl <;> refine ⟨rfl, fun key => ?_⟩ <;>
    simp only [BuildRecord.putAttribute, Table.get?_insert, eq_comm (b := key)] <;>
    split <;> simp_all

/-- Of several imports of a record the last one counts that says anything. -/
theorem imported_importAll (bs : List BuildImport) (row : BuildRecord) :
    Imported bs row (importAll bs row) := by
  induction bs using List.reverseRecOn with
  | nil => exact ⟨rfl, rfl, rfl, fun _ _ _ => rfl⟩
  | append_singleton bs b ih =>
      obtain ⟨fields, get?⟩ := attributes_importedRecord (importAll bs row) b
      rw [importAll_concat, id_importAll]
      split
      next own =>
        refine ⟨?_, ?_, ?_, fun key hid hlink => ?_⟩
        · rw [fields, ih.fields]
        · rw [get?, if_pos rfl, lastImport?_concat, if_pos own, ih.brewId]
          cases b.brewBuildId <;> rfl
        · rw [get?, if_neg (by decide), if_pos rfl, lastImport?_concat, if_pos own, ih.brewLink,
            Option.or_assoc]
        · rw [get?, if_neg hid, if_neg hlink, ih.others key hid hlink]
      next other =>
        refine ⟨ih.fields, ?_, ?_, ih.others⟩
        · rw [lastImport?_concat, if_neg other, ih.brewId]
        · rw [lastImport?_concat, if_neg other, ih.brewLink]

theorem attemptStatus_ne_inProgress (s : ReleaseStatus) : s.attemptStatus ≠ .inProgress := by
  cases s <;> decide

/-- The rows after an errand that has been worked off. -/
theorem Errand.Recorded.released {c : Errand} {r : ReleaseResult} {s : Store}
    (h : c.Recorded s) (within : Errand.Within [c] c.start s) (hr : c.report = .result r) :
    Released c.attempt c.milestone r c.start s := by
  obtain ⟨g, course, rows⟩ := h
  cases course with
  | failed hp => simp [hr] at hp
  | @recorded r' now later hr' =>
      obtain rfl : r = r' := Report.result.inj (hr.symm.trans hr')
      have verdict : c.verdict = r.status.attemptStatus := by rw [Errand.verdict, hr]
      have mapped : r.status.attemptStatus = verdictOn r.status := by cases r.status <;> rfl
      have account : c.account = description c.start r := by
        rw [Errand.account, hr]
        exact description_eq ..
      have named {id : ResourceId} : id ∈ c.report.named ↔ ∃ b ∈ r.builds, b.record = id := by
        rw [hr, Report.named, Report.builds, List.mem_map]
      have own (p : Errand → Prop) (hp : p c) : ∀ c' ∈ [c], p c' := by simpa using hp
      refine ⟨⟨now, ?_⟩, fun id row hrow hid => ?_, ⟨later, rows.milestone⟩, fun id => ?_,
        fun id hid => within.attempts id (own _ hid), fun id hid => ?_,
        fun id hid => within.milestones id (own _ hid), within.artifacts⟩
      · rw [rows.attempt, Errand.past, Errand.closed, ReleaseDesk.closedAttempt, verdict,
          if_neg (attemptStatus_ne_inProgress _), account, mapped]
      · have h := rows.records id (named.mpr hid)
        rw [hrow, Option.map_some, Errand.past, hr] at h
        exact ⟨_, h, imported_importAll r.builds row⟩
      · by_cases current : ∃ v, c.Current v ∧ id = c.milestone.productVersion
        · obtain ⟨v, hv, rfl⟩ := current
          rw [rows.current v hv, hv.1, Option.map_some, if_pos ⟨rfl, hv.2⟩]
          rfl
        · rcases within.versions id with same | ⟨c', hc', hid, v, hv, -⟩
          · rw [same]
            cases hv : c.start.versions.get? id with
            | none => rfl
            | some v =>
                rw [Option.map_some, if_neg]
                rintro ⟨rfl, hcur⟩
                exact current ⟨v, ⟨hv, hcur⟩, rfl⟩
          · obtain rfl := List.mem_singleton.mp hc'
            exact absurd ⟨v, hv, hid⟩ current
      · rcases hid with absent | other
        · by_cases hid : id ∈ c.report.named
          · rw [rows.records id hid, absent]
            rfl
          · exact within.records id (own _ hid)
        · refine within.records id (own _ fun hid => ?_)
          obtain ⟨b, hb, hid⟩ := named.mp hid
          exact other b hb hid

/-- Whether the clients have been told of the closed attempt. -/
def RecordingPhase.hasTold : RecordingPhase → Bool
  | .findingRecord .. | .savingRecord .. | .savingMilestone _ | .findingVersion _
  | .savingVersion _ | .ended => true
  | _ => false

end Release

namespace ReleaseDesk

/-- The attempts that the clients have been told of when the event comes. -/
def announcements (d : ReleaseDesk) (e : Event) : List ReleaseAttempt :=
  (e.told?.bind d.announced?).toList

/-- The process of the attempt waits for a result. -/
def Awaits (d : ReleaseDesk) (milestone attempt : ResourceId) : Prop :=
  ∃ g, d.correlator.registration? (.ofResource attempt) .importSuccess = some g ∧
    g.listener = .result milestone attempt

/-- The last recording, with number `k`, works off the errand. It has told the clients of the
attempts `told`, and once it is over nobody waits for the process. -/
def WorksOff (d : ReleaseDesk) (c : Errand) (k : Nat) (told : List ReleaseAttempt) : Prop :=
  d.recordings.length = k + 1 ∧
    ∃ p g, d.recordings[k]? = some { c.recording with phase := p } ∧ c.Course p g ∧
      c.Rows d.store g ∧ told = (if p.hasTold then [g.attempt] else []) ∧
      (p = .ended → d.correlator.isPending (.ofResource c.attempt.id) = false)

section Step

variable {d b d' t : ReleaseDesk} {c : Errand} {k : Nat} {e : Event} {es : List Event}
  {r : Recording} {p : RecordingPhase} {g : Progress} {told : List ReleaseAttempt}

theorem hasTold_describe (m : Milestone) (result : ReleaseResult) (text : String)
    (ahead : List Passage) : (describe m result text ahead).hasTold = false := by
  fun_induction describe m result text ahead with
  | case1 text ahead ih => exact ih
  | case2 | case3 => rfl

theorem hasTold_nextRecord (m : Milestone) (now : Instant) (ahead : List BuildImport) :
    (nextRecord m now ahead).hasTold = true := by
  cases ahead <;> rfl

theorem hasTold_turn (d : ReleaseDesk) (r : Recording) (now : Instant)
    (after : Option (Milestone × ReleaseResult)) : (d.turn r now after).2.hasTold = true := by
  cases after with
  | none => rfl
  | some x => exact hasTold_nextRecord ..

/-- A recording tells the clients of its attempt once, when it has saved it, and does not save it
again. -/
theorem RecordingStep.announcements (h : RecordingStep d k r e b p)
    (hr : d.recordings[k]? = some r) (works : e.fault? = none) (course : c.Course r.phase g)
    (rows : c.Rows d.store g) (milestone : r.milestone = c.milestone.id)
    (attempt : r.attempt = c.attempt.id) :
    d.announcements e = [] ∧ p.hasTold = r.phase.hasTold ∧
        (p.hasTold = true → b.store.attempts = d.store.attempts) ∨
      d.announcements e = [g.attempt] ∧ r.phase.hasTold = false ∧ p.hasTold = true ∧
        b.store.attempts = d.store.attempts := by
  cases h with
  | @lost report fault now h hm =>
      obtain rfl : fault = none := works
      rw [found_none, milestone, rows.milestone] at hm
      simp at hm
  | @miss text s after fault now h ha =>
      obtain rfl : fault = none := works
      rw [found_none, attempt, rows.attempt] at ha
      simp at ha
  | closeFails => simp [Event.fault?] at works
  | @announced a after now h =>
      rw [h] at course
      cases course
      refine .inr ⟨?_, by rw [h]; rfl, hasTold_turn .., ?_⟩
      · simp [ReleaseDesk.announcements, Event.told?, announced?, hr, h,
          RecordingPhase.announced?, Errand.told]
      · rcases fst_turn d r now c.after with h | h <;> simp only [h, forget]
  | describe h | passage h =>
      exact .inl ⟨rfl, by rw [hasTold_describe, h]; rfl,
        fun told => by simp [hasTold_describe] at told⟩
  | fail h | find h => exact .inl ⟨rfl, by rw [h]; rfl, fun _ => rfl⟩
  | close h =>
      exact .inl ⟨rfl, by rw [h]; rfl, fun told => by simp [RecordingPhase.hasTold] at told⟩
  | findRecord h | findVersion h | passVersion h => exact .inl ⟨rfl, by rw [h]; rfl, fun _ => rfl⟩
  | missRecord h => exact .inl ⟨rfl, by rw [hasTold_nextRecord, h]; rfl, fun _ => rfl⟩
  | saveRecord h =>
      exact .inl ⟨rfl, by rw [hasTold_nextRecord, h]; rfl, fun _ => by split <;> rfl⟩
  | saveMilestone h | saveVersion h =>
      exact .inl ⟨rfl, by rw [h]; rfl, fun _ => by split <;> rfl⟩

theorem isPending_forget (d : ReleaseDesk) (id : CorrelationId) :
    (d.forget id).correlator.isPending id = false := by
  simp [forget, Correlator.isPending, Correlator.abandon, Table.contains, Table.get?_erase]

/-- A recording that comes to its end forgets the process. -/
theorem RecordingStep.forgets (h : RecordingStep d k r e b p) (ended : p = .ended) :
    b.correlator.isPending r.correlation = false := by
  have next (m : Milestone) (now : Instant) (ahead : List BuildImport) :
      nextRecord m now ahead ≠ .ended := by
    cases ahead <;> simp [nextRecord]
  have turned (now : Instant) (after : Option (Milestone × ReleaseResult))
      (ended : (d.turn r now after).2 = .ended) :
      (d.turn r now after).1.correlator.isPending r.correlation = false := by
    cases after with
    | none => exact isPending_forget ..
    | some x => exact absurd ended (next _ _ _)
  have described (m : Milestone) (result : ReleaseResult) (text : String) (ahead : List Passage) :
      ReleaseDesk.describe m result text ahead ≠ .ended := by
    intro ended
    have untold := hasTold_describe m result text ahead
    simp [ended, RecordingPhase.hasTold] at untold
  cases h with
  | lost | passVersion | saveVersion => exact isPending_forget ..
  | miss | closeFails | announced => exact turned _ _ ended
  | describe | passage => exact absurd ended (described _ _ _ _)
  | missRecord | saveRecord => exact absurd ended (next _ _ _)
  | fail | find | close | findRecord | saveMilestone | findVersion => simp at ended

theorem WorksOff.step (h : d.WorksOff c k told) (serving : ∃ j ≥ k, e.Serves j)
    (hs : d.step e = some d') (versions : c.start.VersionsKeyed)
    (records : c.start.RecordsKeyed) : d'.WorksOff c k (told ++ d.announcements e) := by
  obtain ⟨length, p, g, hr, course, rows, rfl, -⟩ := h
  obtain ⟨j, hj, serves⟩ := serving
  obtain ⟨r, b, q, hr', move, rfl⟩ := serves.moves hs
  obtain rfl : j = k := by
    have := (List.getElem?_eq_some_iff.mp hr').1
    omega
  obtain rfl := Option.some.inj (hr.symm.trans hr')
  obtain ⟨g', course', rows', -⟩ := move.errand serves.2 course rows rfl rfl versions records
  have kept (same : b.store.attempts = d.store.attempts) : g'.attempt = g.attempt := by
    have row := rows'.attempt
    rw [same, rows.attempt] at row
    exact (Option.some.inj row).symm
  have here := hr
  rw [← move.frame.2.2] at here
  have here := getElem?_withRecording_self (p := q) here
  refine ⟨?_, q, g', here, course', rows', ?_, move.forgets⟩
  · rw [withRecording, List.length_modify, move.frame.2.2, length]
  · rcases move.announcements hr serves.2 course rows rfl rfl with
      ⟨none, same, saved⟩ | ⟨one, before, after, saved⟩
    · rw [none, List.append_nil, same]
      split
      next hp => rw [kept (saved (same.trans hp))]
      next => rfl
    · have before : p.hasTold = false := before
      rw [one, before, after, kept saved]
      rfl

theorem WorksOff.of_run (h : d.WorksOff c k []) (run : Run ReleaseDesk.step d es d')
    (serving : ∀ e ∈ es, ∃ j ≥ k, e.Serves j) (versions : c.start.VersionsKeyed)
    (records : c.start.RecordsKeyed) :
    d'.WorksOff c k (notes ReleaseDesk.step announcements d es) := by
  induction run with
  | nil => exact h
  | snoc before last ih =>
      rw [notes_snoc announcements before last]
      exact (ih fun e he => serving e (List.mem_append_left _ he)).step
        (serving _ (List.mem_append_right _ List.mem_cons_self)) last versions records

end Step

section Delivery

variable {d d' t : ReleaseDesk} {x : Delivery} {c : Errand} {es : List Event}

/-- A report that comes by itself is delivered first. -/
theorem Delivers.head (h : Delivers d [x] es d') :
    ∃ t rest, es = x.event :: rest ∧ d.step x.event = some t ∧ Run ReleaseDesk.step t rest d' ∧
      ∀ e ∈ rest, ∃ k ≥ d.recordings.length, e.Serves k := by
  cases es with
  | nil => simpa using h.once.length_eq
  | cons e rest =>
      have whole : Run ReleaseDesk.step d ([e] ++ rest) d' := h.run
      obtain ⟨t, first, run⟩ := Run.append_inv whole
      have hstep : d.step e = some t := by simpa [Run.iff_foldlM] using first
      have dispatch : e.isDispatch = true := by
        refine (h.serving e List.mem_cons_self).resolve_right fun ⟨k, hk, serves⟩ => ?_
        obtain ⟨r, -, -, hr, -, -⟩ := serves.moves hstep
        exact absurd (List.getElem?_eq_some_iff.mp hr).1 (Nat.not_lt.mpr hk)
      have once := h.once
      rw [List.filter_cons_of_pos dispatch] at once
      obtain ⟨rfl, none⟩ := List.cons.inj (List.perm_singleton.mp once)
      refine ⟨t, rest, rfl, hstep, run, fun e he => ?_⟩
      exact (h.serving e (List.mem_cons_of_mem _ he)).resolve_left
        fun again => List.filter_eq_nil_iff.mp none e he again

/-- A report that begins a recording is worked off by it. -/
theorem Delivers.worksOff (h : Delivers d [x] es d') (hd : d.Reliable)
    (hc : d.errand? x.event = some c) :
    d'.WorksOff c d.recordings.length (notes ReleaseDesk.step announcements d es) := by
  have assigns := (errand?_eq_some hd).mp hc
  obtain ⟨t, rest, rfl, hstep, run, serving⟩ := h.head
  obtain ⟨store, recordings, -⟩ := step_dispatch rfl hstep
  rw [begun?_eq_map hd, hc] at recordings
  have begun : t.WorksOff c d.recordings.length [] := by
    refine ⟨by rw [recordings]; exact List.length_append, _, c.first, ?_, .findingMilestone rfl,
      store ▸ assigns.rows, rfl, by simp⟩
    rw [recordings]
    exact List.getElem?_concat_length ..
  have quiet : notes ReleaseDesk.step announcements d (x.event :: rest) =
      notes ReleaseDesk.step announcements t rest := by
    rw [notes, hstep]
    rfl
  rw [quiet]
  exact begun.of_run run serving (assigns.start ▸ hd.versions) (assigns.start ▸ hd.records)

end Delivery

section Run

variable {process : String} {callbackBase : Option String} {es₀ : List Event} {d : ReleaseDesk}
  {milestone attempt : ResourceId} {payload : Json} {r : ReleaseResult}

/-- A result for an attempt that waits for one can be dealt with as long as no repository fails, and
however that goes, it releases the milestone: the rows become what `Released` says and no others
change, the clients are told once, of the attempt as it is then, and the process is forgotten. The
desk may have got to any point before the result comes. Ids are not generated twice, and others
have saved rows under their own ids. -/
theorem released_of_result
    (run : Run ReleaseDesk.step (.empty process callbackBase) es₀ d)
    (fresh : (notes ReleaseDesk.step generated (.empty process callbackBase) es₀).Nodup)
    (kept : notes ReleaseDesk.step misfiled (.empty process callbackBase) es₀ = [])
    (versions : d.store.VersionsKeyed) (records : d.store.RecordsKeyed)
    (awaits : d.Awaits milestone attempt)
    (reads : (Wire.decode payload : Except Json.Fault ReleaseResult) = .ok r) :
    ∃ x m, d.store.attempts.get? attempt = some x ∧ x.id = attempt ∧ x.milestone = milestone ∧
      d.store.milestones.get? milestone = some m ∧ m.id = milestone ∧
      (∃ es d', Delivers d [⟨x, EventType.importSuccess.text, payload⟩] es d') ∧
      ∀ es d', Delivers d [⟨x, EventType.importSuccess.text, payload⟩] es d' →
        Released x m r d.store d'.store ∧
        (∃ y, d'.store.attempts.get? attempt = some y ∧
          notes ReleaseDesk.step announcements d es = [y]) ∧
        d'.correlator.isPending (.ofResource attempt) = false := by
  have reliable := reliable_of_run run fresh kept versions records
  obtain ⟨g, hg, hl⟩ := awaits
  have begins : d.Begins (.dispatch (.ofResource attempt) EventType.importSuccess.text payload)
      ⟨.ofResource attempt, milestone, attempt, .findingMilestone (.result r)⟩ :=
    .result rfl hg hl reads
  obtain ⟨c, hc, assigns, hrec⟩ := begins.errand reliable
  obtain ⟨-, rfl, rfl, hphase⟩ := Recording.mk.inj hrec
  have report : c.report = .result r := RecordingPhase.findingMilestone.inj hphase
  refine ⟨c.attempt, c.milestone, assigns.attempt, rfl, assigns.own, assigns.milestone, rfl,
    exists_delivers noon d _, fun es d' delivers => ?_⟩
  have single : Independent d [⟨c.attempt, EventType.importSuccess.text, payload⟩] :=
    ⟨by simpa using assigns.attempt, List.pairwise_singleton .., List.pairwise_singleton ..⟩
  obtain ⟨within, recorded⟩ := delivers.recorded reliable single
  have own : es.filterMap d.errand? = [c] := by
    have perm := delivers.errands_perm
    rw [List.map_singleton, filterMap_singleton] at perm
    exact List.perm_singleton.mp (perm.trans (.of_eq (congrArg Option.toList hc)))
  rw [own] at within recorded
  obtain ⟨length, p, g, hr, -, rows, told, forgotten⟩ := delivers.worksOff reliable hc
  obtain rfl : p = .ended := delivers.ended _ le_rfl _ hr
  have released := (recorded c List.mem_cons_self).released (assigns.start ▸ within) report
  exact ⟨assigns.start ▸ released, ⟨g.attempt, rows.attempt, told⟩, forgotten rfl⟩

end Run

/-- Two imports of one record, of which only the first has a build id, and one of a record that is
not stored. -/
def twice : Json := .object [
  ("milestoneId", .string "00000000-0000-0000-0000-000000000007"),
  ("releaseStatus", .string "SUCCESS"),
  ("builds", .array [
    .object [("buildRecordId", .string "00000000-0000-0000-0000-00000000001e"),
      ("brewBuildId", .ofNat 5), ("brewBuildUrl", .string "first"),
      ("status", .string "SUCCESSFUL")],
    .object [("buildRecordId", .string "00000000-0000-0000-0000-000000000063"),
      ("brewBuildId", .ofNat 6), ("status", .string "SUCCESSFUL")],
    .object [("buildRecordId", .string "00000000-0000-0000-0000-00000000001e"),
      ("brewBuildUrl", .string "second"), ("status", .string "SUCCESSFUL")]])]

/-- The record keeps the build id and gets the second URL. -/
theorem released_of_result_twice :
    ∃ x es d' row, Delivers waiting [⟨x, EventType.importSuccess.text, twice⟩] es d' ∧
      d'.store.records.get? ⟨30⟩ = some row ∧ row.attributes.get? "brewId" = some "5" ∧
      row.attributes.get? "brewLink" = some "second" ∧
      d'.store.versions.get? ⟨1⟩ = some ⟨⟨1⟩, "1", none⟩ ∧
      d'.correlator.isPending (.ofResource ⟨20⟩) = false := by
  have run : Run ReleaseDesk.step (.empty "release" none) (releasing noon) waiting :=
    Run.iff_foldlM.mpr (Option.some_get releasing_runs).symm
  have awaits : waiting.Awaits ⟨7⟩ ⟨20⟩ := ⟨_, rfl, rfl⟩
  have reads : (Wire.decode twice : Except Json.Fault ReleaseResult) = .ok _ := rfl
  obtain ⟨x, m, -, -, -, hm, -, ⟨es, d', delivers⟩, all⟩ := released_of_result run
    (by decide +kernel) (by decide +kernel) (by decide +kernel) (by decide +kernel) awaits reads
  obtain ⟨released, -, forgotten⟩ := all es d' delivers
  have hrow : waiting.store.records.get? ⟨30⟩ = some (recordNumber ⟨30⟩ noon) := by decide +kernel
  obtain ⟨row, hrow', imported⟩ := released.records ⟨30⟩ _ hrow ⟨_, List.mem_cons_self, rfl⟩
  have here : waiting.store.milestones.get? ⟨7⟩ = some ⟨⟨7⟩, "1.0", ⟨1⟩, none, none⟩ := by
    decide +kernel
  obtain rfl := Option.some.inj (hm.symm.trans here)
  exact ⟨x, es, d', row, delivers, hrow', imported.brewId, imported.brewLink, released.versions ⟨1⟩,
    forgotten⟩

end ReleaseDesk

end Foreman
