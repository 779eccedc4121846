import Foreman.Proofs.Release.Outcomes
import Foreman.Proofs.Release.Serving

/-!
Reports on attempts of different milestones do not get in each other's way. What is stored in the
end is what their errands say, and does not depend on the order in which they come or go on.
-/

namespace Foreman

open Release

namespace ReleaseDesk

/-- The build records that the report names, if it is a result. -/
def Delivery.named (x : Delivery) : List ResourceId :=
  match EventType.read x.name, (Wire.decode x.payload : Except Json.Fault ReleaseResult) with
  | .ok .importSuccess, .ok r => r.builds.map (·.record)
  | _, _ => []

/-- Reports on stored attempts of pairwise different milestones that name no record in common. -/
structure Independent (d : ReleaseDesk) (l : List Delivery) : Prop where
  stored : ∀ x ∈ l, d.store.attempts.get? x.attempt.id = some x.attempt
  milestones : (l.map (·.attempt.milestone)).Nodup
  records : l.Pairwise fun x y => x.named.Disjoint y.named

/-- The reports are the same, but a result may name another milestone. A failure is quoted as it is,
so it has to be the same. -/
structure Delivery.Agrees (x y : Delivery) : Prop where
  attempt : x.attempt = y.attempt
  name : x.name = y.name
  payload : x.payload = y.payload ∨ EventType.read x.name = .ok .importSuccess ∧
    ∃ r m, (Wire.decode x.payload : Except Json.Fault ReleaseResult) = .ok r ∧
      (Wire.decode y.payload : Except Json.Fault ReleaseResult) = .ok { r with milestone := m }

section Independent

variable {d t d' : ReleaseDesk} {l l' : List Delivery} {x y : Delivery} {c : Errand}
  {r : Recording} {es : List Event}

theorem Begins.named_subset (h : d.Begins x.event r) (hd : d.Tuned) {report : Report}
    (hr : r.phase = .findingMilestone report) : report.named ⊆ x.named := by
  generalize he : x.event = e at h
  cases h with
  | @result id name payload t g m a result hname hg hl hpayload =>
      obtain ⟨-, rfl, rfl⟩ := Event.dispatch.inj he
      obtain rfl := RecordingPhase.findingMilestone.inj hr
      obtain rfl : EventType.importSuccess = t :=
        Option.some.inj (hd (x := a) (w := .result) hg (by simp [hl, Listener.writer?]))
      rw [Delivery.named, hname, hpayload]
      exact List.Subset.refl _
  | failure =>
      obtain rfl := RecordingPhase.findingMilestone.inj hr
      exact List.nil_subset _

/-- The errand of a report is about the attempt that it is delivered for. -/
theorem Assigns.delivery (h : d.Assigns x.event c) (hd : d.Reliable)
    (stored : d.store.attempts.get? x.attempt.id = some x.attempt) :
    c.attempt = x.attempt ∧ c.report.named ⊆ x.named := by
  have hid : c.attempt.id = x.attempt.id :=
    CorrelationId.ofResource_injective (Option.some.inj h.correlation).symm
  have hrow := h.attempt
  rw [hid, stored] at hrow
  exact ⟨(Option.some.inj hrow).symm, h.begins.named_subset hd.tuned rfl⟩

theorem Independent.apart (h : Independent d l) (hd : d.Reliable) :
    ((l.map Delivery.event).filterMap d.errand?).Pairwise Errand.Apart := by
  rw [List.pairwise_filterMap, List.pairwise_map]
  have milestones := List.pairwise_map.mp h.milestones
  refine (milestones.and h.records).imp_of_mem fun {x y} hx hy ⟨other, disjoint⟩ c hc c' hc' => ?_
  have hc := (errand?_eq_some hd).mp hc
  have hc' := (errand?_eq_some hd).mp hc'
  obtain ⟨hattempt, hnamed⟩ := hc.delivery hd (h.stored x hx)
  obtain ⟨hattempt', hnamed'⟩ := hc'.delivery hd (h.stored y hy)
  have hmilestone : c.milestone.id ≠ c'.milestone.id := by
    rw [← hc.own, ← hc'.own, hattempt, hattempt']
    exact other
  refine ⟨hc.start.trans hc'.start.symm, hmilestone, fun hid => hmilestone ?_,
    fun id hid hid' => disjoint (hnamed hid) (hnamed' hid')⟩
  have hrow := hc.attempt
  rw [hid, hc'.attempt] at hrow
  rw [← hc.own, ← hc'.own, Option.some.inj hrow]

theorem Independent.fresh (h : Independent d l) :
    ((l.map Delivery.event).filterMap Event.correlation?).Nodup := by
  refine List.pairwise_filterMap.mpr (List.pairwise_map.mpr ?_)
  refine (List.pairwise_map.mp h.milestones).imp_of_mem fun {x y} hx hy other i hi i' hi' hid => ?_
  have hrow := h.stored x hx
  obtain rfl := Option.some.inj hi
  obtain rfl := Option.some.inj hi'
  rw [CorrelationId.ofResource_injective hid, h.stored y hy] at hrow
  exact other (congrArg ReleaseAttempt.milestone (Option.some.inj hrow).symm)

/-- What the deliveries of a run come to, in the order in which they come. -/
theorem Delivers.filterMap_perm {α : Type} (h : Delivers d l es d') {f : Event → Option α}
    (quiet : ∀ e, e.isDispatch = false → f e = none) :
    (es.filterMap f).Perm ((l.map Delivery.event).filterMap f) := by
  have same : es.filterMap f = (es.filter Event.isDispatch).filterMap f := by
    rw [List.filterMap_filter]
    refine List.filterMap_congr fun e _ => ?_
    cases he : e.isDispatch with
    | false => exact quiet e he
    | true => rfl
  rw [same]
  exact h.once.filterMap f

theorem correlation?_eq_none (e : Event) (he : e.isDispatch = false) : e.correlation? = none := by
  cases e <;> simp [Event.isDispatch] at he <;> rfl

theorem errand?_eq_none (d : ReleaseDesk) (e : Event) (he : e.isDispatch = false) :
    d.errand? e = none := by
  cases e <;> simp [Event.isDispatch] at he <;> rfl

theorem Delivers.errands_perm (h : Delivers d l es d') :
    (es.filterMap d.errand?).Perm ((l.map Delivery.event).filterMap d.errand?) :=
  h.filterMap_perm (errand?_eq_none d)

theorem Delivers.apart (h : Delivers d l es d') (hd : d.Reliable) (hl : Independent d l) :
    (es.filterMap d.errand?).Pairwise Errand.Apart :=
  (h.errands_perm.pairwise_iff fun {_ _} h => h.symm).mpr (hl.apart hd)

theorem Delivers.mem_errands (h : Delivers d l es d') :
    c ∈ es.filterMap d.errand? ↔ ∃ x ∈ l, d.errand? x.event = some c := by
  rw [h.errands_perm.mem_iff, List.mem_filterMap]
  simp

/-- At any time the recordings have kept to their errands. -/
theorem Delivers.serving_of_run (h : Delivers d l es d') (hd : d.Reliable) (hl : Independent d l)
    {es₁ : List Event} (part : es₁ <+: es) (run : Run ReleaseDesk.step d es₁ t) :
    Serving d (es₁.filterMap d.errand?) (es₁.filterMap Event.correlation?) t := by
  refine ReleaseDesk.serving_of_run hd run (fun e he => h.serving e (part.subset he)) ?_ ?_
  · have fresh := (h.filterMap_perm correlation?_eq_none).nodup_iff.mpr hl.fresh
    exact fresh.sublist (part.filterMap _).sublist
  · exact (h.apart hd hl).sublist (part.filterMap _).sublist

theorem Delivers.recorded (h : Delivers d l es d') (hd : d.Reliable) (hl : Independent d l) :
    Errand.Within (es.filterMap d.errand?) d.store d'.store ∧
      ∀ c ∈ es.filterMap d.errand?, c.Recorded d'.store := by
  have serving := h.serving_of_run hd hl (List.prefix_refl es) h.run
  refine ⟨serving.within, fun c hc => ?_⟩
  obtain ⟨j, hj⟩ := List.getElem?_of_mem hc
  obtain ⟨p, g, hr, course, rows⟩ := serving.recordings hj
  obtain rfl : p = .ended := h.ended _ (Nat.le_add_right ..) _ hr
  exact ⟨g, course, rows⟩

/-! ### Reports that say the same -/

theorem Delivery.Agrees.symm (h : x.Agrees y) : y.Agrees x where
  attempt := h.attempt.symm
  name := h.name.symm
  payload := by
    rcases h.payload with same | ⟨hname, r, m, hx, hy⟩
    · exact .inl same.symm
    · exact .inr ⟨h.name ▸ hname, _, r.milestone, hy, hx⟩

theorem Delivery.Agrees.named (h : x.Agrees y) : y.named = x.named := by
  rw [Delivery.named, Delivery.named, ← h.name]
  rcases h.payload with same | ⟨hname, r, m, hx, hy⟩
  · rw [same]
  · rw [hname, hx, hy]

theorem Begins.agrees (h : d.Begins x.event r) (agrees : x.Agrees y) (hd : d.Tuned) :
    d.Begins y.event r ∨ ∃ result m, r.phase = .findingMilestone (.result result) ∧
      d.Begins y.event
        { r with phase := .findingMilestone (.result { result with milestone := m }) } := by
  obtain ⟨attempt, name, payload⟩ := x
  obtain ⟨attempt', name', payload'⟩ := y
  obtain ⟨rfl, rfl, same | ⟨hname, result, m, hx, hy⟩⟩ := agrees
  · obtain rfl : payload = payload' := same
    exact .inl h
  · generalize he : Delivery.event ⟨attempt, name, payload⟩ = e at h
    cases h with
    | result hname' hg hl hr =>
        obtain ⟨rfl, rfl, rfl⟩ := Event.dispatch.inj he
        obtain rfl := Except.ok.inj (hx.symm.trans hr)
        exact .inr ⟨_, m, rfl, .result hname' hg hl hy⟩
    | @failure id _ _ t g m a hname' hg hl =>
        obtain ⟨-, rfl, -⟩ := Event.dispatch.inj he
        obtain rfl : EventType.importError = t :=
          Option.some.inj (hd (x := a) (w := .failure) hg (by simp [hl, Listener.writer?]))
        simp [hname] at hname'

/-- Reports that say the same come to the same. -/
theorem exists_errand_agrees (hd : d.Reliable) (agrees : x.Agrees y)
    (hc : d.errand? x.event = some c) :
    ∃ c', d.errand? y.event = some c' ∧ c.Agrees c' := by
  have hc := (errand?_eq_some hd).mp hc
  rcases hc.begins.agrees agrees hd.tuned with begins | ⟨result, m, hphase, begins⟩
  · exact ⟨c, (errand?_eq_some hd).mpr (hc.congr begins rfl rfl rfl), .refl c⟩
  · have hr : c.report = .result result := RecordingPhase.findingMilestone.inj hphase
    have begins : d.Begins y.event
        ({ c with report := .result { result with milestone := m } } : Errand).recording := begins
    exact ⟨_, (errand?_eq_some hd).mpr (hc.congr begins rfl rfl rfl), Errand.agrees_of_result hr m⟩

theorem Independent.agrees (h : Independent d l) {f : Delivery → Delivery}
    (hf : ∀ x ∈ l, x.Agrees (f x)) (perm : l'.Perm (l.map f)) : Independent d l' where
  stored y hy := by
    obtain ⟨x, hx, rfl⟩ := List.mem_map.mp (perm.mem_iff.mp hy)
    rw [← (hf x hx).attempt]
    exact h.stored x hx
  milestones := by
    have same : (l.map f).map (·.attempt.milestone) = l.map (·.attempt.milestone) := by
      rw [List.map_map]
      exact List.map_congr_left fun x hx =>
        congrArg ReleaseAttempt.milestone (hf x hx).attempt.symm
    rw [(perm.map _).nodup_iff, same]
    exact h.milestones
  records := by
    rw [perm.pairwise_iff fun {_ _} h => List.disjoint_symm h, List.pairwise_map]
    refine h.records.imp_of_mem fun {x y} hx hy disjoint => ?_
    rwa [(hf x hx).named, (hf y hy).named]

/-- What is stored in the end depends neither on the order in which the reports come nor on how
their recordings take turns, and not on the milestones that results name either. -/
theorem Delivers.alike {d'' : ReleaseDesk} {es' : List Event} (h : Delivers d l es d')
    (h' : Delivers d l' es' d'') (hd : d.Reliable) (hl : Independent d l)
    {f : Delivery → Delivery} (hf : ∀ x ∈ l, x.Agrees (f x)) (perm : l'.Perm (l.map f)) :
    d'.store.Alike d''.store := by
  obtain ⟨within, recorded⟩ := h.recorded hd hl
  obtain ⟨within', recorded'⟩ := h'.recorded hd (hl.agrees hf perm)
  refine Errand.alike_of_recorded recorded recorded' (fun c hc => ?_) (fun c hc => ?_)
    within within'
  · obtain ⟨x, hx, hc⟩ := h.mem_errands.mp hc
    obtain ⟨c', hc', agrees⟩ := exists_errand_agrees hd (hf x hx) hc
    exact ⟨c', h'.mem_errands.mpr ⟨f x, perm.mem_iff.mpr (List.mem_map_of_mem hx), hc'⟩, agrees⟩
  · obtain ⟨y, hy, hc⟩ := h'.mem_errands.mp hc
    obtain ⟨x, hx, rfl⟩ := List.mem_map.mp (perm.mem_iff.mp hy)
    obtain ⟨c', hc', agrees⟩ := exists_errand_agrees hd (hf x hx).symm hc
    exact ⟨c', h.mem_errands.mpr ⟨x, hx, hc'⟩, agrees.symm⟩

/-- No step changes other rows than those of the report that it deals with. -/
theorem Delivers.step_within {u : ReleaseDesk} {e : Event} {es₁ : List Event}
    (h : Delivers d l es d') (hd : d.Reliable) (hl : Independent d l) (part : es₁ ++ [e] <+: es)
    (run : Run ReleaseDesk.step d es₁ t) (hstep : t.step e = some u) :
    u.store = t.store ∨ ∃ k p, ∃ x ∈ l, ∃ c, e.Serves k ∧ d.errand? x.event = some c ∧
      c.attempt = x.attempt ∧ c.milestone.id = x.attempt.milestone ∧ c.report.named ⊆ x.named ∧
      t.recordings[k]? = some { c.recording with phase := p } ∧
      Errand.Within [c] t.store u.store := by
  have before : es₁ <+: es := (List.prefix_append ..).trans part
  have serving := h.serving_of_run hd hl before run
  rcases h.serving e (part.subset (List.mem_append_right _ List.mem_cons_self)) with
    dispatch | ⟨k, hk, serves⟩
  · exact .inl (step_dispatch dispatch hstep).1
  · have apart := (h.apart hd hl).sublist (before.filterMap _).sublist
    obtain ⟨-, c, hc, ⟨p, hr⟩, within⟩ := serving.serves hd apart hk serves hstep
    obtain ⟨x, hx, hc⟩ := h.mem_errands.mp ((before.filterMap _).subset hc)
    have assigns := (errand?_eq_some hd).mp hc
    obtain ⟨attempt, named⟩ := assigns.delivery hd (hl.stored x hx)
    exact .inr ⟨k, p, x, hx, c, serves, hc, attempt, attempt ▸ assigns.own.symm, named, hr, within⟩

end Independent

section Run

variable {process : String} {callbackBase : Option String} {es₀ es : List Event}
  {d d' : ReleaseDesk} {l : List Delivery}

theorem reliable_of_run (run : Run ReleaseDesk.step (.empty process callbackBase) es₀ d)
    (fresh : (notes ReleaseDesk.step generated (.empty process callbackBase) es₀).Nodup)
    (kept : notes ReleaseDesk.step misfiled (.empty process callbackBase) es₀ = [])
    (versions : d.store.VersionsKeyed) (records : d.store.RecordsKeyed) : d.Reliable :=
  ⟨⟨_, filed_of_run run fresh kept⟩, placed_of_run run fresh kept, tuned_of_run run, versions,
    records⟩

/-- Reports on attempts of pairwise different milestones that name no build record in common do not
disturb each other, wherever the desk has got to before they come. However their recordings take
turns, as long as no repository fails, the contents in the end are those that come from delivering
the reports one by one in any order, whatever milestones the results name in their payloads. Each
step changes rows of the report that it deals with only, and these become what the report makes of
them as they were; of a failure there is no more than its text in the log. Ids are not generated
twice, and others have saved rows under their own ids. -/
theorem reports_independent
    (run : Run ReleaseDesk.step (.empty process callbackBase) es₀ d)
    (fresh : (notes ReleaseDesk.step generated (.empty process callbackBase) es₀).Nodup)
    (kept : notes ReleaseDesk.step misfiled (.empty process callbackBase) es₀ = [])
    (versions : d.store.VersionsKeyed) (records : d.store.RecordsKeyed)
    (independent : Independent d l) (delivers : Delivers d l es d') :
    (∀ (f : Delivery → Delivery) (l' : List Delivery), (∀ x ∈ l, x.Agrees (f x)) →
      l'.Perm (l.map f) → (∃ es' d'', OneByOne d l' es' d'') ∧
        ∀ es' d'', OneByOne d l' es' d'' → d'.store.Alike d''.store) ∧
    (∀ es₁ e t u, es₁ ++ [e] <+: es → Run ReleaseDesk.step d es₁ t → t.step e = some u →
      u.store = t.store ∨ ∃ k p, ∃ x ∈ l, ∃ c, e.Serves k ∧ d.errand? x.event = some c ∧
        c.attempt = x.attempt ∧ c.milestone.id = x.attempt.milestone ∧
        c.report.named ⊆ x.named ∧ t.recordings[k]? = some { c.recording with phase := p } ∧
        Errand.Within [c] t.store u.store) ∧
    ∀ x ∈ l, ∀ c, d.errand? x.event = some c → c.Recorded d'.store := by
  have reliable := reliable_of_run run fresh kept versions records
  refine ⟨fun f l' hf perm => ⟨exists_oneByOne noon d l', fun es' d'' one => ?_⟩, ?_, ?_⟩
  · exact delivers.alike one.delivers reliable independent hf perm
  · exact fun es₁ e t u part before hstep =>
      delivers.step_within reliable independent part before hstep
  · intro x hx c hc
    exact (delivers.recorded reliable independent).2 c (delivers.mem_errands.mpr ⟨x, hx, hc⟩)

end Run

/-! ### Two milestones of one version -/

/-- A result with one import, for the build record `record`. It names a milestone of its own. -/
def importOf (record : String) : Json := .object [
  ("milestoneId", .string "00000000-0000-0000-0000-000000000009"),
  ("releaseStatus", .string "SUCCESS"),
  ("builds", .array [.object [("buildRecordId", .string record), ("brewBuildId", .ofNat 5),
    ("status", .string "SUCCESSFUL")]])]

def recordNumber (id : ResourceId) (now : Instant) : BuildRecord :=
  ⟨id, ⟨40⟩, "app", "git", none, ⟨.update, .completed⟩, now, now, "", .empty⟩

/-- Both milestones of a version are being released. -/
def releasing (now : Instant) : List Event := [
  .edit (Table.empty.insert ⟨1⟩ ⟨⟨1⟩, "1", some ⟨7⟩⟩)
    ((Table.empty.insert ⟨7⟩ ⟨⟨7⟩, "1.0", ⟨1⟩, none, none⟩).insert ⟨8⟩
      ⟨⟨8⟩, "1.1", ⟨1⟩, none, none⟩)
    ((Table.empty.insert ⟨30⟩ (recordNumber ⟨30⟩ now)).insert ⟨31⟩ (recordNumber ⟨31⟩ now))
    .empty,
  .beginStart ⟨7⟩ "token", .beginStart ⟨8⟩ "token",
  .answerStart 0 none now ⟨20⟩, .answerStart 0 none now ⟨20⟩, .answerStart 0 none now ⟨20⟩,
  .answerStart 1 none now ⟨21⟩, .answerStart 1 none now ⟨21⟩, .answerStart 1 none now ⟨21⟩,
  .answerAsking 0 (.ok ()) now, .answerAsking 1 (.ok ()) now]

def older : Delivery :=
  ⟨firstAttempt ⟨20⟩ ⟨7⟩ noon, "IMPORT_SUCCESS", importOf "00000000-0000-0000-0000-00000000001e"⟩

def newer : Delivery :=
  ⟨firstAttempt ⟨21⟩ ⟨8⟩ noon, "IMPORT_SUCCESS", importOf "00000000-0000-0000-0000-00000000001f"⟩

/-- The recordings take turns from one answer to the next. -/
def takingTurns (now : Instant) : List Event :=
  [older.event, newer.event] ++
    (List.replicate 4 [0, 1]).flatten.map (.answerRecording · none now) ++
    [.recordingAnnounced 0 now, .recordingAnnounced 1 now] ++
    (List.replicate 4 [0, 1]).flatten.map (.answerRecording · none now) ++
    [.answerRecording 0 none now]

theorem releasing_runs :
    ((releasing noon).foldlM ReleaseDesk.step (.empty "release" none)).isSome = true := by
  decide +kernel

/-- The desk when the reports come. -/
def waiting : ReleaseDesk :=
  ((releasing noon).foldlM ReleaseDesk.step (.empty "release" none)).get releasing_runs

theorem takingTurns_runs :
    ((takingTurns noon).foldlM ReleaseDesk.step waiting).isSome = true := by
  decide +kernel

def released : ReleaseDesk :=
  ((takingTurns noon).foldlM ReleaseDesk.step waiting).get takingTurns_runs

theorem takingTurns_delivers : Delivers waiting [older, newer] (takingTurns noon) released where
  run := Run.iff_foldlM.mpr (Option.some_get takingTurns_runs).symm
  once := .refl _
  serving := by decide +kernel
  ended k _ r hr := by
    have all : released.recordings.all (·.phase.calls = 0) = true := by decide +kernel
    have none := List.all_eq_true.mp all r (List.mem_of_getElem? hr)
    exact RecordingPhase.calls_eq_zero (of_decide_eq_true none)

theorem independent_waiting : Independent waiting [older, newer] where
  stored := by decide +kernel
  milestones := by decide
  records := by
    have h : older.named = [⟨30⟩] := by decide +kernel
    have h' : newer.named = [⟨31⟩] := by decide +kernel
    rw [List.pairwise_pair, h, h', List.singleton_disjoint]
    decide

/-- The version is left without a current milestone, as if the reports had come the other way
round. -/
theorem reports_independent_one_version :
    released.store.versions.get? ⟨1⟩ = some ⟨⟨1⟩, "1", none⟩ ∧
      ∃ es' d'', OneByOne waiting [newer, older] es' d'' ∧ released.store.Alike d''.store := by
  have run : Run ReleaseDesk.step (.empty "release" none) (releasing noon) waiting :=
    Run.iff_foldlM.mpr (Option.some_get releasing_runs).symm
  obtain ⟨⟨es', d'', one⟩, alike⟩ := (reports_independent run (by decide +kernel)
    (by decide +kernel) (by decide +kernel) (by decide +kernel) independent_waiting
    takingTurns_delivers).1 id [newer, older] (fun x _ => ⟨rfl, rfl, .inl rfl⟩) (.swap _ _ _)
  exact ⟨by decide +kernel, es', d'', one, alike es' d'' one⟩

end ReleaseDesk

end Foreman
