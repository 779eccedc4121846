import Foreman.Proofs.Chronology
import Foreman.Proofs.Coordinator.Completion
import Mathlib.Data.List.Induction

/-!
The builds that are with the driver. A build is there from the call that starts it to the answer
that it was not started or how it went. All that time its task is in the running set, so the next
build of its configuration is not taken in before the earlier one has left the driver.
-/

namespace Foreman

def DrivePhase.isAtDriver : DrivePhase → Bool
  | .starting | .monitoring => true
  | .arriving | .waiting _ | .ended => false

/-- A drive enters the driver with a call and leaves it with an answer. -/
inductive Passage where
  | entered (drive : Nat) (id : BuildIdentity)
  | left (drive : Nat)
deriving DecidableEq

namespace Coordinator

/-- The build that a drive is there for. -/
def build? (c : Coordinator) (k : Nat) : Option BuildIdentity := do
  let d ← c.drives[k]?
  let t ← c.task? d.task
  return t.identity

/-- The passages in a step that asks `o` of others: the call that starts a build, the answer that it
was not started, and any answer how it went. -/
def passagesOf (c : Coordinator) (a : Action) (o : Option Errand) : List Passage :=
  match o, a with
  | some (.start k), _ => (c.build? k).toList.map (.entered k)
  | _, .started k (.error _) => [.left k]
  | _, .monitored k _ _ => [.left k]
  | _, _ => []

def passages (c : Coordinator) (a : Action) : List Passage :=
  match c.step a with
  | some (_, o) => c.passagesOf a o
  | none => []

/-- The drive has entered with the build and has not left since. -/
def Within (l : List Passage) (k : Nat) (id : BuildIdentity) : Prop :=
  ∃ l₁ l₂, l = l₁ ++ .entered k id :: l₂ ∧ .left k ∉ l₂

theorem not_within_nil (k : Nat) (id : BuildIdentity) : ¬Within [] k id := by
  rintro ⟨l₁, l₂, h, -⟩
  simp at h

/-- One who is within after one more passage has just entered or was within and has not just left.
-/
theorem Within.concat {l : List Passage} {p : Passage} {k : Nat} {id : BuildIdentity}
    (h : Within (l ++ [p]) k id) : p = .entered k id ∨ Within l k id ∧ p ≠ .left k := by
  obtain ⟨l₁, l₂, heq, hstay⟩ := h
  cases l₂ using List.reverseRecOn with
  | nil =>
      obtain ⟨-, hp⟩ := List.append_inj' heq rfl
      exact .inl (by simpa using hp)
  | append_singleton l₂ q =>
      rw [← List.cons_append, ← List.append_assoc] at heq
      obtain ⟨hl, hp⟩ := List.append_inj' heq rfl
      obtain rfl : p = q := by simpa using hp
      refine .inr ⟨⟨l₁, l₂, hl, fun hmem => hstay (List.mem_append_left _ hmem)⟩, ?_⟩
      rintro rfl
      exact hstay (List.mem_append_right _ List.mem_cons_self)

/-- A task of that identity is in the running set. -/
def IsInFlight (c : Coordinator) (id : BuildIdentity) : Prop :=
  ∃ i ∈ c.running.members.values, ∃ t, c.task? i = some t ∧ t.identity = id

section Sound

variable {c c' : Coordinator} {a : Action} {o : Option Errand} {j k : Nat} {t u : Task}

theorem Membership.isInFlight_iff (h : c.Membership) (id : BuildIdentity) :
    c.IsInFlight id ↔ c.running.contains id = true := by
  have hcontains : c.running.contains id = true ↔ ∃ i, c.running.get? id = some i :=
    Option.isSome_iff_exists
  rw [hcontains]
  constructor
  · rintro ⟨i, hi, t, ht, rfl⟩
    obtain ⟨id, hid⟩ := (Table.mem_values _).mp hi
    obtain ⟨t', ht', rfl, -⟩ := h.mem.mp hid
    obtain rfl : t = t' := Option.some.inj (ht.symm.trans ht')
    exact ⟨i, hid⟩
  · rintro ⟨i, hi⟩
    obtain ⟨t, ht, rfl, -⟩ := h.mem.mp hi
    exact ⟨i, (Table.mem_values _).mpr ⟨_, hi⟩, t, ht, rfl⟩

/-- A build whose drive goes on has not been queued yet, so it is in the running set. -/
theorem Sound.running_of_drive (h : c.Sound) {p : DrivePhase} (hd : c.drives[k]? = some ⟨k, p⟩)
    (hp : p ≠ .ended) (ht : c.task? k = some t) : c.running.get? t.identity = some k := by
  have fits := h.steady.fit hd ht
  have uncompleted : t.completion = none := by
    cases hn : t.completion with
    | none => rfl
    | some r =>
        have hq : t.enqueued = true := h.ledger.order ht (by rw [Task.isCompleted, hn]; rfl)
        exact (hp (fits_ended fits hq)).elim
  exact h.members.mem.mpr ⟨t, ht, rfl, uncompleted⟩

/-- No two drives go on with builds of one identity. -/
theorem Sound.drive_unique (h : c.Sound) {p q : DrivePhase} (hj : c.drives[j]? = some ⟨j, p⟩)
    (hp : p ≠ .ended) (hk : c.drives[k]? = some ⟨k, q⟩) (hq : q ≠ .ended)
    (ht : c.task? j = some t) (hu : c.task? k = some u) (same : t.identity = u.identity) :
    j = k := by
  have hj := h.running_of_drive hj hp ht
  have hk := h.running_of_drive hk hq hu
  rw [same, hk] at hj
  exact (Option.some.inj hj).symm

/-- The build that a drive has with the driver. -/
def atDriver? (c : Coordinator) (k : Nat) : Option BuildIdentity := do
  let d ← c.drives[k]?
  if d.phase.isAtDriver then (c.task? d.task).map Task.identity else none

theorem atDriver?_eq_some (h : c.Sound) {id : BuildIdentity} :
    c.atDriver? k = some id ↔ ∃ p t, c.drives[k]? = some ⟨k, p⟩ ∧ p.isAtDriver = true ∧
      c.task? k = some t ∧ t.identity = id := by
  unfold atDriver?
  constructor
  · intro hk
    simp only [Option.bind_eq_bind, Option.bind_eq_some_iff] at hk
    obtain ⟨⟨i, p⟩, hd, hk⟩ := hk
    obtain rfl : i = k := (h.steady.fits hd).1
    split at hk
    next hp =>
      obtain ⟨t, ht, hid⟩ := Option.map_eq_some_iff.mp hk
      exact ⟨p, t, hd, hp, ht, hid⟩
    next => simp at hk
  · rintro ⟨p, t, hd, hp, ht, rfl⟩
    simp [hd, hp, ht]

theorem ne_ended_of_isAtDriver {p : DrivePhase} (h : p.isAtDriver = true) : p ≠ .ended := by
  rintro rfl
  simp [DrivePhase.isAtDriver] at h

/-- What a step does to the builds that are with the driver. -/
inductive Passing (c c' : Coordinator) : List Passage → Prop
  | enter (k : Nat) (id : BuildIdentity) (outside : c.atDriver? k = none)
      (now : ∀ j, c'.atDriver? j = if k = j then some id else c.atDriver? j) :
      Passing c c' [.entered k id]
  | leave (k : Nat) (now : ∀ j, c'.atDriver? j = if k = j then none else c.atDriver? j) :
      Passing c c' [.left k]
  | stay (now : ∀ j, c'.atDriver? j = c.atDriver? j) : Passing c c' []

/-- A drive of which nothing changes is with the driver as before. -/
theorem atDriver?_congr (h : c.Sound) (m : Move c a c' o) (same : c'.drives[k]? = c.drives[k]?) :
    c'.atDriver? k = c.atDriver? k := by
  unfold atDriver?
  rw [same]
  cases hd : c.drives[k]? with
  | none => rfl
  | some d =>
      obtain ⟨hi, t, ht, -⟩ := h.steady.fits hd
      obtain ⟨-, t', ht', -⟩ := (Steady.move h m).fits (same.trans hd)
      have hjob := job_move h m ht ht'
      simp [hi, ht, ht', Task.identity, hjob]

theorem atDriver?_withDrive (h : c.Sound) (m : Move c a c' o) {d : Drive} {p : DrivePhase}
    (hd : c.drives[k]? = some d) (drives : c'.drives = (c.withDrive k p).drives)
    (ht : c.task? k = some t) (j : Nat) :
    c'.atDriver? j =
      if k = j then if p.isAtDriver then some t.identity else none else c.atDriver? j := by
  have hj : c'.drives[j]? = if k = j then (c.drives[j]?).map fun d => { d with phase := p }
      else c.drives[j]? := by
    rw [drives, getElem?_withDrive]
  split
  next hkj =>
    subst hkj
    rw [if_pos rfl, hd, Option.map_some] at hj
    obtain ⟨hi, t', ht', -⟩ := (Steady.move h m).fits hj
    have hjob := job_move h m ht ht'
    simp [atDriver?, hj, show d.task = k from hi, ht', Task.identity, hjob]
  next hkj =>
    rw [if_neg hkj] at hj
    exact atDriver?_congr h m hj

/-- A drive that is with the driver neither before nor after the step, or both times. -/
theorem Passing.onward (h : c.Sound) (m : Move c a c' o) {p q : DrivePhase}
    (hd : c.drives[k]? = some ⟨k, p⟩) (drives : c'.drives = (c.withDrive k q).drives)
    (hpq : p.isAtDriver = q.isAtDriver) : Passing c c' [] := by
  obtain ⟨t, ht⟩ := h.steady.task hd
  refine .stay fun j => ?_
  rw [atDriver?_withDrive h m hd drives ht j]
  split
  next hj =>
    subst hj
    simp [atDriver?, hd, ht, hpq]
  next => rfl

theorem Passing.ended (h : c.Sound) (m : Move c a c' o) {p : DrivePhase}
    (hd : c.drives[k]? = some ⟨k, p⟩) (drives : c'.drives = (c.withDrive k .ended).drives) :
    Passing c c' [.left k] := by
  obtain ⟨t, ht⟩ := h.steady.task hd
  exact .leave k (atDriver?_withDrive h m hd drives ht)

theorem Passing.started (h : c.Sound) (m : Move c a c' o) {p : DrivePhase}
    (hd : c.drives[k]? = some ⟨k, p⟩) (hp : p.isAtDriver = false) (ht : c.task? k = some t)
    (drives : c'.drives = (c.withDrive k .starting).drives) :
    Passing c c' [.entered k t.identity] := by
  have outside : c.atDriver? k = none := by simp [atDriver?, hd, hp]
  exact .enter k t.identity outside (atDriver?_withDrive h m hd drives ht)

theorem drives_stop (c : Coordinator) (p : Nat) : (c.stop p).drives = c.drives := by
  unfold Coordinator.stop
  split <;> rfl

theorem passing_move (h : c.Sound) (m : Move c a c' o) : Passing c c' (c.passagesOf a o) := by
  have m' := m
  cases m with
  | refuse | forward | forwarded | spawn | take | report =>
      exact .stay fun _ => atDriver?_congr h m' rfl
  | @enroll configuration url now =>
      refine .stay fun j => ?_
      by_cases hj : j < c.drives.length
      · exact atDriver?_congr h m' (List.getElem?_append_left hj)
      · -- The drive that is new has not reached the driver.
        have new {d : Drive}
            (hd : (c.drives ++ [⟨c.workshop.tasks.length, .arriving⟩])[j]? = some d) :
            d.phase.isAtDriver = false := by
          rcases getElem?_concat_cases hd with hd | ⟨-, rfl⟩
          · exact (hj (List.getElem?_eq_some_iff.mp hd).1).elim
          · rfl
        have before : c.atDriver? j = none := by
          simp [atDriver?, List.getElem?_eq_none (Nat.not_lt.mp hj)]
        rw [before]
        unfold atDriver?
        cases hd : (c.enroll (.new ⟨configuration, now, url⟩ now)).drives[j]? with
        | none => rfl
        | some d => simp [new hd]
  | @run k now phase t hd hp ht free =>
      have entered : c.passagesOf (.drive k now) (some (.start k)) = [.entered k t.identity] := by
        simp [passagesOf, build?, hd, ht]
      rw [entered]
      rcases hp with rfl | ⟨w, rfl, -⟩
      · exact .started h m' hd rfl ht rfl
      · exact .started h m' hd rfl ht rfl
  | wait hd | stay hd | started hd => exact .onward h m' hd rfl rfl
  | unstarted hd | failed hd | finished hd => exact .ended h m' hd rfl
  | stop => exact .stay fun j => atDriver?_congr h m' (by rw [drives_stop])
  | pass | reported => exact .stay fun j => atDriver?_congr h m' (by rw [drives_finish])

end Sound

section Run

variable {c c' : Coordinator} {a : Action} {k : Nat} {reports : Bool} {as : List Action}
  {l ps : List Passage}

/-- Who is within by the passages so far is still within by those of the next step as well, unless
it has left. -/
theorem within_passing (p : Passing c c' ps)
    (h : ∀ {k id}, Within l k id → c.atDriver? k = some id) {j : Nat} {id : BuildIdentity}
    (hw : Within (l ++ ps) j id) : c'.atDriver? j = some id := by
  cases p with
  | enter k id' outside now =>
      rw [now j]
      rcases hw.concat with heq | ⟨hw, -⟩
      · obtain ⟨rfl, rfl⟩ : k = j ∧ id' = id := by simpa using heq
        exact if_pos rfl
      · have inside := h hw
        rw [if_neg (by rintro rfl; simp [outside] at inside)]
        exact inside
  | leave k now =>
      rw [now j]
      rcases hw.concat with heq | ⟨hw, hne⟩
      · simp at heq
      · rw [if_neg (by rintro rfl; exact hne rfl)]
        exact h hw
  | stay now =>
      rw [List.append_nil] at hw
      exact (now j).trans (h hw)

theorem within_of_run (run : Run next (.empty reports) as c) :
    ∀ {j id}, Within (notes next passages (.empty reports) as) j id → c.atDriver? j = some id := by
  induction run with
  | nil =>
      intro j id hw
      exact (not_within_nil j id hw).elim
  | snoc before last ih =>
      intro j id hw
      have h := sound_of_run before
      rw [notes_snoc passages before last] at hw
      obtain ⟨⟨c', o⟩, hs, rfl⟩ := Option.map_eq_some_iff.mp last
      rw [passages, hs] at hw
      exact within_passing (passing_move h (step_move h.steady hs)) ih hw

/-- A build that is to be started finds no other one of its identity with the driver. -/
theorem Sound.start_alone (h : c.Sound) (hs : c.step a = some (c', some (.start k))) :
    ∃ id, c.build? k = some id ∧ ∀ j, c.atDriver? j ≠ some id := by
  cases step_move h.steady hs with
  | @run k now p t hd hp ht free =>
      obtain ⟨outside, open'⟩ : p.isAtDriver = false ∧ p ≠ .ended := by
        rcases hp with rfl | ⟨w, rfl, -⟩
        · exact ⟨rfl, by simp⟩
        · exact ⟨rfl, by simp⟩
      refine ⟨t.identity, by simp [build?, hd, ht], fun j hj => ?_⟩
      obtain ⟨q, u, hdj, hq, hu, same⟩ := (atDriver?_eq_some h).mp hj
      obtain rfl : j = k := h.drive_unique hdj (ne_ended_of_isAtDriver hq) hd open' hu ht same
      obtain rfl : p = q := by simpa using hd.symm.trans hdj
      simp [outside] at hq

/-- When the driver is called to start a build, no other one of that configuration is within, by the
calls and answers up to then. A build is refused exactly when one of its configuration is in the
running set, and nothing changes then. -/
theorem single_flight (run : Run next (.empty reports) as c) :
    (∀ a c' k, c.step a = some (c', some (.start k)) →
      ∃ id, c.build? k = some id ∧
        ∀ j, ¬Within (notes next passages (.empty reports) as) j id) ∧
    ∀ configuration url now,
      match c.submit configuration url now with
      | .error fault => c.IsInFlight configuration.identity ∧
          fault = .duplicateTask configuration.identity ∧
          c.step (.submit configuration url now) = some (c, none)
      | .ok c' => ¬c.IsInFlight configuration.identity ∧
          c.step (.submit configuration url now) = some (c', none) := by
  have h := sound_of_run run
  refine ⟨fun a c' k hs => ?_, fun configuration url now => ?_⟩
  · obtain ⟨id, hid, alone⟩ := h.start_alone hs
    exact ⟨id, hid, fun j hw => alone j (within_of_run run hw)⟩
  have inFlight := h.members.isInFlight_iff configuration.identity
  rw [inFlight]
  simp only [step, submit_eq]
  cases hdup : c.running.contains configuration.identity with
  | true => exact ⟨rfl, rfl, rfl⟩
  | false => exact ⟨by simp, rfl⟩

end Run

def smallBuild : BuildConfiguration := ⟨⟨1⟩, "app", "git", none, "make", .empty, []⟩

/-- A build that is submitted twice, the second time in vain, and once more when it is over. -/
def resubmission (now : Instant) : List Action := [
  .spawn,
  .submit smallBuild none now,
  .drive 0 now,
  .submit smallBuild none now,
  .started 0 (.ok ()),
  .monitored 0 (.ok ⟨"app", some 7, true, "done"⟩) now,
  .take now ⟨30⟩,
  .saved 0,
  .submit smallBuild none now]

theorem resubmission_runs : ((resubmission noon).foldlM next (.empty false)).isSome = true := by
  decide +kernel

theorem passages_resubmission :
    notes next passages (.empty false) (resubmission noon) = [.entered 0 ⟨⟨1⟩⟩, .left 0] := by
  decide +kernel

/-- Whether the driver would be called for a drive. -/
def startsAt (c : Coordinator) (k : Nat) (now : Instant) : Bool :=
  match c.step (.drive k now) with
  | some (_, some (.start j)) => j = k
  | _ => false

theorem resubmission_goes_on :
    ((resubmission noon).foldlM next (.empty false)).any (fun c =>
      startsAt c 1 noon && c.build? 1 = some ⟨⟨1⟩⟩ &&
        !(c.submit smallBuild none noon).isOk) = true := by
  decide +kernel

/-- Here the second build finds the driver free when it is to be started, and a third one is
refused. -/
theorem resubmission_alone :
    ∃ c, Run next (.empty false) (resubmission noon) c ∧ c.build? 1 = some ⟨⟨1⟩⟩ ∧
      (∀ j, ¬Within [.entered 0 ⟨⟨1⟩⟩, .left 0] j ⟨⟨1⟩⟩) ∧ c.IsInFlight ⟨⟨1⟩⟩ := by
  obtain ⟨c, hc⟩ := Option.isSome_iff_exists.mp resubmission_runs
  have goesOn := resubmission_goes_on
  rw [hc, Option.any_some, Bool.and_eq_true, Bool.and_eq_true, decide_eq_true_eq] at goesOn
  obtain ⟨⟨starts, hid⟩, refused⟩ := goesOn
  have run := Run.iff_foldlM.mpr hc
  obtain ⟨alone, submitted⟩ := single_flight run
  refine ⟨c, run, hid, ?_, ?_⟩
  · unfold startsAt at starts
    split at starts
    next c' j hs =>
      obtain rfl : j = 1 := by simpa using starts
      obtain ⟨id, hid', free⟩ := alone _ _ _ hs
      obtain rfl : id = ⟨⟨1⟩⟩ := Option.some.inj (hid'.symm.trans hid)
      rwa [passages_resubmission] at free
    next => cases starts
  · have outcome := submitted smallBuild none noon
    split at outcome
    next => exact outcome.1
    next heq =>
      rw [heq] at refused
      cases refused

end Coordinator

end Foreman
