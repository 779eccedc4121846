import Foreman.Proofs.Release.Errands

/-!
The contents of the repositories once errands are done, whatever was done in between. Two stores are
alike in which the same errands are done, since only times may differ.
-/

namespace Foreman

open Release

/-- The two are the same, but may have ended at different times. -/
structure ReleaseAttempt.Alike (a b : ReleaseAttempt) : Prop where
  same : { a with endDate := b.endDate } = b
  ended : a.endDate.isSome = b.endDate.isSome

structure Milestone.Alike (m n : Milestone) : Prop where
  same : { m with endDate := n.endDate } = n
  ended : m.endDate.isSome = n.endDate.isSome

/-- The contents are the same, but for the times at which attempts and milestones have ended. -/
structure Store.Alike (s s' : Store) : Prop where
  versions : ∀ id, s.versions.get? id = s'.versions.get? id
  milestones : ∀ id, Option.Rel Milestone.Alike (s.milestones.get? id) (s'.milestones.get? id)
  records : ∀ id, s.records.get? id = s'.records.get? id
  artifacts : ∀ id, s.artifacts.get? id = s'.artifacts.get? id
  attempts : ∀ id, Option.Rel ReleaseAttempt.Alike (s.attempts.get? id) (s'.attempts.get? id)

namespace Release

namespace Errand

/-- The rows of the errand are as they are to be when its recording is over. -/
def Recorded (c : Errand) (s : Store) : Prop := ∃ g, c.Course .ended g ∧ c.Rows s g

/-- The errands come to the same. -/
structure Agrees (c c' : Errand) : Prop where
  start : c.start = c'.start
  milestone : c.milestone = c'.milestone
  attempt : c.attempt = c'.attempt
  account : c.account = c'.account
  verdict : c.verdict = c'.verdict
  builds : c.report.builds = c'.report.builds
  after : c.after.isSome = c'.after.isSome

variable {c c' : Errand} {cs cs' : List Errand} {s₀ s s' : Store} {g g' : Progress}

theorem Agrees.refl (c : Errand) : c.Agrees c := ⟨rfl, rfl, rfl, rfl, rfl, rfl, rfl⟩

theorem Agrees.symm (h : c.Agrees c') : c'.Agrees c :=
  ⟨h.start.symm, h.milestone.symm, h.attempt.symm, h.account.symm, h.verdict.symm, h.builds.symm,
    h.after.symm⟩

/-- The milestone that a result names does not matter. -/
theorem agrees_of_result {r : ReleaseResult} (hr : c.report = .result r) (m : ResourceId) :
    c.Agrees { c with report := .result { r with milestone := m } } where
  start := rfl
  milestone := rfl
  attempt := rfl
  account := by
    rw [account, account, hr]
    rfl
  verdict := by rw [verdict, verdict, hr]
  builds := by
    rw [hr]
    rfl
  after := by
    rw [after, after, hr]
    rfl

theorem Agrees.closed (h : c.Agrees c') (now now' : Instant) :
    (c.closed now).Alike (c'.closed now') := by
  rw [Errand.closed, Errand.closed, h.attempt, h.account, h.verdict]
  refine ⟨rfl, ?_⟩
  unfold ReleaseDesk.closedAttempt
  split <;> rfl

theorem Agrees.current (h : c.Agrees c') {v : ProductVersion} (hv : c.Current v) :
    c'.Current v := by
  rwa [Current, ← h.start, ← h.milestone]

/-- Recordings of errands that come to the same leave the same rows behind. -/
theorem Course.agrees (h : c.Course .ended g) (h' : c'.Course .ended g') (agrees : c.Agrees c') :
    g.attempt.Alike g'.attempt ∧ g.milestone.Alike g'.milestone ∧ g.imported = g'.imported ∧
      g.current = g'.current := by
  have after := agrees.after
  cases h with
  | recorded hr =>
      cases h' with
      | recorded hr' =>
          refine ⟨agrees.closed .., ⟨?_, rfl⟩, agrees.builds, rfl⟩
          rw [past, past, ended, ended, agrees.milestone]
      | failed hp' => simp [Errand.after, hr, hp'] at after
  | failed hp =>
      cases h' with
      | recorded hr' => simp [Errand.after, hp, hr'] at after
      | failed hp' =>
          rw [told, told, agrees.milestone]
          exact ⟨agrees.closed .., ⟨rfl, rfl⟩, rfl, rfl⟩

theorem rel_refl {α : Type} {r : α → α → Prop} (refl : ∀ a, r a a) (o : Option α) :
    Option.Rel r o o := by
  cases o with
  | none => exact .none
  | some a => exact .some (refl a)

section Alike

variable (recorded : ∀ c ∈ cs, c.Recorded s) (recorded' : ∀ c ∈ cs', c.Recorded s')
  (forth : ∀ c ∈ cs, ∃ c' ∈ cs', c.Agrees c') (back : ∀ c' ∈ cs', ∃ c ∈ cs, c.Agrees c')

include recorded recorded' forth back

/-- Some row is a matter of an errand on either side, or of none. -/
theorem own_cases {q : Errand → Prop} (congr : ∀ c c', c.Agrees c' → q c → q c') :
    (∃ c g g', q c ∧ c.Rows s g ∧
      ∃ c', c.Agrees c' ∧ c'.Rows s' g' ∧ c.Course .ended g ∧ c'.Course .ended g') ∨
      (∀ c ∈ cs, ¬q c) ∧ ∀ c ∈ cs', ¬q c := by
  by_cases h : ∃ c ∈ cs, q c
  · obtain ⟨c, hc, own⟩ := h
    obtain ⟨c', hc', agrees⟩ := forth c hc
    obtain ⟨g, course, rows⟩ := recorded c hc
    obtain ⟨g', course', rows'⟩ := recorded' c' hc'
    exact .inl ⟨c, g, g', own, rows, c', agrees, rows', course, course'⟩
  · refine .inr ⟨fun c hc own => h ⟨c, hc, own⟩, fun c' hc' own => ?_⟩
    obtain ⟨c, hc, agrees⟩ := back c' hc'
    exact h ⟨c, hc, congr c' c agrees.symm own⟩

/-- If all that some errands ask for is recorded and nothing else is changed, the contents do not
depend on how it went. -/
theorem alike_of_recorded (within : Within cs s₀ s) (within' : Within cs' s₀ s') :
    s.Alike s' where
  versions id := by
    rcases own_cases recorded recorded' forth back
        (q := fun c => id = c.milestone.productVersion ∧ ∃ v, c.Current v)
        (fun c c' agrees ⟨hid, v, hv⟩ => ⟨agrees.milestone ▸ hid, v, agrees.current hv⟩) with
      ⟨c, g, g', ⟨rfl, v, hv⟩, rows, c', agrees, rows', course, course'⟩ | ⟨none, none'⟩
    · rw [rows.current v hv, agrees.milestone, rows'.current v (agrees.current hv),
        (course.agrees course' agrees).2.2.2]
    · have same {xs : List Errand} {u : Store} (within : Within xs s₀ u)
          (none : ∀ c ∈ xs, ¬(id = c.milestone.productVersion ∧ ∃ v, c.Current v)) :
          u.versions.get? id = s₀.versions.get? id := by
        rcases within.versions id with heq | ⟨c, hc, hid, v, hv, -⟩
        · exact heq
        · exact absurd ⟨hid, v, hv⟩ (none c hc)
      rw [same within none, same within' none']
  milestones id := by
    rcases own_cases recorded recorded' forth back (q := fun c => id = c.milestone.id)
        (fun c c' agrees hid => agrees.milestone ▸ hid) with
      ⟨c, g, g', rfl, rows, c', agrees, rows', course, course'⟩ | ⟨none, none'⟩
    · rw [rows.milestone, agrees.milestone, rows'.milestone]
      exact .some (course.agrees course' agrees).2.1
    · rw [within.milestones id none, within'.milestones id none']
      exact rel_refl (fun m => ⟨rfl, rfl⟩) _
  records id := by
    rcases own_cases recorded recorded' forth back (q := fun c => id ∈ c.report.named)
        (fun c c' agrees hid => by rwa [Report.named, ← agrees.builds]) with
      ⟨c, g, g', hid, rows, c', agrees, rows', course, course'⟩ | ⟨none, none'⟩
    · have hid' : id ∈ c'.report.named := by rwa [Report.named, ← agrees.builds]
      rw [rows.records id hid, rows'.records id hid', (course.agrees course' agrees).2.2.1,
        agrees.start]
    · rw [within.records id none, within'.records id none']
  artifacts id := by rw [within.artifacts, within'.artifacts]
  attempts id := by
    rcases own_cases recorded recorded' forth back (q := fun c => id = c.attempt.id)
        (fun c c' agrees hid => agrees.attempt ▸ hid) with
      ⟨c, g, g', rfl, rows, c', agrees, rows', course, course'⟩ | ⟨none, none'⟩
    · rw [rows.attempt, agrees.attempt, rows'.attempt]
      exact .some (course.agrees course' agrees).1
    · rw [within.attempts id none, within'.attempts id none']
      exact rel_refl (fun a => ⟨rfl, rfl⟩) _

end Alike

end Errand

end Release

end Foreman
