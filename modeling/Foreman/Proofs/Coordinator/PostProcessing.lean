import Foreman.Proofs.Chronology
import Foreman.Proofs.Coordinator.Hands

/-!
What happens to a build once it has run. One processor saves its record, reports its result if that is
due, and completes it; nothing else does any of this for the build, and nobody who waits for it finds
it dropped.
-/

namespace Foreman

/-- What a processor does for the build in its hand. -/
inductive Duty where
  | save (r : BuildRecord)
  | report (url : String) (r : BuildResult)
  /-- Completes the build, and whether that was possible. -/
  | complete (ok : Bool)

structure PostCall where
  processor : Nat
  /-- The build in the hand of the processor, if there is one. -/
  task : Option Nat
  duty : Duty

/-- Whether the call may be for the task. One with no build in hand might be for any. -/
def PostCall.concerns (x : PostCall) (i : Nat) : Bool := x.task.all (· = i)

@[simp] theorem PostCall.concerns_some (p i j : Nat) (d : Duty) :
    PostCall.concerns ⟨p, some j, d⟩ i = decide (j = i) := rfl

def ProcessorPhase.inHand? : ProcessorPhase → Option QueuedTask
  | .saving e _ | .reporting e => some e
  | _ => none

namespace Coordinator

/-! ### The calls of a step -/

/-- The build that the processor has in hand. -/
def hand? (c : Coordinator) (p : Nat) : Option QueuedTask :=
  (c.processors[p]?).bind fun r => r.phase.inHand?

/-- The call that a step asks for, with the build that the processor has in hand after it. -/
def asked (c' : Coordinator) : Errand → List PostCall
  | .save p r => [⟨p, (c'.hand? p).map (·.task), .save r⟩]
  | .report p url r => [⟨p, (c'.hand? p).map (·.task), .report url r⟩]
  | _ => []

/-- A processor that lays a build down completes it. -/
def laidDown (c c' : Coordinator) (p : Nat) : Option PostCall :=
  match c.hand? p, c'.hand? p with
  | some e, none => some ⟨p, some e.task, .complete (c.workshop.complete e.task).isOk⟩
  | _, _ => none

/-- What is called for any build in a step, in order. -/
def calls (c : Coordinator) (a : Action) : List PostCall :=
  match c.step a with
  | some (c', o) =>
    o.toList.flatMap c'.asked ++ (List.range c.processors.length).filterMap (c.laidDown c')
  | none => []

/-- What a run calls for the task, in order. -/
def callsFor (i : Nat) (c : Coordinator) (as : List Action) : List PostCall :=
  (notes next calls c as).filter (PostCall.concerns · i)

/-- All that is to be done for a task, by one processor. -/
def script (reports : Bool) (j : BuildJob) (p i : Nat) (r : BuildRecord) (result : BuildResult) :
    List PostCall :=
  ⟨p, some i, .save r⟩ ::
    ((if reports then j.callbackUrl else none).toList.map fun url => ⟨p, some i, .report url result⟩) ++
    [⟨p, some i, .complete true⟩]

section Calls

variable {c c' : Coordinator} {a : Action} {o : Option Errand} {p : Nat}
  {phase phase' : ProcessorPhase} {b : Bool}

theorem hand?_of_processor (hp : c.processors[p]? = some ⟨phase, b⟩) :
    c.hand? p = phase.inHand? := by
  simp [hand?, hp]

theorem calls_quiet (hs : c.step a = some (c', o)) (ho : o.toList.flatMap c'.asked = [])
    (hands : ∀ p, p < c.processors.length → c'.hand? p = c.hand? p) : c.calls a = [] := by
  have hlaid : ∀ p ∈ List.range c.processors.length, c.laidDown c' p = none := by
    intro p hp
    rw [laidDown, hands p (List.mem_range.mp hp)]
    cases c.hand? p <;> rfl
  simp only [calls, hs, ho, List.nil_append]
  exact List.filterMap_eq_nil_iff.mpr hlaid

/-- Only the processor that a step moves may lay a build down in it. -/
theorem calls_withProcessor (hs : c.step a = some (c', o))
    (hp : c.processors[p]? = some ⟨phase, b⟩)
    (processors : c'.processors = (c.withProcessor p phase').processors) :
    c.calls a = o.toList.flatMap c'.asked ++ (c.laidDown c' p).toList := by
  -- The others have the same in hand as before.
  have hother : ∀ q, q ≠ p → c.laidDown c' q = none := by
    intro q hq
    have hhand : c'.hand? q = c.hand? q := by
      rw [hand?, hand?, processors, getElem?_withProcessor, if_neg (Ne.symm hq)]
    rw [laidDown, hhand]
    cases c.hand? q <;> rfl
  simp only [calls, hs]
  rw [filterMap_range hother (List.getElem?_eq_some_iff.mp hp).1]

theorem hand?_withProcessor (hp : c.processors[p]? = some ⟨phase, b⟩) (phase' : ProcessorPhase)
    (processors : c'.processors = (c.withProcessor p phase').processors) :
    c'.hand? p = phase'.inHand? := by
  rw [hand?, processors, getElem?_withProcessor]
  simp [hp]

end Calls

/-! ### One hand for each task -/

/-- The phase of the processor if it has the task in hand. -/
def grip? (c : Coordinator) (i p : Nat) : Option ProcessorPhase :=
  ((c.processors[p]?).map (·.phase)).filter (ProcessorPhase.carries i)

section Grip

variable {c c' : Coordinator} {i p q : Nat} {phase phase' : ProcessorPhase} {b : Bool}

theorem grip?_of_processor (hp : c.processors[p]? = some ⟨phase, b⟩) :
    c.grip? i p = if ProcessorPhase.carries i phase then some phase else none := by
  simp [grip?, hp, Option.filter]

theorem exists_of_grip (h : c.grip? i p = some phase) :
    ProcessorPhase.carries i phase = true ∧ ∃ b, c.processors[p]? = some ⟨phase, b⟩ := by
  obtain ⟨hphase, hc⟩ := Option.filter_eq_some_iff.mp h
  obtain ⟨⟨_, b⟩, hp, rfl⟩ := Option.map_eq_some_iff.mp hphase
  exact ⟨hc, b, hp⟩

theorem grip?_withProcessor (hp : c.processors[p]? = some ⟨phase, b⟩)
    (processors : c'.processors = (c.withProcessor p phase').processors) (i q : Nat) :
    c'.grip? i q =
      if p = q then if ProcessorPhase.carries i phase' then some phase' else none
      else c.grip? i q := by
  rw [grip?, processors, getElem?_withProcessor]
  split
  next hq =>
    subst hq
    simp [hp, Option.filter]
  next => rfl

theorem Sound.grip_unique (h : c.Sound) (hp : c.grip? i p = some phase)
    (hq : c.grip? i q = some phase') : p = q ∧ phase = phase' := by
  obtain ⟨hc, b, hp'⟩ := exists_of_grip hp
  obtain ⟨hc', b', hq'⟩ := exists_of_grip hq
  -- The task is due once at most, so it is in one hand at most.
  have hle : c.processors.countP (ProcessorPhase.carries i ·.phase) ≤ 1 := by
    have hheld := h.ledger.held i
    have hle := owed_le c i
    rw [held] at hheld
    omega
  obtain rfl := eq_of_countP_le_one hle hp' hc hq' hc'
  exact ⟨rfl, by simpa using hp.symm.trans hq⟩

end Grip

/-- No processor has changed but some without a build in hand. -/
def Alike (c c' : Coordinator) : Prop :=
  ∀ p, (c'.processors[p]?).map (·.phase) = (c.processors[p]?).map (·.phase) ∨
    c'.hand? p = none ∧ c.hand? p = none

section Alike

variable {c c' : Coordinator}

theorem hand?_eq (c : Coordinator) (p : Nat) :
    c.hand? p = ((c.processors[p]?).map (·.phase)).bind (·.inHand?) := by
  simp only [hand?, Option.bind_map]
  rfl

theorem carries_iff {i : Nat} {phase : ProcessorPhase} :
    ProcessorPhase.carries i phase = true ↔ ∃ e, phase.inHand? = some e ∧ e.task = i := by
  cases phase <;> simp [ProcessorPhase.carries, ProcessorPhase.inHand?]

theorem grip?_of_hand {p : Nat} (h : c.hand? p = none) (i : Nat) : c.grip? i p = none := by
  refine Option.eq_none_iff_forall_ne_some.mpr fun phase hp => ?_
  obtain ⟨hc, b, hp⟩ := exists_of_grip hp
  obtain ⟨e, he, -⟩ := carries_iff.mp hc
  simp [hand?_of_processor hp, he] at h

theorem Alike.hand (h : c.Alike c') (p : Nat) : c'.hand? p = c.hand? p := by
  rcases h p with h | ⟨h', h⟩
  · rw [hand?_eq, hand?_eq, h]
  · rw [h', h]

theorem Alike.grip (h : c.Alike c') (i p : Nat) : c'.grip? i p = c.grip? i p := by
  rcases h p with h | ⟨h', h⟩
  · rw [grip?, grip?, h]
  · rw [grip?_of_hand h', grip?_of_hand h]

theorem alike_of_processors (h : c'.processors = c.processors) : c.Alike c' :=
  fun p => .inl (by rw [h])

/-- One more processor, which has no build in hand. -/
theorem alike_concat {r : Processor} (processors : c'.processors = c.processors ++ [r])
    (hr : r.phase.inHand? = none) : c.Alike c' := by
  intro p
  by_cases hp : p < c.processors.length
  · exact .inl (by rw [processors, List.getElem?_append_left hp])
  · have hnone : c.processors[p]? = none := List.getElem?_eq_none_iff.mpr (by omega)
    refine .inr ⟨Option.eq_none_iff_forall_ne_some.mpr fun e he => ?_, by simp [hand?, hnone]⟩
    obtain ⟨r', hr', he⟩ := Option.bind_eq_some_iff.mp he
    rcases getElem?_concat_cases (processors ▸ hr') with hr' | ⟨-, rfl⟩
    · simp [hnone] at hr'
    · simp [hr] at he

theorem alike_spawn (c : Coordinator) : c.Alike c.spawn := alike_concat rfl rfl

/-- The processor is to stop after the build in hand. -/
theorem alike_mark (c : Coordinator) (p : Nat) :
    c.Alike { c with
      processors := c.processors.modify p fun r => { r with stopping := true } } := by
  intro q
  left
  by_cases hq : p = q
  · subst hq
    simp [Function.comp_def]
  · simp [hq]

theorem alike_stop (c : Coordinator) (p : Nat) : c.Alike (c.stop p) := by
  unfold Coordinator.stop
  split
  next b hp =>
    intro q
    by_cases hq : p = q
    · subst hq
      refine .inr ⟨?_, by simp [hand?_of_processor hp, ProcessorPhase.inHand?]⟩
      exact hand?_withProcessor (c := c) hp .stopped rfl
    · left
      rw [getElem?_withProcessor, if_neg hq]
  next => exact alike_mark c p

end Alike

section Calls

variable {c c' : Coordinator} {a : Action} {p : Nat} {phase : ProcessorPhase} {b : Bool}
  {e : QueuedTask} {r : BuildRecord}

theorem calls_take (hs : c.step a = some (c', some (.save p r)))
    (hp : c.processors[p]? = some ⟨.idle, b⟩)
    (processors : c'.processors = (c.withProcessor p (.saving e r)).processors) :
    c.calls a = [⟨p, some e.task, .save r⟩] := by
  have hbefore : c.hand? p = none := hand?_of_processor hp
  have hafter : c'.hand? p = some e := hand?_withProcessor hp _ processors
  rw [calls_withProcessor hs hp processors]
  simp [asked, laidDown, hbefore, hafter]

theorem calls_report {url : String} {result : BuildResult}
    (hs : c.step a = some (c', some (.report p url result)))
    (hp : c.processors[p]? = some ⟨.saving e r, b⟩)
    (processors : c'.processors = (c.withProcessor p (.reporting e)).processors) :
    c.calls a = [⟨p, some e.task, .report url result⟩] := by
  have hbefore : c.hand? p = some e := hand?_of_processor hp
  have hafter : c'.hand? p = some e := hand?_withProcessor hp _ processors
  rw [calls_withProcessor hs hp processors]
  simp [asked, laidDown, hbefore, hafter]

theorem calls_finish (h : c.Sound) (hs : c.step a = some (c.finish p e, none))
    (hp : c.processors[p]? = some ⟨phase, b⟩) (he : phase.inHand? = some e) :
    c.calls a = [⟨p, some e.task, .complete true⟩] := by
  have hc : ProcessorPhase.carries e.task phase = true := carries_iff.mpr ⟨e, he, rfl⟩
  obtain ⟨t, ht, -, hn, hm, -⟩ := h.finish_eq hp hc
  have processors := processors_finish h hp hc
  have hbefore : c.hand? p = some e := (hand?_of_processor hp).trans he
  have hafter : (c.finish p e).hand? p = none := by
    rw [hand?_withProcessor hp _ processors]
    cases b <;> rfl
  have hcomplete := Workshop.complete_eq ht hn hm
  rw [calls_withProcessor hs hp processors]
  simp [laidDown, hbefore, hafter, hcomplete, Except.isOk, Except.toBool]

end Calls

/-- How far the calls for a task have come, as its hand tells. -/
inductive Told (c : Coordinator) (i : Nat) : List PostCall → Prop
  | untouched (free : ∀ p, c.grip? i p = none) (open' : ∀ j x, c.kept? i ≠ some (j, some x)) :
      Told c i []
  | saving {p e r} (hp : c.grip? i p = some (.saving e r)) : Told c i [⟨p, some i, .save r⟩]
  | reporting {p e r j url result} (hp : c.grip? i p = some (.reporting e))
      (hj : c.kept? i = some (j, none)) (hr : c.reports = true) (hu : j.callbackUrl = some url) :
      Told c i [⟨p, some i, .save r⟩, ⟨p, some i, .report url result⟩]
  | done {p r result j x} (hj : c.kept? i = some (j, some x)) :
      Told c i (script c.reports j p i r result)

section Told

variable {c c' : Coordinator} {a : Action} {o : Option Errand} {i p : Nat} {l : List PostCall}
  {phase : ProcessorPhase} {b : Bool}

theorem Told.frame (h : c.Told i l) (grip : ∀ p, c'.grip? i p = c.grip? i p)
    (kept : c'.kept? i = c.kept? i) (reports : c'.reports = c.reports) : c'.Told i l := by
  cases h with
  | untouched free open' => exact .untouched (fun p => by rw [grip, free]) (by rwa [kept])
  | saving hp => exact .saving (by rwa [grip])
  | reporting hp hj hr hu => exact .reporting (by rwa [grip]) (by rwa [kept]) (by rwa [reports]) hu
  | done hj => exact reports ▸ .done (by rwa [kept])

/-- A task in somebody's hand, or in the queue, is not completed. -/
theorem Ledger.kept_open (h : c.Ledger) (hi : 0 < c.held i) : ∃ j, c.kept? i = some (j, none) := by
  obtain ⟨t, ht, -, hn⟩ := h.due hi
  exact ⟨t.job, hn ▸ kept?_of_task ht⟩

theorem held_pos_of_grip (hp : c.grip? i p = some phase) : 0 < c.held i := by
  obtain ⟨hc, b, hp⟩ := exists_of_grip hp
  exact Nat.add_pos_right _ (List.countP_pos_iff.mpr ⟨_, List.mem_of_getElem? hp, hc⟩)

theorem Told.of_entry (h : c.Sound) (told : c.Told i l) {e : QueuedTask}
    (he : e ∈ c.workshop.queue.entries) (hi : e.task = i) : l = [] := by
  subst hi
  have free {p : Nat} {phase : ProcessorPhase} (hp : c.grip? e.task p = some phase) : False := by
    obtain ⟨hc, b, hp⟩ := exists_of_grip hp
    exact Bool.false_ne_true ((h.ledger.carries_eq_false he hp).symm.trans hc)
  cases told with
  | untouched => rfl
  | saving hp => exact (free hp).elim
  | reporting hp => exact (free hp).elim
  | done hj =>
      obtain ⟨t, ht, -, hn⟩ := h.ledger.due_entry he
      simp [kept?_of_task ht, hn] at hj

theorem Told.of_saving (h : c.Sound) (told : c.Told i l) {e : QueuedTask} {r : BuildRecord}
    (hp : c.grip? i p = some (.saving e r)) : l = [⟨p, some i, .save r⟩] := by
  cases told with
  | untouched free => simp [free] at hp
  | saving hq =>
      obtain ⟨rfl, hphase⟩ := h.grip_unique hp hq
      cases hphase
      rfl
  | reporting hq =>
      obtain ⟨-, hphase⟩ := h.grip_unique hp hq
      cases hphase
  | done hj =>
      obtain ⟨j, hj'⟩ := h.ledger.kept_open (held_pos_of_grip hp)
      simp [hj] at hj'

theorem Told.of_reporting (h : c.Sound) (told : c.Told i l) {e : QueuedTask}
    (hp : c.grip? i p = some (.reporting e)) : ∃ r j url result, c.kept? i = some (j, none) ∧
      c.reports = true ∧ j.callbackUrl = some url ∧
      l = [⟨p, some i, .save r⟩, ⟨p, some i, .report url result⟩] := by
  cases told with
  | untouched free => simp [free] at hp
  | saving hq =>
      obtain ⟨-, hphase⟩ := h.grip_unique hp hq
      cases hphase
  | reporting hq hj hr hu =>
      obtain ⟨rfl, -⟩ := h.grip_unique hp hq
      exact ⟨_, _, _, _, hj, hr, hu, rfl⟩
  | done hj =>
      obtain ⟨j, hj'⟩ := h.ledger.kept_open (held_pos_of_grip hp)
      simp [hj] at hj'

theorem Told.quiet (told : c.Told i l) (hs : c.step a = some (c', o))
    (ho : o.toList.flatMap c'.asked = []) (alike : c.Alike c') (kept : c'.kept? i = c.kept? i)
    (reports : c'.reports = c.reports) :
    c'.Told i (l ++ (c.calls a).filter (PostCall.concerns · i)) := by
  rw [calls_quiet hs ho fun p _ => alike.hand p]
  simpa using told.frame (alike.grip i) kept reports

/-- A processor that has nothing to do with the task goes on. -/
theorem Told.other (told : c.Told i l) (hp : c.processors[p]? = some ⟨phase, b⟩)
    {phase' : ProcessorPhase} (processors : c'.processors = (c.withProcessor p phase').processors)
    (hc : ProcessorPhase.carries i phase = false) (hc' : ProcessorPhase.carries i phase' = false)
    (kept : c'.kept? i = c.kept? i) (reports : c'.reports = c.reports) : c'.Told i l := by
  refine told.frame (fun q => ?_) kept reports
  rw [grip?_withProcessor hp processors]
  split
  next hq =>
    subst hq
    simp [grip?_of_processor hp, hc, hc']
  next => rfl

/-- Nothing has been called for a task that is not there yet. -/
theorem told_absent (h : c.Sound) (hi : c.task? i = none) : c.Told i [] := by
  refine .untouched (fun p => Option.eq_none_iff_forall_ne_some.mpr fun phase hp => ?_)
    fun j x hj => by simp [kept?, hi] at hj
  obtain ⟨j, hj⟩ := h.ledger.kept_open (held_pos_of_grip hp)
  simp [kept?, hi] at hj

theorem told_enroll (h : c.Sound) (told : c.Told i l) (t : Task) (ht : t.completion = none) :
    (c.enroll t).Told i l := by
  have hkept : (c.enroll t).kept? i =
      if i = c.workshop.tasks.length then some t.kept else c.kept? i := by
    rw [kept?, task?_enroll]
    split <;> rfl
  by_cases hi : i = c.workshop.tasks.length
  · have hnew (x : BuildJob × Option BuildResult) : c.kept? i ≠ some x := by
      simp [kept?, task?, Workshop.task?, hi]
    -- A task that is not there yet is in no hand.
    have hopen {p : Nat} {phase : ProcessorPhase} (hp : c.grip? i p = some phase) : False := by
      obtain ⟨j, hj⟩ := h.ledger.kept_open (held_pos_of_grip hp)
      exact hnew _ hj
    cases told with
    | untouched free =>
        rw [if_pos hi] at hkept
        exact .untouched free (by simp [hkept, Task.kept, ht])
    | saving hp => exact (hopen hp).elim
    | reporting hp => exact (hopen hp).elim
    | done hj => exact (hnew _ hj).elim
  · exact told.frame (fun _ => rfl) (by rw [hkept, if_neg hi]) rfl

theorem told_take (h : c.Sound) (told : c.Told i l) {e : QueuedTask} {r : BuildRecord}
    (hs : c.step a = some (c', some (.save p r))) (he : e ∈ c.workshop.queue.entries)
    (hp : c.processors[p]? = some ⟨.idle, b⟩)
    (processors : c'.processors = (c.withProcessor p (.saving e r)).processors)
    (kept : c'.kept? i = c.kept? i) (reports : c'.reports = c.reports) :
    c'.Told i (l ++ (c.calls a).filter (PostCall.concerns · i)) := by
  rw [calls_take hs hp processors]
  by_cases hi : e.task = i
  · -- The entry was the only hand of the task, so nothing has been called for it.
    rw [told.of_entry h he hi]
    have hgrip : c'.grip? i p = some (.saving e r) := by
      rw [grip?_withProcessor hp processors]
      simp [carries_iff, ProcessorPhase.inHand?, hi]
    simpa [hi] using Told.saving hgrip
  · simpa [hi] using told.other hp processors rfl (by simp [ProcessorPhase.carries, hi]) kept reports

theorem told_report (h : c.Sound) (told : c.Told i l) {e : QueuedTask} {r : BuildRecord}
    {t : Task} {url : String} {result : BuildResult}
    (hs : c.step a = some (c', some (.report p url result)))
    (hp : c.processors[p]? = some ⟨.saving e r, b⟩) (ht : c.task? e.task = some t)
    (hr : c.reports = true) (hu : t.job.callbackUrl = some url)
    (processors : c'.processors = (c.withProcessor p (.reporting e)).processors)
    (kept : c'.kept? i = c.kept? i) (reports : c'.reports = c.reports) :
    c'.Told i (l ++ (c.calls a).filter (PostCall.concerns · i)) := by
  rw [calls_report hs hp processors]
  by_cases hi : e.task = i
  · subst hi
    have hbefore : c.grip? e.task p = some (.saving e r) := by
      simp [grip?_of_processor hp, carries_saving]
    have hafter : c'.grip? e.task p = some (.reporting e) := by
      rw [grip?_withProcessor hp processors]
      simp [carries_reporting]
    obtain ⟨j, hj⟩ := h.ledger.kept_open (held_pos_of_grip hbefore)
    obtain ⟨t', ht', rfl, -⟩ := exists_of_kept hj
    obtain rfl : t = t' := Option.some.inj (ht.symm.trans ht')
    rw [told.of_saving h hbefore]
    simpa using Told.reporting hafter (kept.trans hj) (reports.trans hr) hu
  · simpa [hi] using told.other hp processors (by simp [ProcessorPhase.carries, hi])
      (by simp [ProcessorPhase.carries, hi]) kept reports

/-- The processor lays its build down once all has been called for that is due. -/
theorem told_finish (h : c.Sound) (told : c.Told i l) {e : QueuedTask}
    (hs : c.step a = some (c.finish p e, none)) (hp : c.processors[p]? = some ⟨phase, b⟩)
    (he : phase.inHand? = some e)
    (due : ∀ {t}, e.task = i → c.task? i = some t → ∃ r result,
      l ++ [⟨p, some i, .complete true⟩] = script c.reports t.job p i r result) :
    (c.finish p e).Told i (l ++ (c.calls a).filter (PostCall.concerns · i)) := by
  have hc : ProcessorPhase.carries e.task phase = true := carries_iff.mpr ⟨e, he, rfl⟩
  obtain ⟨t, ht, -, hn, hm, heq⟩ := h.finish_eq hp hc
  have processors := processors_finish h hp hc
  have reports : (c.finish p e).reports = c.reports := by
    rw [heq]
    cases b <;> rfl
  have kept : (c.finish p e).kept? i =
      if e.task = i then some (t.job, some t.result) else c.kept? i := by
    rw [heq, kept?, task?_rest, ← kept?, kept?_conclude]
    by_cases hi : e.task = i
    · simp [← hi, ht]
    · simp [hi]
  rw [calls_finish h hs hp he]
  by_cases hi : e.task = i
  · rw [if_pos hi] at kept
    obtain ⟨r, result, hl⟩ := due hi (hi ▸ ht)
    have hdone : (c.finish p e).Told i (script _ t.job p i r result) := .done kept
    rw [reports, ← hl] at hdone
    simpa [hi] using hdone
  · have hcarries : ProcessorPhase.carries i phase = false := by
      cases hci : ProcessorPhase.carries i phase with
      | true => exact (hi (carries_unique hc hci)).elim
      | false => rfl
    rw [if_neg hi] at kept
    simpa [hi] using told.other hp processors hcarries (by cases b <;> rfl) kept reports

theorem Move.reports (m : Move c a c' o) : c'.reports = c.reports := by
  cases m with
  | @stop p =>
      unfold Coordinator.stop
      split <;> rfl
  | pass | reported =>
      unfold finish
      dsimp only
      split <;> split <;> rfl
  | _ => rfl

theorem told_step (h : c.Sound) (hs : c.step a = some (c', o)) (told : c.Told i l) :
    c'.Told i (l ++ (c.calls a).filter (PostCall.concerns · i)) := by
  have m := step_move h.steady hs
  cases m with
  | refuse => exact told.quiet hs rfl (alike_of_processors rfl) rfl rfl
  | enroll =>
      rw [calls_quiet hs rfl fun _ _ => rfl]
      simpa using told_enroll h told _ rfl
  | run | wait => exact told.quiet hs rfl (alike_of_processors rfl) (kept?_revise c _ i fun _ => rfl) rfl
  | unstarted | failed | finished =>
      exact told.quiet hs rfl (alike_of_processors rfl) (kept?_revise c _ i fun _ => rfl) rfl
  | stay | started | forward | forwarded => exact told.quiet hs rfl (alike_of_processors rfl) rfl rfl
  | spawn => exact told.quiet hs rfl (alike_spawn c) rfl rfl
  | @stop p =>
      refine told.quiet hs rfl (alike_stop c p) ?_ ?_
      all_goals unfold Coordinator.stop; split <;> rfl
  | @take p e now id _ _ t hk he ht =>
      obtain ⟨b, hp⟩ := h.line.mem.mp (hk ▸ List.mem_cons_self)
      exact told_take h told hs (he ▸ List.mem_cons_self) hp rfl
        (map_task?_settle (Task.kept_settle · now) _ e i) rfl
  | report hp ht hr hu => exact told_report h told hs hp ht hr hu rfl rfl rfl
  | @pass p e r b t hp ht hr =>
      refine told_finish h told hs hp rfl fun {t'} hi ht' => ?_
      subst hi
      obtain rfl : t = t' := Option.some.inj (ht.symm.trans ht')
      have hgrip : c.grip? e.task p = some (.saving e r) := by
        simp [grip?_of_processor hp, carries_saving]
      have hnone : (if c.reports then t.job.callbackUrl else none) = none := by
        cases hreports : c.reports <;> simp_all
      refine ⟨r, t.result, ?_⟩
      rw [told.of_saving h hgrip]
      simp [script, hnone]
  | @reported p e b hp =>
      refine told_finish h told hs hp rfl fun {t} hi ht => ?_
      subst hi
      have hgrip : c.grip? e.task p = some (.reporting e) := by
        simp [grip?_of_processor hp, carries_reporting]
      obtain ⟨r, j, url, result, hj, hr, hu, rfl⟩ := told.of_reporting h hgrip
      obtain ⟨t', ht', rfl, -⟩ := exists_of_kept hj
      obtain rfl : t = t' := Option.some.inj (ht.symm.trans ht')
      exact ⟨r, result, by simp [script, hr, hu]⟩

end Told

section Run

variable {reports : Bool} {as : List Action} {c : Coordinator} {i : Nat} {l : List PostCall}

theorem reports_of_run (run : Run next (.empty reports) as c) : c.reports = reports := by
  induction run with
  | nil => rfl
  | snoc before last ih =>
      obtain ⟨⟨c', o⟩, hs, rfl⟩ := Option.map_eq_some_iff.mp last
      exact (step_move (sound_of_run before).steady hs).reports.trans ih

theorem Told.run {c' : Coordinator} (told : c.Told i l) (h : c.Sound) (run : Run next c as c') :
    c'.Told i (l ++ callsFor i c as) := by
  induction run with
  | nil =>
      rw [callsFor, notes, List.filter_nil, List.append_nil]
      exact told
  | snoc before last ih =>
      rw [callsFor, notes_snoc calls before last, List.filter_append, ← List.append_assoc]
      obtain ⟨⟨c', o⟩, hs, rfl⟩ := Option.map_eq_some_iff.mp last
      exact told_step (h.run before) hs ih

theorem told_of_run (run : Run next (.empty reports) as c) (i : Nat) :
    c.Told i (callsFor i (.empty reports) as) := by
  have told : (Coordinator.empty reports).Told i [] :=
    .untouched (fun _ => rfl) (fun _ _ h => by cases h)
  exact told.run (sound_empty reports) run

/-- A task that is not completed is in the running set, which keeps it. -/
theorem Sound.carried (h : c.Sound) {t : Task} (ht : c.task? i = some t)
    (hn : t.completion = none) : c.isCarried i = true := by
  have hmem : i ∈ c.running.members.values :=
    (Table.mem_values _).mpr ⟨t.identity, h.members.mem.mpr ⟨t, ht, rfl, hn⟩⟩
  simp [isCarried, hmem]

theorem script_eq (reports : Bool) (j : BuildJob) (p i : Nat) (r : BuildRecord)
    (result : BuildResult) : script reports j p i r result =
      ⟨p, some i, .save r⟩ :: ((if reports then j.callbackUrl else none).toList.map
        fun url => ⟨p, some i, .report url result⟩) ++ [⟨p, some i, .complete true⟩] := rfl

theorem Told.script (h : c.Sound) (told : c.Told i l) {t : Task} (ht : c.task? i = some t) :
    ∃ p r result, l <+: script c.reports t.job p i r result ∧
      (l = script c.reports t.job p i r result ↔ t.completion ≠ none) := by
  have hkept := kept?_of_task ht
  cases told with
  | untouched free open' =>
      refine ⟨0, t.record ⟨0⟩, t.result, List.nil_prefix, ?_⟩
      cases hn : t.completion with
      | none => simp [script_eq]
      | some x => exact (open' t.job x (hn ▸ hkept)).elim
  | @saving p e r hp =>
      obtain ⟨j, hj⟩ := h.ledger.kept_open (held_pos_of_grip hp)
      obtain ⟨-, hn⟩ : t.job = j ∧ t.completion = none := by simpa [hkept] using hj
      refine ⟨p, r, t.result, ?_, by simp [script_eq, hn]⟩
      rw [script_eq, List.cons_append]
      exact (List.prefix_cons_inj _).mpr List.nil_prefix
  | @reporting p e r j url result hp hj hr hu =>
      obtain ⟨rfl, hn⟩ : t.job = j ∧ t.completion = none := by simpa [hkept] using hj
      refine ⟨p, r, result, ?_, by simp [script_eq, hr, hu, hn]⟩
      exact ⟨[⟨p, some i, .complete true⟩], by simp [script_eq, hr, hu]⟩
  | @done p r result j x hj =>
      obtain ⟨rfl, hn⟩ : t.job = j ∧ t.completion = some x := by simpa [hkept] using hj
      exact ⟨p, r, result, List.prefix_rfl, by simp [hn]⟩

/-- For each build that was taken in, one processor goes through the script, in order and once, and
nothing else is called for it. Who waits for the build gets its result when all of the script is
done, and never an error. -/
theorem postProcessed_once (run : Run next (.empty reports) as c) {t : Task}
    (ht : c.task? i = some t) :
    ∃ p r result,
      callsFor i (.empty reports) as <+: script reports t.job p i r result ∧
      ∀ held,
        match c.outcome? i held with
        | none => callsFor i (.empty reports) as ≠ script reports t.job p i r result
        | some (.ok _) => callsFor i (.empty reports) as = script reports t.job p i r result
        | some (.error _) => False := by
  have h := sound_of_run run
  obtain ⟨p, r, result, hprefix, hdone⟩ := (told_of_run run i).script h ht
  rw [reports_of_run run] at hprefix hdone
  refine ⟨p, r, result, hprefix, fun held => ?_⟩
  cases hn : t.completion with
  | none =>
      have hcarried := h.carried ht hn
      simpa [outcome?, ht, hn, hcarried] using hdone
  | some x => simpa [outcome?, ht, hn] using hdone

end Run

/-- One build with a callback from its submission to its end. -/
def shift (now : Instant) : List Action := [
  .spawn,
  .submit ⟨⟨1⟩, "app", "git", none, "make", .empty, []⟩ (some "back") now,
  .drive 0 now,
  .started 0 (.ok ()),
  .monitored 0 (.ok ⟨"app", some 7, true, "done"⟩) now,
  .take now ⟨30⟩,
  .saved 0,
  .reported 0]

theorem shift_runs : ((shift noon).foldlM next (.empty true)).isSome = true := by decide +kernel

/-- Here the script has been gone through to its end. -/
theorem postProcessed_after_shift :
    ∃ c t p r result, Run next (.empty true) (shift noon) c ∧ c.task? 0 = some t ∧
      callsFor 0 (.empty true) (shift noon) = script true t.job p 0 r result := by
  have run := Run.iff_foldlM.mpr (Option.some_get shift_runs).symm
  have task : ((((shift noon).foldlM next (.empty true)).get shift_runs).task? 0).isSome = true := by
    decide +kernel
  have answered : ((((shift noon).foldlM next (.empty true)).get shift_runs).outcome? 0 false).isSome =
      true := by decide +kernel
  obtain ⟨p, r, result, -, outcome⟩ := postProcessed_once run (Option.some_get task).symm
  refine ⟨_, _, p, r, result, run, (Option.some_get task).symm, ?_⟩
  have outcome := outcome false
  split at outcome
  next hnone => simp [hnone] at answered
  next => exact outcome
  next => exact outcome.elim

end Coordinator

end Foreman
