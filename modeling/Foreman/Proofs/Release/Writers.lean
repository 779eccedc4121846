import Foreman.Proofs.Listeners
import Foreman.Proofs.Release.Exclusion

/-!
Who closes an attempt: the start, if the engine refuses it, and the recordings of its two reports.
Each of the three saves the attempt once at most, since a start goes through its phases once and a
listener is called once.
-/

namespace Foreman

open Release

namespace Release

/-- For whom the recording is going to save its attempt. -/
def RecordingPhase.writer? : RecordingPhase → Option Writer
  | .findingMilestone (.result _) | .describing _ _ _ _ => some .result
  | .findingMilestone (.failure _) => some .failure
  | .findingAttempt _ _ after | .savingAttempt _ after => some (.report after)
  | _ => none

/-- For whom the listener saves the attempt `x` when it is called. -/
def Listener.writer? (x : ResourceId) : Listener → Option Writer
  | .result _ a => if a = x then some .result else none
  | .failure _ a => if a = x then some .failure else none
  | .guest _ => none

theorem RecordingPhase.writer?_ne_refusal {p : RecordingPhase} : p.writer? ≠ some .refusal := by
  cases p with
  | findingMilestone report => cases report <;> simp [writer?]
  | findingAttempt text status after | savingAttempt text after =>
      cases after <;> simp [writer?, Writer.report]
  | describing | announcing | findingRecord | savingRecord | savingMilestone | findingVersion
  | savingVersion | ended => simp [writer?]

/-- The event that calls the writer. -/
def Writer.event? : Writer → Option EventType
  | result => some .importSuccess
  | failure => some .importError
  | _ => none

end Release

namespace ReleaseDesk

/-- The writers that close the attempt `x` by the event. -/
def closings (x : ResourceId) (d : ReleaseDesk) (e : Event) : List Writer :=
  match d.saving? e with
  | some (w, a) => if w ≠ .start ∧ a.id = x then [w] else []
  | none => []

theorem length_closings_le (x : ResourceId) (d : ReleaseDesk) (e : Event) :
    (closings x d e).length ≤ 1 := by
  unfold closings
  split
  · split <;> simp
  · simp

theorem nodup_closings (x : ResourceId) (d : ReleaseDesk) (e : Event) :
    (closings x d e).Nodup := by
  unfold closings
  split
  · split <;> simp
  · simp

section Registrations

variable {d b d' : ReleaseDesk} {k : Nat} {e : Event}

/-- A start brings along the listeners of the attempt that it saves. -/
theorem StartStep.registration_cases {s : Start} {p : StartPhase} (h : StartStep d k s e b p)
    {id : CorrelationId} {t : EventType} {g : Registration Listener}
    (hg : b.correlator.registration? id t = some g) :
    d.correlator.registration? id t = some g ∨
      ∃ m a, s.phase = .savingAttempt m a ∧ b.store = d.store.saveAttempt a ∧
        id = .ofResource a.id ∧ (t, g.listener) ∈ listeners m.id a.id := by
  cases h with
  | @enroll m a now i h =>
      rcases Correlator.registration?_register_cases hg with ⟨hid, l, hl, rfl⟩ | hg
      · exact .inr ⟨m, a, h, rfl, hid.symm, hl⟩
      · exact .inl hg
  | refuse => exact .inl (Correlator.registration?_of_withdraw hg)
  | lookupFails | unknown | beaten | mark | checkFails | occupied | proceed | saveFails | closeFails
  | close | accept | announced | dropIdle | dropChecking | dropUnsaved | dropSaved | dropOpen
  | dropClosed => exact .inl hg

theorem RecordingStep.registration_of {r : Recording} {p : RecordingPhase}
    (h : RecordingStep d k r e b p) {id : CorrelationId} {t : EventType}
    {g : Registration Listener} (hg : b.correlator.registration? id t = some g) :
    d.correlator.registration? id t = some g := by
  have turned {now after} (hg : (d.turn r now after).1.correlator.registration? id t = some g) :
      d.correlator.registration? id t = some g := by
    rcases fst_turn d r now after with h | h <;> rw [h] at hg
    · exact hg
    · exact Correlator.registration?_of_abandon hg
  cases h with
  | lost | passVersion => exact Correlator.registration?_of_abandon hg
  | miss | closeFails | announced => exact turned hg
  | saveRecord | saveMilestone =>
      split at hg <;> exact hg
  | saveVersion =>
      have hg := Correlator.registration?_of_abandon hg
      split at hg <;> exact hg
  | describe | fail | passage | find | close | findRecord | missRecord | findVersion => exact hg

theorem writer?_describe (m : Milestone) (result : ReleaseResult) (text : String)
    (ahead : List Passage) : (describe m result text ahead).writer? = some .result := by
  fun_induction describe m result text ahead with
  | case1 text ahead ih => exact ih
  | case2 | case3 => rfl

theorem writer?_nextRecord (m : Milestone) (now : Instant) (ahead : List BuildImport) :
    (nextRecord m now ahead).writer? = none := by
  cases ahead <;> rfl

theorem writer?_turn (d : ReleaseDesk) (r : Recording) (now : Instant)
    (after : Option (Milestone × ReleaseResult)) : (d.turn r now after).2.writer? = none := by
  cases after with
  | none => rfl
  | some p => exact writer?_nextRecord ..

/-- A recording saves its attempt for one writer, and then for none. -/
theorem RecordingStep.writer_cases {r : Recording} {p : RecordingPhase}
    (h : RecordingStep d k r e b p) : p.writer? = none ∨
      p.writer? = r.phase.writer? ∧ r.phase.saving? = none := by
  cases h with
  | describe h | passage h => exact .inr (by rw [writer?_describe, h]; exact ⟨rfl, rfl⟩)
  | fail h | find h => exact .inr (by rw [h]; exact ⟨rfl, rfl⟩)
  | miss | closeFails | announced => exact .inl (writer?_turn ..)
  | missRecord | saveRecord => exact .inl (writer?_nextRecord ..)
  | lost | close | findRecord | saveMilestone | findVersion | passVersion | saveVersion =>
      exact .inl rfl

/-- A recording begins for the listener that it takes out, or there is none and no new listener but
those of guests. -/
theorem OtherStep.begin_cases (h : OtherStep d e d') :
    (d'.recordings = d.recordings ∧ ∀ {id t g}, d'.correlator.registration? id t = some g →
      d.correlator.registration? id t = some g ∨ ∃ n, g.listener = .guest n) ∨
    ∃ id t g m a w report, d.correlator.registration? id t = some g ∧
      g.listener.writer? a = some w ∧ (RecordingPhase.findingMilestone report).writer? = some w ∧
      d'.recordings = d.recordings ++ [⟨id, m, a, .findingMilestone report⟩] ∧
      ∀ {id' t' g'}, d'.correlator.registration? id' t' = some g' →
        d.correlator.registration? id' t' = some g' ∧ ¬(id = id' ∧ t = t') := by
  cases h with
  | @result id name payload t g m a result he hg hl hr =>
      exact .inr ⟨id, t, g, m, a, .result, .result result, hg, by simp [hl, Listener.writer?], rfl,
        rfl, Correlator.registration?_of_consume⟩
  | @failure id name payload t g m a he hg hl =>
      exact .inr ⟨id, t, g, m, a, .failure, .failure payload, hg, by simp [hl, Listener.writer?],
        rfl, rfl, Correlator.registration?_of_consume⟩
  | unrecorded => exact .inl ⟨rfl, fun hg => .inl (Correlator.registration?_of_consume hg).1⟩
  | abandon => exact .inl ⟨rfl, fun hg => .inl (Correlator.registration?_of_abandon hg)⟩
  | withdraw => exact .inl ⟨rfl, fun hg => .inl (Correlator.registration?_of_withdraw hg)⟩
  | register =>
      refine .inl ⟨rfl, fun hg => ?_⟩
      rcases Correlator.registration?_register_cases hg with ⟨_, l, hl, rfl⟩ | hg
      · obtain ⟨p, _, hp⟩ := List.mem_map.mp hl
        exact .inr ⟨p.2, (Prod.mk.inj hp).2.symm⟩
      · exact .inl hg
  | beginStart | unmatched | edit => exact .inl ⟨rfl, fun hg => .inl hg⟩

end Registrations

/-- The writers that have closed the attempt `x` and the reports on it that have been begun: no
writer comes twice, and none of them is still to come. -/
structure Once (x : ResourceId) (closed begun : List Writer) (d : ReleaseDesk) : Prop where
  nodup : closed.Nodup
  fresh : d.store.attempts.get? x = none → closed = [] ∧ begun = []
  reported : ∀ {w}, w ∈ closed → w ≠ .refusal → w ∈ begun
  starts : ∀ {k : Nat} {s : Start} {a : ReleaseAttempt}, d.starts[k]? = some s →
    s.phase.attempt? = some a → a.id = x → .refusal ∉ closed
  listening : ∀ {id t g w}, d.correlator.registration? id t = some g →
    g.listener.writer? x = some w → id = .ofResource x ∧ w.event? = some t ∧ w ∉ begun ∧
      d.store.attempts.get? x ≠ none
  recordings : ∀ {k : Nat} {r : Recording} {w : Writer}, d.recordings[k]? = some r →
    r.attempt = x → r.phase.writer? = some w → w ∈ begun ∧ w ∉ closed
  alone : ∀ {k k' : Nat} {r r' : Recording} {w : Writer}, d.recordings[k]? = some r →
    d.recordings[k']? = some r' → r.attempt = x → r'.attempt = x → r.phase.writer? = some w →
    r'.phase.writer? = some w → k = k'

section Once

variable {x : ResourceId} {closed begun : List Writer} {d b d' : ReleaseDesk} {k : Nat} {e : Event}
  {s : Start} {p : StartPhase} {times : List Instant} {ids : List ResourceId}

theorem once_empty (x : ResourceId) (process : String) (callbackBase : Option String) :
    Once x [] [] (.empty process callbackBase) where
  nodup := List.nodup_nil
  fresh _ := ⟨rfl, rfl⟩
  reported h := by simp at h
  starts h := by simp [ReleaseDesk.empty] at h
  listening h := by simp [ReleaseDesk.empty, Correlator.empty, Correlator.registration?] at h
  recordings h := by simp [ReleaseDesk.empty] at h
  alone h := by simp [ReleaseDesk.empty] at h

/-- A start closes an attempt only by a refusal, and then is done with it. -/
theorem StartStep.closing_cases {s : Start} {p : StartPhase} (h : StartStep d k s e b p)
    (hs : d.starts[k]? = some s) : closings x d e = [] ∨ closings x d e = [.refusal] ∧
      p.attempt? = none ∧ ∃ a, s.phase = .savingRefusal a ∧ a.id = x := by
  rcases h.store_cases hs with ⟨hn, _⟩ | ⟨w, hw, hp, _⟩
  · exact .inl (by simp [closings, hn])
  · cases hphase : s.phase with
    | savingAttempt m a =>
        obtain rfl : (.start, a) = w := by simpa [hphase, StartPhase.saving?] using hp
        exact .inl (by simp [closings, hw])
    | savingRefusal a =>
        obtain rfl : (.refusal, a) = w := by simpa [hphase, StartPhase.saving?] using hp
        by_cases hid : a.id = x
        · refine .inr ⟨by simp [closings, hw, hid], ?_, a, rfl, hid⟩
          cases h <;> simp_all [StartPhase.attempt?]
        · exact .inl (by simp [closings, hw, hid])
    | findingMilestone | checkingLatest | asking | announcing | ended | dropped =>
        simp [hphase, StartPhase.saving?] at hp

/-- A recording closes its own attempt for its own writer. -/
theorem RecordingStep.closing_cases {r : Recording} {p : RecordingPhase}
    (h : RecordingStep d k r e b p) (hd : d.Sound times ids) (hr : d.recordings[k]? = some r) :
    closings x d e = [] ∨ ∃ w, closings x d e = [w] ∧ r.attempt = x ∧ r.phase.writer? = some w ∧
      w ≠ .refusal ∧ p.writer? = none := by
  rcases h.store_cases hr with ⟨hn, _⟩ | ⟨w, hw, hp, _⟩
  · exact .inl (by simp [closings, hn])
  · obtain ⟨hstart, hid, _⟩ := hd.recording_saving hr hp
    by_cases hx : r.attempt = x
    · refine .inr ⟨w.1, by simp [closings, hw, hstart, hid, hx], hx, ?_⟩
      cases hphase : r.phase with
      | savingAttempt a after =>
          obtain rfl : (Writer.report after, a) = w := by
            simpa [hphase, RecordingPhase.saving?] using hp
          refine ⟨rfl, by cases after <;> simp [Writer.report], ?_⟩
          rcases h.writer_cases with hn | ⟨_, hn⟩
          · exact hn
          · simp [hp] at hn
      | findingMilestone | describing | findingAttempt | announcing | findingRecord | savingRecord
      | savingMilestone | findingVersion | savingVersion | ended =>
          simp [hphase, RecordingPhase.saving?] at hp
    · exact .inl (by simp [closings, hw, hid, hx])

theorem writer?_of_mem_listeners {m a : ResourceId} {t : EventType} {l : Listener} {w : Writer}
    (hl : (t, l) ∈ listeners m a) (hw : l.writer? x = some w) : a = x ∧ w.event? = some t := by
  simp only [listeners, List.mem_cons, Prod.mk.injEq, List.not_mem_nil, or_false] at hl
  rcases hl with ⟨rfl, rfl⟩ | ⟨rfl, rfl⟩
  all_goals
    simp only [Listener.writer?] at hw
    split at hw
    next hx => exact ⟨hx, by rw [← Option.some.inj hw]; rfl⟩
    next => simp at hw

/-- An id that has just been made is that of no stored attempt. -/
theorem Sound.fresh (hd : d.Sound times ids)
    (hi : ∀ id ∈ d.generated e, ∀ i ∈ ids, i.bits < id.bits) (hx : x ∈ d.generated e) :
    d.store.attempts.get? x = none := by
  cases ha : d.store.attempts.get? x with
  | none => rfl
  | some a =>
      have hlt := hi x hx _ (hd.rows.started ha).2
      rw [hd.rows.keyed _ _ ha] at hlt
      exact absurd hlt (BitVec.lt_irrefl _)

theorem Once.startStep (h : Once x closed begun d) (hd : d.Sound times ids)
    (hs : d.starts[k]? = some s) (step : StartStep d k s e b p)
    (hi : ∀ id ∈ d.generated e, ∀ i ∈ ids, i.bits < id.bits)
    (hu : d.store.Update (d.written? e) b.store) :
    Once x (closed ++ closings x d e) begun (b.withStart k p) := by
  -- The refusal is the only writer that a start can add, and it has not come before.
  have added : ∀ w ∈ closings x d e, w = .refusal ∧ p.attempt? = none ∧
      d.store.attempts.get? x ≠ none ∧ .refusal ∉ closed ∧
      ∃ a, s.phase.attempt? = some a ∧ a.id = x := by
    intro w hw
    rcases step.closing_cases (x := x) hs with hn | ⟨hn, hp, a, ha, rfl⟩
    · simp [hn] at hw
    · obtain ⟨⟨row, hrow, _⟩, _⟩ : (StartPhase.savingRefusal a).Sound d.store s.milestone :=
        ha ▸ hd.starts hs
      have hattempt : s.phase.attempt? = some a := by rw [ha]; rfl
      exact ⟨by simpa [hn] using hw, hp, by simp [hrow], h.starts hs hattempt rfl, a, hattempt, rfl⟩
  have kept (hx : d.store.attempts.get? x = none) : closings x d e = [] :=
    List.eq_nil_iff_forall_not_mem.mpr fun w hw => (added w hw).2.2.1 hx
  refine ⟨?_, fun hx => ?_, fun {w} hw hne => ?_, fun {j s' a} hj ha hid => ?_,
    fun {id t g w} hg hl => ?_, fun {j r w} hr hx hw => ?_, fun hr hr' => ?_⟩
  · refine List.nodup_append.mpr ⟨h.nodup, nodup_closings .., fun v hv w hw heq => ?_⟩
    obtain ⟨rfl, _, _, hnot, _⟩ := added w hw
    exact hnot (heq ▸ hv)
  · have hx := hu.get?_eq_none hx
    obtain ⟨rfl, rfl⟩ := h.fresh hx
    exact ⟨kept hx, rfl⟩
  · rcases List.mem_append.mp hw with hw | hw
    · exact h.reported hw hne
    · exact absurd (added w hw).1 hne
  · have hclosed : .refusal ∉ closed := by
      rcases step.starts_cases hs hj with ⟨rfl, rfl⟩ | ⟨_, hj⟩
      · rcases step.attempt_cases hs ha with ⟨a₀, ha₀, hrev⟩ | ⟨_, hnew⟩
        · exact h.starts hs ha₀ (hrev.id_eq.trans hid)
        · have hx := hd.fresh (x := x) hi (by simp [hnew, hid])
          simp [(h.fresh hx).1]
      · exact h.starts hj ha hid
    intro hmem
    rcases List.mem_append.mp hmem with hmem | hmem
    · exact hclosed hmem
    · obtain ⟨_, hp, _, _, a', ha', hid'⟩ := added _ hmem
      rcases step.starts_cases hs hj with ⟨rfl, rfl⟩ | ⟨hne, hj⟩
      · simp [hp] at ha
      · exact hne (hd.distinct hj hs ha ha' (hid.trans hid'.symm))
  · rcases step.registration_cases hg with hg | ⟨m, a, ha, hstore, hid, hmem⟩
    · obtain ⟨h₁, h₂, h₃, h₄⟩ := h.listening hg hl
      exact ⟨h₁, h₂, h₃, fun hx => h₄ (hu.get?_eq_none hx)⟩
    · obtain ⟨rfl, hevent⟩ := writer?_of_mem_listeners hmem hl
      have hlacks : (StartPhase.savingAttempt m a).Sound d.store s.milestone := ha ▸ hd.starts hs
      refine ⟨hid, hevent, by simp [(h.fresh hlacks.2.isNew).2], ?_⟩
      rw [store_withStart, hstore, Store.get?_saveAttempt, if_pos rfl]
      simp
  · rw [recordings_withStart, step.recordings_eq] at hr
    obtain ⟨hbegun, hclosed⟩ := h.recordings hr hx hw
    refine ⟨hbegun, fun hmem => ?_⟩
    rcases List.mem_append.mp hmem with hmem | hmem
    · exact hclosed hmem
    · exact RecordingPhase.writer?_ne_refusal ((added w hmem).1 ▸ hw)
  · rw [recordings_withStart, step.recordings_eq] at hr hr'
    exact h.alone hr hr'

theorem Once.recordingStep {r : Recording} {p : RecordingPhase} (h : Once x closed begun d)
    (hd : d.Sound times ids) (hr : d.recordings[k]? = some r) (step : RecordingStep d k r e b p)
    (hu : d.store.Update (d.written? e) b.store) :
    Once x (closed ++ closings x d e) begun (b.withRecording k p) := by
  -- The recording can add its own writer, which is begun and has not closed the attempt before.
  have added : ∀ w ∈ closings x d e, r.attempt = x ∧ r.phase.writer? = some w ∧ w ≠ .refusal ∧
      p.writer? = none ∧ w ∈ begun ∧ w ∉ closed := by
    intro w hw
    rcases step.closing_cases (x := x) hd hr with hn | ⟨v, hn, hx, hv, hne, hp⟩
    · simp [hn] at hw
    · obtain rfl : w = v := by simpa [hn] using hw
      exact ⟨hx, hv, hne, hp, h.recordings hr hx hv⟩
  -- No recording turns into another writer.
  have known {j : Nat} {r' : Recording} {w : Writer}
      (hj : (b.withRecording k p).recordings[j]? = some r') (hx : r'.attempt = x)
      (hw : r'.phase.writer? = some w) :
      ∃ r₀ : Recording, d.recordings[j]? = some r₀ ∧ r₀.attempt = x ∧ r₀.phase.writer? = some w := by
    rcases step.recordings_cases hr hj with ⟨rfl, rfl⟩ | ⟨_, hj⟩
    · rcases step.writer_cases with hn | ⟨hn, _⟩
      · simp [hn] at hw
      · exact ⟨r, hr, hx, hn ▸ hw⟩
    · exact ⟨r', hj, hx, hw⟩
  refine ⟨?_, fun hx => ?_, fun {w} hw hne => ?_, fun hj ha hid => ?_, fun hg hl => ?_,
    fun {j r' w} hj hx hw => ?_, fun hj hj' hx hx' hw hw' => ?_⟩
  · refine List.nodup_append.mpr ⟨h.nodup, nodup_closings .., fun v hv w hw heq => ?_⟩
    exact (added w hw).2.2.2.2.2 (heq ▸ hv)
  · obtain ⟨rfl, rfl⟩ := h.fresh (hu.get?_eq_none hx)
    refine ⟨?_, rfl⟩
    rw [List.nil_append]
    exact List.eq_nil_iff_forall_not_mem.mpr fun w hw => by simpa using (added w hw).2.2.2.2.1
  · rcases List.mem_append.mp hw with hw | hw
    · exact h.reported hw hne
    · exact (added w hw).2.2.2.2.1
  · rw [starts_withRecording, step.frame.1] at hj
    intro hmem
    rcases List.mem_append.mp hmem with hmem | hmem
    · exact h.starts hj ha hid hmem
    · exact (added _ hmem).2.2.1 rfl
  · obtain ⟨h₁, h₂, h₃, h₄⟩ := h.listening (step.registration_of hg) hl
    exact ⟨h₁, h₂, h₃, fun hx => h₄ (hu.get?_eq_none hx)⟩
  · obtain ⟨r₀, hj₀, hx₀, hw₀⟩ := known hj hx hw
    obtain ⟨hbegun, hclosed⟩ := h.recordings hj₀ hx₀ hw₀
    refine ⟨hbegun, fun hmem => ?_⟩
    rcases List.mem_append.mp hmem with hmem | hmem
    · exact hclosed hmem
    · obtain ⟨hx', hw', _, hp, _⟩ := added w hmem
      obtain rfl := h.alone hj₀ hr hx₀ hx' hw₀ hw'
      rcases step.recordings_cases hr hj with ⟨_, rfl⟩ | ⟨hne, _⟩
      · simp [hp] at hw
      · exact hne rfl
  · obtain ⟨_, hj₀, hx₀, hw₀⟩ := known hj hx hw
    obtain ⟨_, hj₁, hx₁, hw₁⟩ := known hj' hx' hw'
    exact h.alone hj₀ hj₁ hx₀ hx₁ hw₀ hw₁

theorem Once.otherStep (h : Once x closed begun d) (step : OtherStep d e d') :
    ∃ begun', Once x (closed ++ closings x d e) begun' d' := by
  have hn : closings x d e = [] := by simp [closings, step.store_eq.1]
  have hrows := step.store_eq.2
  rw [hn, List.append_nil]
  -- New starts have no attempt yet.
  have starts {k : Nat} {s : Start} {a : ReleaseAttempt} (hs : d'.starts[k]? = some s)
      (ha : s.phase.attempt? = some a) (hid : a.id = x) : .refusal ∉ closed := by
    rcases step.start_cases hs with hs | hnew
    · exact h.starts hs ha hid
    · simp [hnew, StartPhase.attempt?] at ha
  rcases step.begin_cases with ⟨hrecordings, hlistening⟩ |
    ⟨id, t, g, m, a, w, report, hg, hw, hreport, hrecordings, hlistening⟩
  · refine ⟨begun, h.nodup, hrows ▸ h.fresh, h.reported, starts, fun hg hl => ?_,
      hrecordings ▸ h.recordings, hrecordings ▸ h.alone⟩
    rcases hlistening hg with hg | ⟨n, hguest⟩
    · rw [hrows]
      exact h.listening hg hl
    · simp [hguest, Listener.writer?] at hl
  · by_cases hx : a = x
    · subst hx
      -- The registration is gone with the delivery, so the writer does not begin again.
      obtain ⟨hid, hevent, hnew, hstored⟩ := h.listening hg hw
      have hne : w ≠ .refusal := by
        rintro rfl
        simp [Writer.event?] at hevent
      refine ⟨w :: begun, h.nodup, fun hx => absurd (hrows ▸ hx) hstored,
        fun hw' hne => List.mem_cons_of_mem _ (h.reported hw' hne), starts,
        fun {id' t' g' w'} hg' hl => ?_, fun hj hx hw' => ?_, fun hj hj' hx hx' hw' hw'' => ?_⟩
      · obtain ⟨hg', hother⟩ := hlistening hg'
        obtain ⟨hid', hevent', hnew', _⟩ := h.listening hg' hl
        refine ⟨hid', hevent', ?_, hrows ▸ hstored⟩
        rintro (_ | ⟨_, hmem⟩)
        · exact hother ⟨hid.trans hid'.symm, Option.some.inj (hevent.symm.trans hevent')⟩
        · exact hnew' hmem
      · rw [hrecordings] at hj
        rcases getElem?_concat_cases hj with hj | ⟨_, rfl⟩
        · exact (h.recordings hj hx hw').imp (List.mem_cons_of_mem _) fun hn => hn
        · obtain rfl := Option.some.inj (hreport.symm.trans hw')
          exact ⟨List.mem_cons_self, fun hmem => hnew (h.reported hmem hne)⟩
      · rw [hrecordings] at hj hj'
        rcases getElem?_concat_cases hj with hj | ⟨rfl, rfl⟩
        · rcases getElem?_concat_cases hj' with hj' | ⟨rfl, rfl⟩
          · exact h.alone hj hj' hx hx' hw' hw''
          · obtain rfl := Option.some.inj (hreport.symm.trans hw'')
            exact absurd (h.recordings hj hx hw').1 hnew
        · rcases getElem?_concat_cases hj' with hj' | ⟨rfl, _⟩
          · obtain rfl := Option.some.inj (hreport.symm.trans hw')
            exact absurd (h.recordings hj' hx' hw'').1 hnew
          · rfl
    · have old {j : Nat} {r : Recording} (hj : d'.recordings[j]? = some r) (hrx : r.attempt = x) :
          d.recordings[j]? = some r := by
        rw [hrecordings] at hj
        rcases getElem?_concat_cases hj with hj | ⟨_, rfl⟩
        · exact hj
        · exact absurd hrx hx
      -- The recording that has begun is one of another attempt.
      refine ⟨begun, h.nodup, hrows ▸ h.fresh, h.reported, starts, fun hg hl => ?_,
        fun hj hrx => h.recordings (old hj hrx) hrx,
        fun hj hj' hrx hrx' => h.alone (old hj hrx) (old hj' hrx') hrx hrx'⟩
      rw [hrows]
      exact h.listening (hlistening hg).1 hl

theorem Once.step (h : Once x closed begun d) (hd : d.Sound times ids) (hs : d.step e = some d')
    (hi : ∀ id ∈ d.generated e, ∀ i ∈ ids, i.bits < id.bits) :
    ∃ begun', Once x (closed ++ closings x d e) begun' d' := by
  have hu := step_update hs
  rcases step_cases hs with ⟨k, s, b, p, hk, step, rfl⟩ | ⟨k, r, b, p, hk, step, rfl⟩ | step
  · exact ⟨begun, h.startStep hd hk step hi hu⟩
  · exact ⟨begun, h.recordingStep hd hk step hu⟩
  · exact h.otherStep step

end Once

end ReleaseDesk

end Foreman
