import Foreman.Proofs.Release.Writers

/-!
What closing does to an attempt. The first writer that closes it settles its status and its end and
adds its own text to the log; a second one puts another row in its place. So an attempt stays as it
was closed exactly if one writer at most gets through to the store.
-/

namespace Foreman

open Release

namespace Release

section Letters

variable {text rest : String} {l : List Char} {i j : Nat} {c : Char}

theorem getElem?_toList (h : text = String.ofList l ++ rest) (hc : l[i]? = some c) :
    text.toList[i]? = some c := by
  rw [h, String.toList_append, String.toList_ofList]
  exact List.getElem?_append_left (List.getElem?_eq_some_iff.mp hc).1 ▸ hc

theorem getElem?_toList_rest (h : text = String.ofList l ++ rest) (hi : l.length + j = i) :
    text.toList[i]? = rest.toList[j]? := by
  rw [h, String.toList_append, String.toList_ofList, List.getElem?_append_right (by omega)]
  congr 1
  omega

end Letters

/-- Whether the writer adds the text to the log when it closes an attempt. -/
def Writer.Adds (text : String) : Writer → Prop
  | start => False
  | refusal => text = refusedText
  | result => ∃ r rest, text = heading r ++ rest
  | failure => ∃ payload, text = failureText payload

/-- The letters by which the text of a writer is told apart from those of the others. -/
def Writer.marks : Writer → List Char
  | start => []
  | refusal => ['t']
  | result => ['S', 'F']
  | failure => ['\n']

theorem heading_mark (r : ReleaseResult) (rest : String) :
    (heading r ++ rest).toList[13]? = some (if r.isSuccessful then 'S' else 'F') := by
  have h : heading r ++ rest = _ :=
    (String.append_assoc ..).trans ((String.append_assoc ..).trans (String.append_assoc ..))
  refine (getElem?_toList_rest (j := 0) h rfl).trans ?_
  split
  · exact getElem?_toList rfl rfl
  · exact getElem?_toList rfl rfl

theorem Writer.Adds.mark {w : Writer} {text : String} (h : w.Adds text) :
    ∃ c ∈ w.marks, text.toList[13]? = some c := by
  cases w with
  | start => exact h.elim
  | refusal =>
      obtain rfl : text = refusedText := h
      exact ⟨'t', by decide, getElem?_toList String.append_empty.symm rfl⟩
  | result =>
      obtain ⟨r, rest, rfl⟩ := h
      exact ⟨_, by split <;> decide, heading_mark r rest⟩
  | failure =>
      obtain ⟨payload, rfl⟩ := h
      exact ⟨'\n', by decide, getElem?_toList (String.append_assoc ..) rfl⟩

theorem Writer.Adds.ne_empty {w : Writer} {text : String} (h : w.Adds text) : text ≠ "" := by
  obtain ⟨c, _, hc⟩ := h.mark
  rintro rfl
  simp at hc

theorem Writer.Adds.ne {w w' : Writer} {text text' : String} (h : w.Adds text)
    (h' : w'.Adds text') (hne : w ≠ w') : text ≠ text' := by
  obtain ⟨c, hmem, hc⟩ := h.mark
  obtain ⟨c', hmem', hc'⟩ := h'.mark
  rintro rfl
  obtain rfl : c = c' := Option.some.inj (hc.symm.trans hc')
  cases w <;> cases w' <;> simp_all [Writer.marks]

/-- What stands in the log of the attempt that a start holds. -/
def StartPhase.Logged : StartPhase → Prop
  | .savingAttempt _ a | .asking a _ _ => a.log = startedText
  | .savingRefusal a => a.log = startedText ++ refusedText
  | _ => True

/-- What a recording is going to add to a log. The one that it adds to is as it was at the start, or
as the store has it. -/
def RecordingPhase.Logged (known : String → Prop) : RecordingPhase → Prop
  | .describing _ _ text _ => Writer.result.Adds text
  | .findingAttempt text _ after => (Writer.report after).Adds text
  | .savingAttempt a after =>
    ∃ log text, a.log = log ++ text ∧ (Writer.report after).Adds text ∧
      (log = startedText ∨ known log)
  | _ => True

theorem RecordingPhase.Logged.mono {known known' : String → Prop} {p : RecordingPhase}
    (h : p.Logged known) (hk : ∀ log, known log → log = startedText ∨ known' log) :
    p.Logged known' := by
  cases p with
  | savingAttempt a after =>
      obtain ⟨log, text, hlog, hadds, hbase⟩ := h
      exact ⟨log, text, hlog, hadds, hbase.elim .inl (hk log)⟩
  | describing | findingAttempt => exact h
  | findingMilestone | announcing | findingRecord | savingRecord | savingMilestone
  | findingVersion | savingVersion | ended => trivial

end Release

namespace ReleaseDesk

/-- The log of the attempt `x` once it is closed. -/
def ClosedLog (x : ResourceId) (closed : List Writer) (d : ReleaseDesk) (log : String) : Prop :=
  closed ≠ [] ∧ ∃ a, d.store.attempts.get? x = some a ∧ a.log = log

/-- The logs of the attempt `x`, before it is closed and after it has been closed once. -/
structure Logged (x : ResourceId) (closed : List Writer) (d : ReleaseDesk) : Prop where
  opened : closed = [] → ∀ {a}, d.store.attempts.get? x = some a →
    a.status = .inProgress ∧ a.log = startedText
  done : ∀ {w}, closed = [w] → ∃ a text, d.store.attempts.get? x = some a ∧
    a.status ≠ .inProgress ∧ w.Adds text ∧ a.log = startedText ++ text
  starts : ∀ {k : Nat} {s : Start}, d.starts[k]? = some s → s.phase.Logged
  recordings : ∀ {k : Nat} {r : Recording}, d.recordings[k]? = some r → r.attempt = x →
    r.phase.Logged (ClosedLog x closed d)

theorem logged_empty (x : ResourceId) (process : String) (callbackBase : Option String) :
    Logged x [] (.empty process callbackBase) where
  opened _ _ h := by simp [ReleaseDesk.empty, Store.empty] at h
  done h := by simp at h
  starts h := by simp [ReleaseDesk.empty] at h
  recordings h := by simp [ReleaseDesk.empty] at h

section Logged

variable {x : ResourceId} {closed begun : List Writer} {d b d' : ReleaseDesk} {k : Nat} {e : Event}
  {times : List Instant} {ids : List ResourceId}

theorem StartStep.logged {s : Start} {p : StartPhase} (h : StartStep d k s e b p)
    (hs : s.phase.Logged) : p.Logged := by
  cases h with
  | proceed => exact rfl
  | enroll h =>
      rw [h] at hs
      exact hs
  | refuse h =>
      rw [h] at hs
      have hlog : _ = startedText := hs
      simp [StartPhase.Logged, refusedAttempt, hlog]
  | lookupFails | unknown | beaten | mark | checkFails | occupied | saveFails | closeFails | close
  | accept | announced | dropIdle | dropChecking | dropUnsaved | dropSaved | dropOpen
  | dropClosed => trivial

theorem describe_logged (known : String → Prop) (m : Milestone) (result : ReleaseResult)
    (text : String) (ahead : List Passage) (h : Writer.result.Adds text) :
    (describe m result text ahead).Logged known := by
  fun_induction describe m result text ahead with
  | case1 text ahead ih =>
      obtain ⟨r, rest, rfl⟩ := h
      exact ih ⟨r, rest ++ "\n", String.append_assoc ..⟩
  | case2 text => exact h
  | case3 text ahead => exact h

theorem nextRecord_logged (known : String → Prop) (m : Milestone) (now : Instant)
    (ahead : List BuildImport) : (nextRecord m now ahead).Logged known := by
  cases ahead <;> trivial

theorem turn_logged (known : String → Prop) (d : ReleaseDesk) (r : Recording) (now : Instant)
    (after : Option (Milestone × ReleaseResult)) : (d.turn r now after).2.Logged known := by
  cases after with
  | none => trivial
  | some p => exact nextRecord_logged ..

theorem RecordingStep.logged {r : Recording} {p : RecordingPhase} (h : RecordingStep d k r e b p)
    (hd : Logged x closed d) (hr : d.recordings[k]? = some r) (hx : r.attempt = x) :
    p.Logged (ClosedLog x closed d) := by
  have logged := hd.recordings hr hx
  cases h with
  | @describe result m fault now h =>
      exact describe_logged _ _ _ _ _ ⟨result, "", String.append_empty.symm⟩
  | passage h =>
      rw [h] at logged
      obtain ⟨result, rest, rfl⟩ := logged
      exact describe_logged _ _ _ _ _ ⟨result, _, String.append_assoc ..⟩
  | @fail payload => exact ⟨payload, rfl⟩
  | @find text status after a fault now h ha =>
      rw [h] at logged
      have ha := found_eq_some ha
      rw [hx] at ha
      refine ⟨a.log, text, rfl, logged, ?_⟩
      by_cases hn : closed = []
      · exact .inl (hd.opened hn ha).2
      · exact .inr ⟨hn, a, ha, rfl⟩
  | miss | closeFails | announced => exact turn_logged ..
  | missRecord | saveRecord => exact nextRecord_logged ..
  | lost | close | findRecord | saveMilestone | findVersion | passVersion | saveVersion => trivial

/-- What happens to the attempt `x` in a step: nothing, or it is stored, or it is closed. -/
theorem Sound.row_cases (hd : d.Sound times ids) (hs : d.step e = some d') :
    closings x d e = [] ∧ d'.store.attempts.get? x = d.store.attempts.get? x ∨
    (∃ a, d.saving? e = some (.start, a) ∧ a.id = x ∧ closings x d e = [] ∧
      d.store.attempts.get? x = none ∧ d'.store.attempts.get? x = some a ∧
      a.status = .inProgress) ∨
    ∃ w a, d.saving? e = some (w, a) ∧ a.id = x ∧ closings x d e = [w] ∧
      d.store.attempts.get? x ≠ none ∧ d'.store.attempts.get? x = some a ∧
      a.status ≠ .inProgress := by
  have hu := step_update hs
  unfold written? at hu
  cases hw : d.saving? e with
  | none =>
      rw [hw] at hu
      cases hu with
      | keep h => exact .inl ⟨by simp [closings, hw], by rw [h]⟩
  | some v =>
      obtain ⟨w, a⟩ := v
      rw [hw] at hu
      have hsaved : d'.store = d.store.saveAttempt a := by
        generalize d'.store = s' at hu
        cases hu with
        | save => rfl
      by_cases hx : a.id = x
      · have hrow : d'.store.attempts.get? x = some a := by
          rw [hsaved, Store.get?_saveAttempt, if_pos hx]
        rcases hd.saving_cases hw with ⟨rfl, hlacks⟩ | ⟨hne, ⟨b, hb, _⟩, hclosed⟩
        · exact .inr (.inl ⟨a, rfl, hx, by simp [closings, hw], hx ▸ hlacks.isNew, hrow,
            hlacks.isOpen.1⟩)
        · exact .inr (.inr ⟨w, a, rfl, hx, by simp [closings, hw, hne, hx], by simp [← hx, hb],
            hrow, hclosed.1⟩)
      · exact .inl ⟨by simp [closings, hw, hx], by rw [hsaved, Store.get?_saveAttempt, if_neg hx]⟩

/-- What is written of the attempt `x` is its first row, or a row that its writer closes. -/
theorem Logged.saving_cases (h : Logged x closed d) (hd : d.Sound times ids) {w : Writer}
    {a : ReleaseAttempt} (hw : d.saving? e = some (w, a)) (hx : a.id = x) :
    w = .start ∧ a.log = startedText ∨
      ∃ log text, a.log = log ++ text ∧ w.Adds text ∧
        (log = startedText ∨ ClosedLog x closed d log) := by
  rcases saving?_cases hw with ⟨k, s, hs, hw⟩ | ⟨k, r, hr, hw⟩
  · have logged := h.starts hs
    cases hp : s.phase with
    | savingAttempt m a' =>
        obtain ⟨rfl, rfl⟩ : .start = w ∧ a' = a := by simpa [hp, StartPhase.saving?] using hw
        rw [hp] at logged
        exact .inl ⟨rfl, logged⟩
    | savingRefusal a' =>
        obtain ⟨rfl, rfl⟩ : .refusal = w ∧ a' = a := by simpa [hp, StartPhase.saving?] using hw
        rw [hp] at logged
        exact .inr ⟨startedText, refusedText, logged, rfl, .inl rfl⟩
    | findingMilestone | checkingLatest | asking | announcing | ended | dropped =>
        simp [hp, StartPhase.saving?] at hw
  · have hid := (hd.recording_saving hr hw).2.1
    have logged := h.recordings hr (hid.symm.trans hx)
    cases hp : r.phase with
    | savingAttempt a' after =>
        obtain ⟨rfl, rfl⟩ : Writer.report after = w ∧ a' = a := by
          simpa [hp, RecordingPhase.saving?] using hw
        rw [hp] at logged
        obtain ⟨log, text, hlog, hadds, hbase⟩ := logged
        exact .inr ⟨log, text, hlog, hadds, hbase⟩
    | findingMilestone | describing | findingAttempt | announcing | findingRecord | savingRecord
    | savingMilestone | findingVersion | savingVersion | ended =>
        simp [hp, RecordingPhase.saving?] at hw

theorem Logged.starts_step (h : Logged x closed d) (hs : d.step e = some d') {j : Nat} {s : Start}
    (hj : d'.starts[j]? = some s) : s.phase.Logged := by
  rcases step_cases hs with ⟨k, s₀, b, p, hk, step, rfl⟩ | ⟨k, r, b, p, hk, step, rfl⟩ | step
  · rcases step.starts_cases hk hj with ⟨rfl, rfl⟩ | ⟨_, hj⟩
    · exact step.logged (h.starts hk)
    · exact h.starts hj
  · rw [starts_withRecording, step.frame.1] at hj
    exact h.starts hj
  · rcases step.start_cases hj with hj | hnew
    · exact h.starts hj
    · rw [hnew]
      trivial

theorem Logged.recordings_step (h : Logged x closed d) (hs : d.step e = some d') {j : Nat}
    {r : Recording} (hj : d'.recordings[j]? = some r) (hx : r.attempt = x) :
    r.phase.Logged (ClosedLog x closed d) := by
  rcases step_cases hs with ⟨k, s, b, p, hk, step, rfl⟩ | ⟨k, r₀, b, p, hk, step, rfl⟩ | step
  · rw [recordings_withStart, step.recordings_eq] at hj
    exact h.recordings hj hx
  · rcases step.recordings_cases hk hj with ⟨rfl, rfl⟩ | ⟨_, hj⟩
    · exact step.logged h hk hx
    · exact h.recordings hj hx
  · rcases step.recording_cases hj with hj | ⟨report, hnew⟩
    · exact h.recordings hj hx
    · rw [hnew]
      trivial

/-- As long as the attempt is closed once at most, its logs are known. -/
theorem Logged.step (h : Logged x closed d) (hd : d.Sound times ids) (hs : d.step e = some d')
    (hlen : (closed ++ closings x d e).length ≤ 1) (hnew : d.store.attempts.get? x = none → closed = []) :
    Logged x (closed ++ closings x d e) d' := by
  -- A closed log that some recording has read is still the stored one.
  have known : ∀ log, ClosedLog x closed d log → log = startedText ∨
      ClosedLog x (closed ++ closings x d e) d' log := by
    rintro log ⟨hne, a, ha, hlog⟩
    rcases hd.row_cases (x := x) hs with ⟨hn, hrow⟩ | ⟨_, _, _, _, hnone, _⟩ |
      ⟨w, _, _, _, hn, _⟩
    · exact .inr ⟨by simp [hne], a, by rw [hrow, ha], hlog⟩
    · simp [hnone] at ha
    · have := List.length_pos_iff.mpr hne
      simp only [hn, List.length_append, List.length_singleton] at hlen
      omega
  refine ⟨fun hn => ?_, fun {w} hw => ?_, ?_, ?_⟩
  · obtain ⟨hclosed, hn⟩ := List.append_eq_nil_iff.mp hn
    intro a ha
    rcases hd.row_cases (x := x) hs with ⟨_, hrow⟩ | ⟨a', hw, hx, _, _, hrow, hopen⟩ |
      ⟨w, _, _, _, hw, _⟩
    · exact h.opened hclosed (hrow ▸ ha)
    · obtain rfl : a' = a := Option.some.inj (hrow.symm.trans ha)
      rcases h.saving_cases hd hw hx with ⟨_, hlog⟩ | ⟨_, _, _, hadds, _⟩
      · exact ⟨hopen, hlog⟩
      · exact hadds.elim
    · simp [hn] at hw
  · rcases hd.row_cases (x := x) hs with ⟨hn, hrow⟩ | ⟨a, _, _, hn, hnone, _⟩ |
      ⟨v, a, hv, hx, hn, _, hrow, hover⟩
    · rw [hn, List.append_nil] at hw
      rw [hrow]
      exact h.done hw
    · rw [hn, List.append_nil, hnew hnone] at hw
      simp at hw
    · have hclosed : closed = [] := by
        simp only [hn, List.length_append, List.length_singleton] at hlen
        exact List.length_eq_zero_iff.mp (by omega)
      obtain rfl : v = w := by simpa [hn, hclosed] using hw
      rcases h.saving_cases hd hv hx with ⟨rfl, _⟩ | ⟨log, text, hlog, hadds, hbase⟩
      · simp [closings, hv] at hn
      · rcases hbase with rfl | hbase
        · exact ⟨a, text, hrow, hover, hadds, hlog⟩
        · exact absurd hclosed hbase.1
  · exact fun hj => h.starts_step hs hj
  · exact fun hj hx => (h.recordings_step hs hj hx).mono known

end Logged

/-- Once the attempt `x` is over, its status, its log and its end stay as they are. -/
def Settled (x : ResourceId) (d : ReleaseDesk) (es : List Event) : Prop :=
  ∀ es₁ es₂ es₃ d₁ d₂ a, es = es₁ ++ es₂ ++ es₃ → Run ReleaseDesk.step d es₁ d₁ →
    Run ReleaseDesk.step d₁ es₂ d₂ → d₁.store.attempts.get? x = some a → a.status ≠ .inProgress →
      ∃ b, d₂.store.attempts.get? x = some b ∧ b.status = a.status ∧ b.log = a.log ∧
        b.endDate = a.endDate

theorem Settled.of_append {x : ResourceId} {d : ReleaseDesk} {es es' : List Event}
    (h : Settled x d (es ++ es')) : Settled x d es := by
  rintro es₁ es₂ es₃ d₁ d₂ a rfl run run' ha hover
  exact h es₁ es₂ (es₃ ++ es') d₁ d₂ a (List.append_assoc ..) run run' ha hover

/-- A second writer puts another log in the place of the first one's. -/
theorem Logged.overwritten {x : ResourceId} {v w : Writer} {d d' : ReleaseDesk} {e : Event}
    {times : List Instant} {ids : List ResourceId} (h : Logged x [v] d) (hd : d.Sound times ids)
    (hs : d.step e = some d') (hn : closings x d e = [w]) (hne : v ≠ w) :
    ∃ a b, d.store.attempts.get? x = some a ∧ a.status ≠ .inProgress ∧
      d'.store.attempts.get? x = some b ∧ b.log ≠ a.log := by
  obtain ⟨a, text, ha, hover, hadds, hlog⟩ := h.done rfl
  rcases hd.row_cases (x := x) hs with ⟨hn', _⟩ | ⟨_, _, _, hn', _⟩ | ⟨u, b, hu, hx, hn', _, hb, _⟩
  · simp [hn] at hn'
  · simp [hn] at hn'
  · obtain rfl : w = u := by simpa [hn] using hn'
    refine ⟨a, b, ha, hover, hb, fun heq => ?_⟩
    rcases h.saving_cases hd hu hx with ⟨rfl, _⟩ | ⟨log, text', hlog', hadds', hbase⟩
    · simp [closings, hu] at hn
    · rcases hbase with rfl | ⟨_, a', ha', rfl⟩
      · rw [hlog, hlog', String.append_right_inj] at heq
        exact hadds.ne hadds' hne heq.symm
      · obtain rfl : a = a' := Option.some.inj (ha.symm.trans ha')
        rw [heq] at hlog'
        refine hadds'.ne_empty ((String.append_right_inj a.log).mp ?_)
        rw [String.append_empty, ← hlog']

section Run

variable {process : String} {callbackBase : Option String} {x : ResourceId}
  {d₀ d d' : ReleaseDesk} {es es' : List Event}

/-- What is known of the attempt `x` after a run: the writers that have closed it are all different,
and as soon as there are two of them the attempt has not stayed as it was. -/
theorem closings_of_run (x : ResourceId)
    (run : Run ReleaseDesk.step (.empty process callbackBase) es d)
    (orderly : (ReleaseDesk.empty process callbackBase).Orderly es) :
    let closed := notes ReleaseDesk.step (closings x) (.empty process callbackBase) es
    (∃ begun, Once x closed begun d) ∧ (closed.length ≤ 1 ∧ Logged x closed d ∨
      2 ≤ closed.length ∧ ¬Settled x (.empty process callbackBase) es) := by
  induction run with
  | nil => exact ⟨⟨[], once_empty ..⟩, .inl ⟨Nat.zero_le 1, logged_empty ..⟩⟩
  | @snoc es d d' e before last ih =>
      have orderly₀ := orderly.of_append before
      have hd := sound_of_run before orderly₀
      -- The writers are kept track of to the end, the logs only until the second closing.
      obtain ⟨⟨begun, once⟩, hlogs⟩ := ih orderly₀
      obtain ⟨begun', once'⟩ := once.step hd last (orderly.last before last).2
      rw [notes_snoc (closings x) before last]
      generalize notes ReleaseDesk.step (closings x) (.empty process callbackBase) es = closed at *
      refine ⟨⟨begun', once'⟩, ?_⟩
      rcases hlogs with ⟨hlen, logged⟩ | ⟨hlen, hnot⟩
      · by_cases hlen' : (closed ++ closings x d e).length ≤ 1
        · exact .inl ⟨hlen', logged.step hd last hlen' fun hx => (once.fresh hx).1⟩
        · refine .inr ⟨by omega, fun settled => ?_⟩
          -- This is the second closing, by another writer than the first.
          obtain ⟨v, w, hv, hw⟩ : ∃ v w, closed = [v] ∧ closings x d e = [w] := by
            rw [List.length_append] at hlen'
            have := length_closings_le x d e
            obtain ⟨v, hv⟩ := List.length_eq_one_iff.mp (show closed.length = 1 by omega)
            obtain ⟨w, hw⟩ :=
              List.length_eq_one_iff.mp (show (closings x d e).length = 1 by omega)
            exact ⟨v, w, hv, hw⟩
          have hne : v ≠ w := by
            have := once'.nodup
            rw [hv, hw] at this
            simpa using this
          -- The attempt was over before this event, and after it its log is another one.
          obtain ⟨a, b, ha, hover, hb, hlog⟩ := (hv ▸ logged).overwritten hd last hw hne
          obtain ⟨b', hb', _, hlog', _⟩ :=
            settled es [e] [] d d' a (List.append_nil _).symm before (.snoc .nil last) ha hover
          obtain rfl : b = b' := Option.some.inj (hb.symm.trans hb')
          exact hlog hlog'
      · exact .inr ⟨by rw [List.length_append]; omega, fun settled => hnot settled.of_append⟩

/-- A stored attempt stays stored; once it is over it stays over, and it stays the same as long as
nobody closes it. -/
theorem row_of_run {a : ReleaseAttempt}
    (run : Run ReleaseDesk.step (.empty process callbackBase) es d)
    (run' : Run ReleaseDesk.step d es' d')
    (orderly : (ReleaseDesk.empty process callbackBase).Orderly (es ++ es'))
    (ha : d.store.attempts.get? x = some a) :
    ∃ b, d'.store.attempts.get? x = some b ∧ (a.status ≠ .inProgress → b.status ≠ .inProgress) ∧
      (notes ReleaseDesk.step (closings x) d es' = [] → b = a) := by
  induction run' with
  | nil => exact ⟨a, ha, id, fun _ => rfl⟩
  | @snoc es' t u e before last ih =>
      rw [← List.append_assoc] at orderly
      have orderly₀ := orderly.of_append (run.trans before)
      have hd := sound_of_run (run.trans before) orderly₀
      obtain ⟨b, hb, hover, hsame⟩ := ih orderly₀
      rw [notes_snoc (closings x) before last]
      rcases hd.row_cases (x := x) last with ⟨hn, hrow⟩ | ⟨_, _, _, _, hnone, _⟩ |
        ⟨w, c, _, _, hn, _, hrow, hover'⟩
      · exact ⟨b, hrow.trans hb, hover, fun hnil => hsame (List.append_eq_nil_iff.mp hnil).1⟩
      · simp [hnone] at hb
      · exact ⟨c, hrow, fun _ => hover', fun hnil => by simp [hn] at hnil⟩

/-- An attempt that is over never is in progress again, and each of its three writers closes it once
at most. But it keeps its status, its log and its end exactly if no two of them get through. -/
theorem settled_iff_closed_once (x : ResourceId)
    (run : Run ReleaseDesk.step (.empty process callbackBase) es d)
    (orderly : (ReleaseDesk.empty process callbackBase).Orderly es) :
    let closed := notes ReleaseDesk.step (closings x) (.empty process callbackBase) es
    (∀ es₁ es₂ es₃ d₁ d₂ a, es = es₁ ++ es₂ ++ es₃ →
      Run ReleaseDesk.step (.empty process callbackBase) es₁ d₁ → Run ReleaseDesk.step d₁ es₂ d₂ →
      d₁.store.attempts.get? x = some a → a.status ≠ .inProgress →
        ∃ b, d₂.store.attempts.get? x = some b ∧ b.status ≠ .inProgress) ∧
      closed.Nodup ∧ (Settled x (.empty process callbackBase) es ↔ closed.length ≤ 1) := by
  obtain ⟨⟨_, once⟩, hlogs⟩ := closings_of_run x run orderly
  refine ⟨?_, once.nodup, fun settled => ?_, fun hlen => ?_⟩
  · rintro es₁ es₂ es₃ d₁ d₂ a rfl run₁ run₂ ha hover
    have orderly₂ := orderly.of_append (run₁.trans run₂)
    obtain ⟨b, hb, hover', _⟩ := row_of_run run₁ run₂ orderly₂ ha
    exact ⟨b, hb, hover' hover⟩
  · rcases hlogs with ⟨hlen, _⟩ | ⟨_, hnot⟩
    · exact hlen
    · exact absurd settled hnot
  · rintro es₁ es₂ es₃ d₁ d₂ a rfl run₁ run₂ ha hover
    have orderly₂ := orderly.of_append (run₁.trans run₂)
    have orderly₁ := orderly₂.of_append run₁
    rw [notes_append _ (run₁.trans run₂), notes_append _ run₁, List.length_append,
      List.length_append] at hlen
    obtain ⟨_, hlogs₁⟩ := closings_of_run x run₁ orderly₁
    rcases hlogs₁ with ⟨_, logged⟩ | ⟨hlen', _⟩
    · have hclosed : notes ReleaseDesk.step (closings x) (.empty process callbackBase) es₁ ≠ [] :=
        fun hn => hover (logged.opened hn ha).1
      have hpos := List.length_pos_iff.mpr hclosed
      obtain ⟨b, hb, _, hsame⟩ := row_of_run run₁ run₂ orderly₂ ha
      obtain rfl := hsame (List.length_eq_zero_iff.mp (by omega))
      exact ⟨b, hb, rfl, rfl, rfl⟩
    · omega

end Run

/-- Both reports on one attempt: the second is delivered when the first has closed the attempt, but
is not done with the milestone. -/
def crossing (now : Instant) : List Event := [
  .edit .empty (Table.empty.insert ⟨7⟩ ⟨⟨7⟩, "1.0", ⟨1⟩, none, none⟩) .empty .empty,
  .beginStart ⟨7⟩ "token",
  .answerStart 0 none now ⟨20⟩,
  .answerStart 0 none now ⟨20⟩,
  .answerStart 0 none now ⟨20⟩,
  .answerAsking 0 (.ok ()) now,
  .dispatch (.ofResource ⟨20⟩) "IMPORT_SUCCESS"
    (.object [("milestoneId", .string "00000000-0000-0000-0000-000000000007"),
      ("releaseStatus", .string "SUCCESS"), ("builds", .array [])]),
  .answerRecording 0 none now,
  .answerRecording 0 none now,
  .answerRecording 0 none now,
  .dispatch (.ofResource ⟨20⟩) "IMPORT_ERROR" .null,
  .answerRecording 1 none now,
  .answerRecording 1 none now,
  .answerRecording 1 none now]

theorem settled_before_crossing :
    Settled ⟨20⟩ (.empty "release" none) ((crossing noon).take 10) := by
  have h : (((crossing noon).take 10).foldlM ReleaseDesk.step (.empty "release" none)).isSome := by
    decide +kernel
  refine (settled_iff_closed_once ⟨20⟩ (Run.iff_foldlM.mpr (Option.some_get h).symm)
    ⟨by decide +kernel, by decide +kernel⟩).2.2.mpr ?_
  decide +kernel

/-- The second report takes the place of the first: the attempt has succeeded, and then it has not. -/
theorem crossing_not_settled :
    (ReleaseDesk.empty "release" none).Orderly (crossing noon) ∧
      (∃ d, Run ReleaseDesk.step (.empty "release" none) (crossing noon) d) ∧
      ¬Settled ⟨20⟩ (.empty "release" none) (crossing noon) := by
  have before : (((crossing noon).take 10).foldlM ReleaseDesk.step (.empty "release" none)).bind
      (fun d => (d.store.attempts.get? ⟨20⟩).map (·.status)) = some .succeeded := by
    decide +kernel
  have after : ((crossing noon).foldlM ReleaseDesk.step (.empty "release" none)).bind
      (fun d => (d.store.attempts.get? ⟨20⟩).map (·.status)) = some .systemError := by
    decide +kernel
  simp only [Option.bind_eq_some_iff, Option.map_eq_some_iff] at before after
  obtain ⟨d₁, run₁, a, ha, hsucceeded⟩ := before
  obtain ⟨d₂, run, b, hb, herror⟩ := after
  rw [← Run.iff_foldlM] at run run₁
  refine ⟨⟨by decide +kernel, by decide +kernel⟩, ⟨d₂, run⟩, fun settled => ?_⟩
  rw [← List.take_append_drop 10 (crossing noon)] at run
  obtain ⟨t, run₁', run₂⟩ := Run.append_inv run
  obtain rfl := run₁.unique run₁'
  obtain ⟨b', hb', hstatus, _⟩ := settled ((crossing noon).take 10) ((crossing noon).drop 10) []
    d₁ d₂ a (by simp) run₁ run₂ ha (by rw [hsucceeded]; decide)
  obtain rfl : b = b' := Option.some.inj (hb.symm.trans hb')
  rw [herror, hsucceeded] at hstatus
  exact absurd hstatus (by decide)

end ReleaseDesk

end Foreman
