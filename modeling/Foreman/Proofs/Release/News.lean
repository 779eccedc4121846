import Foreman.Proofs.Notifier.Dues
import Foreman.Proofs.Release.Heralds
import Foreman.Rehearsal.Player

/-!
The news of releases. A start tells the clients of its own copy of the attempt, after the engine has
answered; a recording tells them of what it has just saved. A client that listens all the while is told
of every change, but what it is told last may have been overtaken before it was handed over.
-/

namespace Foreman

open Release

/-- The message that tells of an attempt. -/
def Release.news (a : ReleaseAttempt) : Notification := .releaseChanged a.milestone a.status

/-- A release desk with the messages that its heralds and others send. -/
structure Pressroom (C : Type) where
  desk : ReleaseDesk
  post : Post C (Option Herald)

namespace Pressroom

variable {C : Type}

def empty (process : String) (callbackBase : Option String) : Pressroom C :=
  ⟨.empty process callbackBase, .empty⟩

inductive Event (C : Type) where
  /-- Whatever happens at the desk. -/
  | act (e : ReleaseDesk.Event)
  /-- The herald posts its news to the clients, in some order. -/
  | announce (x : Herald) (order : List Nat)
  /-- Whatever happens to messages and clients, apart from the posting of news. -/
  | mail (e : Post.Event C (Option Herald))

/-- The herald has posted its news, and all is done with the message. -/
def isThrough (r : Pressroom C) (x : Herald) : Bool :=
  r.post.mailings.any (·.sender = some x) && r.post.isClosed (some x)

variable [Recipient C]

/-- One event, if it is possible. -/
def step (r : Pressroom C) : Event C → Option (Pressroom C)
  | .act e =>
    if e.told?.all r.isThrough then (r.desk.step e).map fun desk => { r with desk } else none
  | .announce x order => do
    let a ← r.desk.announced? x
    if r.post.mailings.any (·.sender = some x) then none
    else
      (r.post.step (.post (some x) (news a)
        (.subscribers Notification.releaseTopic a.milestone.text) order)).map fun post =>
          { r with post }
  | .mail e => (r.post.stepAside e).map fun post => { r with post }

/-- What a client is told of a milestone, and the status of the latest attempt at that moment. -/
structure Tiding where
  told : AttemptStatus
  stored : Option AttemptStatus
deriving DecidableEq

/-- What the client `j` is told of the milestone. -/
def tidings (j : Nat) (milestone : ResourceId) (r : Pressroom C) : Event C → List Tiding
  | .mail e => (Post.reaching j r.post e).filterMap fun y =>
    match y.2 with
    | .releaseChanged m s => if m = milestone then some ⟨s, r.desk.status? milestone⟩ else none
    | _ => none
  | _ => []

/-- What happens at the desk in the event. -/
def Event.acts : Event C → List ReleaseDesk.Event
  | .act e => [e]
  | _ => []

/-- The steps of a pressroom. -/
inductive Move (r : Pressroom C) : Event C → Pressroom C → Prop
  | act {e desk}
      (through : ∀ x ∈ e.told?, ¬r.post.Silent (some x) ∧ r.post.Closed (some x))
      (h : r.desk.step e = some desk) : Move r (.act e) { r with desk }
  | announce {x order a post} (ha : r.desk.announced? x = some a)
      (first : r.post.Silent (some x))
      (h : r.post.step (.post (some x) (news a)
        (.subscribers Notification.releaseTopic a.milestone.text) order) = some post) :
      Move r (.announce x order) { r with post }
  | mail {e post} (own : ∀ x, ¬e.isPostOf (some x)) (h : r.post.step e = some post) :
      Move r (.mail e) { r with post }

variable {r r' : Pressroom C} {e : Event C} {j : Nat} {m : ResourceId} {x : Herald}

theorem step_move (h : r.step e = some r') : Move r e r' := by
  cases e with
  | act e =>
      simp only [step] at h
      split at h
      next through =>
        obtain ⟨desk, hd, rfl⟩ := Option.map_eq_some_iff.mp h
        refine .act (fun x hx => ?_) hd
        rw [hx, Option.all_some, isThrough, Bool.and_eq_true] at through
        refine ⟨fun silent => ?_, Post.isClosed_iff.mp through.2⟩
        obtain ⟨y, hy, sender⟩ := List.any_eq_true.mp through.1
        obtain ⟨n, hn⟩ := List.getElem?_of_mem hy
        exact silent n y hn (of_decide_eq_true sender)
      next => simp at h
  | announce x order =>
      obtain ⟨a, ha, h⟩ := Option.bind_eq_some_iff.mp h
      split at h
      next => simp at h
      next first =>
        obtain ⟨post, hp, rfl⟩ := Option.map_eq_some_iff.mp h
        refine .announce ha (fun n y hy sender => first ?_) hp
        exact List.any_eq_true.mpr ⟨y, List.mem_of_getElem? hy, decide_eq_true sender⟩
  | mail e =>
      obtain ⟨post, hp, rfl⟩ := Option.map_eq_some_iff.mp h
      obtain ⟨own, hp⟩ := Post.stepAside_eq_some.mp hp
      exact .mail own hp

/-- The desk goes on by what happens there. -/
theorem desk_run {es : List (Event C)} (run : Run step r es r') :
    Run ReleaseDesk.step r.desk (es.flatMap Event.acts) r'.desk := by
  induction run with
  | nil => exact .nil
  | snoc before last ih =>
      rw [List.flatMap_append]
      cases step_move last with
      | act through h => exact .snoc ih h
      | announce | mail => simpa [Event.acts] using ih

/-- Messages are in order, and a herald posts nothing before it comes to telling its news. -/
structure Sound (r : Pressroom C) : Prop where
  post : r.post.Sound
  heralds : ∀ x, r.desk.MayHaveTold x ∨ r.post.Silent (some x)

theorem sound_empty (process : String) (callbackBase : Option String) :
    (empty process callbackBase : Pressroom C).Sound :=
  ⟨Post.sound_empty, fun _ => .inr (by simp [empty, Post.empty, Post.Silent])⟩

theorem Sound.step (h : r.Sound) (hs : r.step e = some r') : r'.Sound := by
  cases step_move hs with
  | act through hd => exact ⟨h.post, fun x => (h.heralds x).imp_left fun told => told.step hd⟩
  | @announce x order a post ha first hp =>
      refine ⟨h.post.step hp, fun y => ?_⟩
      by_cases hy : x = y
      · exact .inl (hy ▸ ReleaseDesk.mayHaveTold_of_announced ha)
      · exact (h.heralds y).imp_right fun silent => silent.step hp fun h => hy (Option.some.inj h)
  | mail own hp =>
      exact ⟨h.post.step hp, fun x => (h.heralds x).imp_right fun silent => silent.step hp (own x)⟩

/-! ### News that are still to come -/

/-- The herald is going to tell the client `j` of the milestone. -/
structure Pledged (j : Nat) (m : ResourceId) (x : Herald) (r : Pressroom C) : Prop where
  owes : r.desk.OwesNews m x
  coming : r.post.Silent (some x) ∨ ∃ s, r.post.Due (some x) j (some (.releaseChanged m s))

/-- A message that the client is not handed is still to come. -/
theorem Pledged.aside (h : Pledged j m x r) (sound : r.post.Sound)
    {e : Post.Event C (Option Herald)} {post : Post C (Option Herald)}
    (hp : r.post.step e = some post) (other : ¬e.isPostOf (some x))
    (untold : ∀ s, .releaseChanged m s ∉ Post.served (some x) j r.post e) :
    Pledged j m x { r with post } := by
  refine ⟨h.owes, ?_⟩
  rcases h.coming with silent | ⟨s, due⟩
  · exact .inl (silent.step hp other)
  · obtain ⟨o, due', served⟩ := due.step sound hp other
    refine .inr ⟨s, ?_⟩
    cases hserved : Post.served (some x) j r.post e with
    | nil =>
        rw [hserved, Option.toList_some, List.nil_append] at served
        cases o with
        | none => simp at served
        | some n =>
            obtain rfl : .releaseChanged m s = n := by simpa using served
            exact due'
    | cons n rest =>
        rw [hserved, Option.toList_some, List.cons_append] at served
        obtain rfl : .releaseChanged m s = n := (List.cons.inj served).1
        exact absurd (hserved ▸ List.mem_cons_self) (untold s)

omit [Recipient C] in
theorem untold_of_tidings {e : Post.Event C (Option Herald)} (h : tidings j m r (.mail e) = [])
    (x : Herald) (s : AttemptStatus) :
    .releaseChanged m s ∉ Post.served (some x) j r.post e := by
  intro served
  obtain ⟨y, hy, hn⟩ := List.mem_filterMap.mp served
  split at hn
  next =>
    have none := List.filterMap_eq_nil_iff.mp h y hy
    rw [Option.some.inj hn] at none
    simp at none
  next => simp at hn

/-- Who is going to tell a client something does so before it is through. -/
theorem Pledged.step (h : Pledged j m x r) (sound : r.post.Sound) (placed : r.desk.Placed)
    (hs : r.step e = some r') (smooth : ∀ e' ∈ e.acts, e'.isSmooth = true)
    (hears : r.post.notifier.Hears (.subscribers Notification.releaseTopic m.text) j)
    (untold : tidings j m r e = []) : Pledged j m x r' := by
  cases step_move hs with
  | @act e desk through hd =>
      rcases h.owes.step hd (smooth e List.mem_cons_self) with owes | told
      · exact ⟨owes, h.coming⟩
      · obtain ⟨posted, closed⟩ := through x told
        rcases h.coming with silent | ⟨s, due⟩
        · exact absurd silent posted
        · have := due.eq_none sound closed
          simp at this
  | @announce y order a post ha first hp =>
      by_cases hy : y = x
      · subst hy
        obtain rfl := h.owes.milestone placed ha
        exact ⟨h.owes, .inr ⟨a.status, Post.due_post first.closed hp hears⟩⟩
      · refine h.aside sound hp (fun h => hy (Option.some.inj h)) fun s served => ?_
        simp [Post.served, Post.reaching] at served
  | mail own hp => exact h.aside sound hp (own x) (untold_of_tidings untold x)

omit [Recipient C] in
/-- News that are still to come leave something under way. -/
theorem Pledged.isQuiet_eq_false (h : Pledged j m x r) : r.desk.isQuiet m = false := by
  rw [← Bool.not_eq_true]
  intro quiet
  rw [ReleaseDesk.isQuiet, Bool.and_eq_true, List.all_eq_true, List.all_eq_true] at quiet
  cases x with
  | start k =>
      obtain ⟨s, hs, hm, owes⟩ := h.owes
      have done := quiet.1 s (List.mem_of_getElem? hs)
      cases hp : s.phase <;> simp_all [StartPhase.owesNews, StartPhase.isOver]
  | recording k =>
      obtain ⟨y, hy, hm, owes⟩ := h.owes
      have done := quiet.2 y (List.mem_of_getElem? hy)
      cases hp : y.phase <;> simp_all [RecordingPhase.owesNews, RecordingPhase.isOver]

/-! ### Runs -/

/-- A run in whose last part the client `j` is attached, enabled and subscribed to the news of the
milestone at every moment. No repository fails, nobody gives up a start, ids are not generated twice,
and others save milestones under their own ids only. -/
structure Followed (process : String) (callbackBase : Option String) (j : Nat) (m : ResourceId)
    (es₀ es : List (Event C)) (r₀ r : Pressroom C) : Prop where
  before : Run step (.empty process callbackBase) es₀ r₀
  run : Run step r₀ es r
  attentive : ∀ es' r', es' <+: es → Run step r₀ es' r' →
    r'.post.notifier.Hears (.subscribers Notification.releaseTopic m.text) j
  smooth : ∀ e ∈ (es₀ ++ es).flatMap Event.acts, e.isSmooth = true
  fresh : (notes ReleaseDesk.step ReleaseDesk.generated (.empty process callbackBase)
    ((es₀ ++ es).flatMap Event.acts)).Nodup
  kept : notes ReleaseDesk.step ReleaseDesk.misfiled (.empty process callbackBase)
    ((es₀ ++ es).flatMap Event.acts) = []

section Run

variable {process : String} {callbackBase : Option String} {es₀ es : List (Event C)}
  {r₀ : Pressroom C} {t : Tiding}

/-- The run without its last event. -/
theorem Followed.init (h : Followed process callbackBase j m es₀ (es ++ [e]) r₀ r')
    (run : Run step r₀ es r) : Followed process callbackBase j m es₀ es r₀ r := by
  have acts : (es₀ ++ (es ++ [e])).flatMap Event.acts =
      (es₀ ++ es).flatMap Event.acts ++ e.acts := by
    simp [List.flatMap_append]
  have desk : Run ReleaseDesk.step (.empty process callbackBase) _ r.desk :=
    desk_run (h.before.trans run)
  have fresh := h.fresh
  have kept := h.kept
  rw [acts, notes_append _ desk] at fresh kept
  refine ⟨h.before, run, fun es' r' hes => ?_, fun e' he' => ?_, (List.nodup_append.mp fresh).1,
    (List.append_eq_nil_iff.mp kept).1⟩
  · exact h.attentive es' r' (hes.trans (List.prefix_append ..))
  · exact h.smooth e' (acts ▸ List.mem_append_left _ he')

theorem Followed.filed (h : Followed process callbackBase j m es₀ es r₀ r) :
    r.desk.Filed (notes ReleaseDesk.step ReleaseDesk.generated (.empty process callbackBase)
      ((es₀ ++ es).flatMap Event.acts)) :=
  ReleaseDesk.filed_of_run (desk_run (h.before.trans h.run)) h.fresh h.kept

theorem Followed.placed (h : Followed process callbackBase j m es₀ es r₀ r) : r.desk.Placed :=
  ReleaseDesk.placed_of_run (desk_run (h.before.trans h.run)) h.fresh h.kept

theorem Followed.sound (h : Followed process callbackBase j m es₀ es r₀ r) : r.Sound :=
  (h.before.trans h.run).invariant (sound_empty process callbackBase)
    fun _ _ _ sound => sound.step

/-- As long as the client is told nothing, it has been told the status or is going to be. -/
theorem Followed.untold_step (h : Followed process callbackBase j m es₀ (es ++ [e]) r₀ r')
    (run : Run step r₀ es r) (last : r.step e = some r') (untold : tidings j m r e = [])
    (told : r.desk.status? m = t.stored ∨ ∃ x, Pledged j m x r) :
    r'.desk.status? m = t.stored ∨ ∃ x, Pledged j m x r' := by
  have before := h.init run
  have smooth : ∀ e' ∈ e.acts, e'.isSmooth = true := by
    intro e' he'
    exact h.smooth e' (by simp [List.flatMap_append, he'])
  have keyed : r'.desk.store.AttemptsKeyed := fun id a ha => (h.filed.attempts ha).1
  rcases told with same | ⟨x, pledged⟩
  · cases step_move last with
    | @act e desk through hd =>
        rcases ReleaseDesk.latestAttempt_step before.filed before.placed keyed hd
            (smooth e List.mem_cons_self) m with kept | ⟨x, owes, fresh⟩
        · refine .inl ?_
          rw [← same, ReleaseDesk.status?, ReleaseDesk.status?]
          exact congrArg _ kept
        · exact .inr ⟨x, owes, .inl ((before.sound.heralds x).resolve_left fresh)⟩
    | announce | mail => exact .inl same
  · have hears := h.attentive es r (List.prefix_append ..) run
    exact .inr ⟨x, pledged.step before.sound.post before.placed last smooth hears untold⟩

/-- Sending changes nothing that is stored. -/
theorem stored_of_tidings (hs : r.step e = some r') (ht : t ∈ tidings j m r e) :
    r'.desk.status? m = t.stored := by
  cases step_move hs with
  | act | announce => simp [tidings] at ht
  | mail own hp =>
      obtain ⟨y, -, hy⟩ := List.mem_filterMap.mp ht
      split at hy
      next =>
        split at hy
        next => rw [← Option.some.inj hy]
        next => simp at hy
      next => simp at hy

/-- Since the client was told last, nothing has changed but what it is still going to be told. -/
theorem Followed.told (h : Followed process callbackBase j m es₀ es r₀ r)
    (last : (notes step (tidings j m) r₀ es).getLast? = some t) :
    r.desk.status? m = t.stored ∨ ∃ x, Pledged j m x r := by
  have run := h.run
  induction run with
  | nil => simp [notes] at last
  | @snoc es r r' e run next ih =>
      rw [notes_snoc _ run next] at last
      -- What the client is told in the last event takes the place of what it was told before.
      by_cases untold : tidings j m r e = []
      · rw [untold, List.append_nil] at last
        exact h.untold_step run next untold (ih (h.init run) last)
      · rw [List.getLast?_append_of_ne_nil _ untold] at last
        exact .inl (stored_of_tidings next (List.mem_of_getLast? last))

/-- Let nothing be under way for the milestone. Then what a client was told last of it is the status
of its latest attempt exactly if it was the status when the client was told: whatever is saved
afterwards the client is told of as well. -/
theorem last_tiding_true_iff (h : Followed process callbackBase j m es₀ es r₀ r)
    (quiet : r.desk.isQuiet m = true)
    (last : (notes step (tidings j m) r₀ es).getLast? = some t) :
    r.desk.status? m = some t.told ↔ t.stored = some t.told := by
  rcases h.told last with same | ⟨x, pledged⟩
  · rw [same]
  · rw [pledged.isQuiet_eq_false] at quiet
    simp at quiet

end Run

section Overtaken

open Rehearsal

/-- A milestone is there, and a client that hears the news of all releases. -/
def opening : List (Event Player) := [
  .act (.edit .empty (Table.empty.insert ⟨7⟩ ⟨⟨7⟩, "1.0", ⟨1⟩, none, none⟩) .empty .empty),
  .mail (.deed (.create (.scripted
    { session := "desk", subscriptions := [("milestone-release", "*")] }))),
  .mail (.deed (.attach 0))]

/-- A start up to the call of the engine. -/
def started (now : Instant) : List (Event Player) := [
  .act (.beginStart ⟨7⟩ "token"),
  .act (.answerStart 0 none now ⟨20⟩),
  .act (.answerStart 0 none now ⟨20⟩),
  .act (.answerStart 0 none now ⟨20⟩)]

/-- The release has succeeded, and its attempt is saved. -/
def reported (now : Instant) : List (Event Player) := [
  .act (.dispatch (.ofResource ⟨20⟩) "IMPORT_SUCCESS"
    (.object [("milestoneId", .string "00000000-0000-0000-0000-000000000007"),
      ("releaseStatus", .string "SUCCESS"), ("builds", .array [])])),
  .act (.answerRecording 0 none now),
  .act (.answerRecording 0 none now),
  .act (.answerRecording 0 none now)]

/-- The milestone is saved, and its version is not there. -/
def recorded (now : Instant) : List (Event Player) := [
  .act (.recordingAnnounced 0 now),
  .act (.answerRecording 0 none now),
  .act (.answerRecording 0 none now)]

/-- The herald tells the client by the message with number `n`. -/
def telling (x : Herald) (n : Nat) : List (Event Player) :=
  [.announce x [0], .mail (.hand n), .mail (.answer n 0 true), .mail (.close n)]

/-- The engine answers the start before the release is reported. -/
def prompt (now : Instant) : List (Event Player) :=
  started now ++ [.act (.answerAsking 0 (.ok ()) now)] ++ telling (.start 0) 0 ++
    [.act (.startAnnounced 0)] ++ reported now ++ telling (.recording 0) 1 ++ recorded now

/-- The release is reported before the engine answers the start. -/
def overtaken (now : Instant) : List (Event Player) :=
  started now ++ reported now ++ telling (.recording 0) 0 ++ recorded now ++
    [.act (.answerAsking 0 (.ok ()) now)] ++ telling (.start 0) 1 ++ [.act (.startAnnounced 0)]

theorem opening_runs : (opening.foldlM step (empty "release" none)).isSome = true := by
  decide +kernel

def opened : Pressroom Player := (opening.foldlM step (empty "release" none)).get opening_runs

theorem prompt_runs : ((prompt noon).foldlM step opened).isSome = true := by decide +kernel

theorem overtaken_runs : ((overtaken noon).foldlM step opened).isSome = true := by decide +kernel

/-- Whether the client hears the news after each of the events. -/
def isHeard (es : List (Event Player)) : Bool :=
  es.inits.all fun es' => (es'.foldlM step opened).all fun r =>
    (r.post.notifier.targets
      (Audience.subscribers Notification.releaseTopic (ResourceId.mk 7).text).wants).contains 0

theorem followed_of_isHeard {es : List (Event Player)} {r : Pressroom Player}
    (run : es.foldlM step opened = some r) (heard : isHeard es = true)
    (smooth : ∀ e ∈ (opening ++ es).flatMap Event.acts, e.isSmooth = true)
    (fresh : (notes ReleaseDesk.step ReleaseDesk.generated (.empty "release" none)
      ((opening ++ es).flatMap Event.acts)).Nodup)
    (kept : notes ReleaseDesk.step ReleaseDesk.misfiled (.empty "release" none)
      ((opening ++ es).flatMap Event.acts) = []) :
    Followed "release" none 0 ⟨7⟩ opening es opened r := by
  refine ⟨Run.iff_foldlM.mpr (Option.some_get opening_runs).symm, Run.iff_foldlM.mpr run, ?_, smooth,
    fresh, kept⟩
  intro es' r' part run'
  have here := Run.of_inits heard part run'
  exact Notifier.mem_targets.mp (List.contains_iff_mem.mp here)

theorem last_tiding_prompt :
    ∃ r, Followed "release" none 0 ⟨7⟩ opening (prompt noon) opened r ∧
      r.desk.status? ⟨7⟩ = some .succeeded := by
  have run := (Option.some_get prompt_runs).symm
  have followed := followed_of_isHeard run (by decide +kernel) (by decide +kernel)
    (by decide +kernel) (by decide +kernel)
  have last : (notes step (tidings 0 ⟨7⟩) opened (prompt noon)).getLast? =
      some ⟨.succeeded, some .succeeded⟩ := by decide +kernel
  exact ⟨_, followed, (last_tiding_true_iff followed (by decide +kernel) last).mpr rfl⟩

/-- What is told last may be no longer true: the release has succeeded, and the client is told so, but
then the start tells it that the release is in progress. -/
theorem overtaken_tiding :
    ∃ r, Followed "release" none 0 ⟨7⟩ opening (overtaken noon) opened r ∧
      r.desk.isQuiet ⟨7⟩ = true ∧
      (notes step (tidings 0 ⟨7⟩) opened (overtaken noon)).map (·.told) =
        [.succeeded, .inProgress] ∧
      r.desk.status? ⟨7⟩ = some .succeeded := by
  have run := (Option.some_get overtaken_runs).symm
  have followed := followed_of_isHeard run (by decide +kernel) (by decide +kernel)
    (by decide +kernel) (by decide +kernel)
  exact ⟨_, followed, by decide +kernel, by decide +kernel, by decide +kernel⟩

end Overtaken

end Pressroom

end Foreman
