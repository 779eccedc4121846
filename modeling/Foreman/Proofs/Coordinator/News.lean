import Foreman.Proofs.Chronology
import Foreman.Proofs.Notifier.Dues
import Foreman.Proofs.Workshop.Progress
import Foreman.Rehearsal.Player

/-!
The news of builds. The statuses that a build publishes are forwarded to the clients one by one, each
after the one before was sent to all of them, while anybody may do anything with the builds and the
clients. So one who hears them all the while gets them as they were published, and once nothing is left
to be sent, gets them all.
-/

namespace Foreman

/-- A coordinator open to everybody, with the messages that its forwards and others send. The messages
of a forward bear its number. -/
structure Newsroom (C : Type) where
  floor : Floor
  post : Post C (Option Nat)

namespace Newsroom

variable {C : Type}

def empty (reports : Bool) : Newsroom C := ⟨.empty reports, .empty⟩

def coordinator (r : Newsroom C) : Coordinator := r.floor.coordinator

def withCoordinator (r : Newsroom C) (c : Coordinator) : Newsroom C :=
  { r with floor := r.floor.withCoordinator c }

inductive Event (C : Type) where
  /-- Whatever a coordinator does, apart from forwarding. -/
  | act (a : Coordinator.Action)
  /-- Whatever anybody does with the builds. -/
  | deed (d : Floor.Deed)
  /-- Takes the next status and posts it to the clients, in some order. -/
  | forward (k : Nat) (order : List Nat)
  | forwarded (k : Nat)
  /-- Whatever happens to messages and clients, apart from the posting of forwards. -/
  | mail (e : Post.Event C (Option Nat))

variable [Recipient C]

/-- One event, if it is possible. -/
def step (r : Newsroom C) : Event C → Option (Newsroom C)
  | .act a =>
    if a.isForwarding then none
    else (r.coordinator.step a).map fun x => r.withCoordinator x.1
  | .deed d => (r.floor.step d).map fun floor => { r with floor }
  | .forward k order => do
    match ← r.coordinator.forward k with
    | (c, some (.publish _ n qualifier)) =>
      let post ← r.post.step
        (.post (some k) n (.subscribers Notification.buildTopic qualifier.text) order)
      some { r.withCoordinator c with post }
    | _ => none
  | .forwarded k =>
    -- The forward waits until all is done with its message.
    if r.post.isClosed (some k) then (r.coordinator.forwarded k).map fun x => r.withCoordinator x.1
    else none
  | .mail e => (r.post.stepAside e).map fun post => { r with post }

/-- What the client is handed of what the forward sends. -/
def handed (j k : Nat) (r : Newsroom C) : Event C → List Notification
  | .mail e => Post.served (some k) j r.post e
  | _ => []

/-- The message of a status of a build. -/
def news (configuration : BuildConfiguration) (s : TaskStatus) : Notification :=
  .buildStatusChanged configuration.id configuration.name s

/-- Whether the event sends what was published. -/
def Event.isDelivery : Event C → Bool
  | .forward .. | .forwarded _ | .mail (.hand _) | .mail (.answer ..) | .mail (.close _) => true
  | _ => false

/-- The steps of a newsroom. -/
inductive Move (r : Newsroom C) : Event C → Newsroom C → Prop
  | act {a c o} (ha : a.isForwarding = false) (h : r.coordinator.step a = some (c, o)) :
      Move r (.act a) (r.withCoordinator c)
  | deed {d floor} (h : r.floor.step d = some floor) : Move r (.deed d) { r with floor }
  | forward {k order f t s post} (hf : r.coordinator.forwards[k]? = some f)
      (ht : r.floor.task? f.task = some t) (hs : t.published[f.taken]? = some s)
      (listening : f.phase = .listening)
      (h : r.post.step (.post (some k) (news t.job.configuration s)
        (.subscribers Notification.buildTopic t.job.configuration.id.text) order) = some post) :
      Move r (.forward k order)
        { r.withCoordinator (r.coordinator.withForward k
          { f with taken := f.taken + 1, phase := .sending s }) with post }
  | forwarded {k f s} (hf : r.coordinator.forwards[k]? = some f) (sending : f.phase = .sending s)
      (closed : r.post.Closed (some k)) :
      Move r (.forwarded k) (r.withCoordinator (r.coordinator.withForward k
        { f with phase := if s.isTerminal then .ended else .listening }))
  | mail {e post} (own : ∀ k, ¬e.isPostOf (some k)) (h : r.post.step e = some post) :
      Move r (.mail e) { r with post }

variable {r r' : Newsroom C} {e : Event C} {j k : Nat}

theorem step_move (h : r.step e = some r') : Move r e r' := by
  cases e with
  | act a =>
      simp only [step] at h
      split at h
      next => simp at h
      next ha =>
        obtain ⟨⟨c, o⟩, hs, rfl⟩ := Option.map_eq_some_iff.mp h
        exact .act (Bool.eq_false_iff.mpr ha) hs
  | deed d =>
      obtain ⟨floor, hd, rfl⟩ := Option.map_eq_some_iff.mp h
      exact .deed hd
  | forward k order =>
      obtain ⟨⟨c, o⟩, hf, h⟩ := Option.bind_eq_some_iff.mp h
      cases Coordinator.forward_move hf with
      | forward hf' ht hs hp =>
          obtain ⟨post, hpost, h⟩ := Option.bind_eq_some_iff.mp h
          obtain rfl := Option.some.inj h
          exact .forward hf' ht hs hp hpost
  | forwarded k =>
      simp only [step] at h
      split at h
      next closed =>
        obtain ⟨⟨c, o⟩, hf, rfl⟩ := Option.map_eq_some_iff.mp h
        cases Coordinator.forwarded_move hf with
        | forwarded hf' hp =>
            exact .forwarded hf' hp (Post.isClosed_iff.mp closed)
      next => simp at h
  | mail e =>
      obtain ⟨post, hp, rfl⟩ := Option.map_eq_some_iff.mp h
      obtain ⟨own, hp⟩ := Post.stepAside_eq_some.mp hp
      exact .mail own hp

theorem Move.step (h : Move r e r') : r.step e = some r' := by
  cases h with
  | act ha hc => simp [Newsroom.step, ha, hc]
  | deed hd => simp [Newsroom.step, hd]
  | forward hf ht hs listening hp =>
      rw [news] at hp
      have ht : r.coordinator.task? _ = some _ := ht
      simp [Newsroom.step, Coordinator.forward, hf, ht, hs, listening, hp]
  | @forwarded k f s hf sending closed =>
      have next : r.coordinator.forwarded k = some (r.coordinator.withForward k
          { f with phase := if s.isTerminal then .ended else .listening }, none) := by
        simp [Coordinator.forwarded, hf, sending]
      simp only [Newsroom.step, Post.isClosed_iff.mpr closed, if_true, next]
      rfl
  | mail own hp => simp [Newsroom.step, Post.stepAside_eq_some.mpr ⟨own, hp⟩]

/-! ### What holds in every run -/

/-- In a step, all builds go on, and only the forward that the event is about changes. -/
theorem floor_step (h : r.step e = some r') :
    r.floor.workshop.Onward r'.floor.workshop ∧
      r.coordinator.forwards.length ≤ r'.coordinator.forwards.length := by
  cases step_move h with
  | act ha hc => exact ⟨Coordinator.onward_step hc, (Coordinator.forwards_step hc ha).length_le⟩
  | deed hd =>
      exact ⟨Floor.onward_step hd,
        Nat.le_of_eq (congrArg (·.2.1.length) (Floor.standing_step hd)).symm⟩
  | forward => exact ⟨.refl _, Nat.le_of_eq (List.length_set ..).symm⟩
  | forwarded => exact ⟨.refl _, Nat.le_of_eq (List.length_set ..).symm⟩
  | mail => exact ⟨.refl _, Nat.le_refl _⟩

/-- The builds are lawful, the messages are in order, and their senders are there. -/
structure Sound (r : Newsroom C) : Prop where
  lawful : ∀ i t, r.floor.task? i = some t → t.Lawful
  post : r.post.Sound
  senders : ∀ (m : Nat) (x : Mailing (Option Nat)) (k : Nat), r.post.mailings[m]? = some x →
    x.sender = some k → k < r.coordinator.forwards.length

theorem sound_empty (reports : Bool) : (empty reports : Newsroom C).Sound :=
  ⟨by simp [empty], Post.sound_empty, by simp [empty, Post.empty]⟩

/-- The event that a step is for the messages, if it is one. -/
theorem post_step (h : r.step e = some r') :
    r'.post = r.post ∨ ∃ e', r.post.step e' = some r'.post ∧
      ∀ k, e'.isPostOf (some k) → k < r.coordinator.forwards.length := by
  cases step_move h with
  | act | deed | forwarded => exact .inl rfl
  | forward hf ht hs listening hp =>
      refine .inr ⟨_, hp, fun k hk => ?_⟩
      obtain rfl := Option.some.inj hk
      exact (List.getElem?_eq_some_iff.mp hf).1
  | mail own hp => exact .inr ⟨_, hp, fun k hk => absurd hk (own k)⟩

theorem Sound.step (h : r.Sound) (hs : r.step e = some r') : r'.Sound := by
  obtain ⟨onward, hlength⟩ := floor_step hs
  have lawful := onward.lawful h.lawful
  rcases post_step hs with same | ⟨e', hp, own⟩
  · refine ⟨lawful, same ▸ h.post, fun m x k hx sender => ?_⟩
    rw [same] at hx
    exact Nat.lt_of_lt_of_le (h.senders m x k hx sender) hlength
  · refine ⟨lawful, h.post.step hp, fun m x' k hx' sender => ?_⟩
    rcases Post.mailing_step_inv hp hx' with ⟨x, hx, on⟩ | ⟨_, _, _, _, rfl, rfl, -, -⟩
    · exact Nat.lt_of_lt_of_le (h.senders m x k hx (on.sender ▸ sender)) hlength
    · exact Nat.lt_of_lt_of_le (own k sender) hlength

theorem sound_of_run {reports : Bool} {es : List (Event C)} (run : Run step (empty reports) es r) :
    r.Sound :=
  run.invariant (sound_empty reports) fun _ _ _ sound => sound.step

/-! ### One forward and one client -/

/-- How the messages of the forward stand in its phases, when it has taken the statuses in `seen`. -/
def Fits (p : Post C (Option Nat)) (k : Nat) (seen : List TaskStatus) : ForwardPhase → Prop
  | .listening => p.Closed (some k)
  | .sending s => seen.getLast? = some s
  | .ended => p.Closed (some k) ∧ ∃ s, seen.getLast? = some s ∧ s.isTerminal = true

theorem Fits.step {p p' : Post C (Option Nat)} {e : Post.Event C (Option Nat)}
    {seen : List TaskStatus} {phase : ForwardPhase} (h : Fits p k seen phase)
    (hs : p.step e = some p') (he : ¬e.isPostOf (some k)) : Fits p' k seen phase := by
  cases phase with
  | listening => exact Post.Closed.step h hs he
  | sending => exact h
  | ended => exact ⟨h.1.step hs he, h.2⟩

/-- The forward `k` is abreast of its build: it has taken the statuses in `seen`, and of their messages
the client was handed those in `l` and is owed at most one more. -/
structure Abreast (job : BuildJob) (i j k : Nat) (r : Newsroom C) (l : List Notification)
    (f : Forward) (t : Task) (seen : List TaskStatus) (o : Option Notification) : Prop where
  forward : r.coordinator.forwards[k]? = some f
  builds : f.task = i
  task : r.floor.task? i = some t
  of_job : t.job = job
  published : seen <+: t.published
  taken : seen.length = f.taken
  due : r.post.Due (some k) j o
  told : l ++ o.toList = seen.map (news job.configuration)
  phase : Fits r.post k seen f.phase

variable {job : BuildJob} {i : Nat} {l : List Notification} {f : Forward} {t : Task}
  {seen : List TaskStatus} {o : Option Notification}

omit [Recipient C] in
/-- Whatever becomes of the build meanwhile. -/
theorem Abreast.onward (h : Abreast job i j k r l f t seen o)
    (forward : r'.coordinator.forwards[k]? = some f)
    (onward : r.floor.workshop.Onward r'.floor.workshop) (post : r'.post = r.post) :
    ∃ t', Abreast job i j k r' l f t' seen o := by
  obtain ⟨t', ht', on⟩ := onward.tasks i t h.task
  exact ⟨t', forward, h.builds, ht', on.job.trans h.of_job, h.published.trans on.published, h.taken,
    post ▸ h.due, h.told, post ▸ h.phase⟩

/-- The messages of others. -/
theorem Abreast.aside (h : Abreast job i j k r l f t seen o) (sound : r.post.Sound)
    {e : Post.Event C (Option Nat)} (forward : r'.coordinator.forwards[k]? = some f)
    (task : r'.floor.task? i = some t) (hs : r.post.step e = some r'.post)
    (he : ¬e.isPostOf (some k)) :
    ∃ o', Abreast job i j k r' (l ++ Post.served (some k) j r.post e) f t seen o' := by
  obtain ⟨o', due, served⟩ := h.due.step sound hs he
  refine ⟨o', forward, h.builds, task, h.of_job, h.published, h.taken, due, ?_, h.phase.step hs he⟩
  rw [List.append_assoc, ← served, h.told]

/-- A client that hears the news is owed the next status once the forward has taken it. -/
theorem Abreast.take (h : Abreast job i j k r l f t seen o) (sound : r.post.Sound)
    {order : List Nat} {s : TaskStatus} {post : Post C (Option Nat)}
    (hs : t.published[f.taken]? = some s) (listening : f.phase = .listening)
    (hp : r.post.step (.post (some k) (news job.configuration s)
      (.subscribers Notification.buildTopic job.configuration.id.text) order) = some post)
    (hears : r.post.notifier.Hears
      (.subscribers Notification.buildTopic job.configuration.id.text) j) :
    Abreast job i j k
      { r.withCoordinator (r.coordinator.withForward k
        { f with taken := f.taken + 1, phase := .sending s }) with post }
      l { f with taken := f.taken + 1, phase := .sending s } t (seen ++ [s])
      (some (news job.configuration s)) := by
  have closed : r.post.Closed (some k) := by
    have phase := h.phase
    rwa [listening] at phase
  have told := h.told
  rw [h.due.eq_none sound closed, Option.toList_none, List.append_nil] at told
  have hk : k < r.coordinator.forwards.length := (List.getElem?_eq_some_iff.mp h.forward).1
  refine ⟨?_, h.builds, h.task, h.of_job, ?_, ?_, Post.due_post closed hp hears, ?_, ?_⟩
  · exact List.getElem?_set_self hk
  · obtain ⟨rest, hrest⟩ := h.published
    rw [← hrest, List.getElem?_append_right (Nat.le_of_eq h.taken), h.taken, Nat.sub_self] at hs
    cases rest with
    | nil => simp at hs
    | cons s' rest =>
        obtain rfl : s' = s := by simpa using hs
        exact ⟨rest, by rw [← hrest, List.append_assoc]; rfl⟩
  · rw [List.length_append, h.taken]
    rfl
  · rw [told, List.map_append]
    rfl
  · exact List.getLast?_concat ..

omit [Recipient C] in
/-- Once its message is done with, the forward listens again, or has ended after a terminal status. -/
theorem Abreast.sent (h : Abreast job i j k r l f t seen o) {s : TaskStatus}
    (sending : f.phase = .sending s) (closed : r.post.Closed (some k)) :
    Abreast job i j k
      (r.withCoordinator (r.coordinator.withForward k
        { f with phase := if s.isTerminal then .ended else .listening }))
      l { f with phase := if s.isTerminal then .ended else .listening } t seen o := by
  have last := h.phase
  rw [sending] at last
  have hlt := (List.getElem?_eq_some_iff.mp h.forward).1
  refine ⟨List.getElem?_set_self hlt, h.builds, h.task, h.of_job, h.published, h.taken, h.due, h.told, ?_⟩
  cases ends : s.isTerminal with
  | true => exact ⟨closed, s, last, ends⟩
  | false => exact closed

theorem Abreast.step (h : Abreast job i j k r l f t seen o) (sound : r.Sound)
    (hs : r.step e = some r')
    (hears : r.post.notifier.Hears
      (.subscribers Notification.buildTopic job.configuration.id.text) j) :
    ∃ f' t' seen' o', Abreast job i j k r' (l ++ handed j k r e) f' t' seen' o' := by
  have onward := (floor_step hs).1
  cases step_move hs with
  | @act a c _ ha hc =>
      have forward : c.forwards[k]? = some f := by
        obtain ⟨rest, hrest⟩ := Coordinator.forwards_step hc ha
        rw [← hrest, List.getElem?_append_left (List.getElem?_eq_some_iff.mp h.forward).1]
        exact h.forward
      obtain ⟨t', h'⟩ : ∃ t', Abreast job i j k (r.withCoordinator c) l f t' seen o :=
        h.onward forward onward rfl
      exact ⟨f, t', seen, o, by simpa [handed] using h'⟩
  | @deed d floor hd =>
      have forwards : floor.coordinator.forwards = r.coordinator.forwards :=
        congrArg (·.2.1) (Floor.standing_step hd)
      obtain ⟨t', h'⟩ : ∃ t', Abreast job i j k { r with floor } l f t' seen o :=
        h.onward ((congrArg (·[k]?) forwards).trans h.forward) onward rfl
      exact ⟨f, t', seen, o, by simpa [handed] using h'⟩
  | @forward k₁ order f₁ t₁ s post hf ht hpub listening hp =>
      by_cases hk : k₁ = k
      · subst hk
        obtain rfl : f = f₁ := Option.some.inj (h.forward.symm.trans hf)
        obtain rfl : t = t₁ := by
          rw [h.builds] at ht
          exact Option.some.inj (h.task.symm.trans ht)
        rw [h.of_job] at hp
        exact ⟨_, t, _, _, by simpa [handed] using h.take sound.post hpub listening hp hears⟩
      · -- Another forward takes the next status of its build.
        have own : ¬(Post.Event.post (some k₁) (news t₁.job.configuration s)
            (.subscribers Notification.buildTopic t₁.job.configuration.id.text)
            order : Post.Event C (Option Nat)).isPostOf (some k) :=
          fun h => hk (Option.some.inj h)
        let c := r.coordinator.withForward k₁ { f₁ with taken := f₁.taken + 1, phase := .sending s }
        let r₁ : Newsroom C := { r.withCoordinator c with post }
        have forward : r₁.coordinator.forwards[k]? = some f :=
          (List.getElem?_set_ne hk).trans h.forward
        have task : r₁.floor.task? i = some t := h.task
        obtain ⟨o', h'⟩ := h.aside sound.post forward task hp own
        exact ⟨f, t, seen, o', h'⟩
  | @forwarded k₁ f₁ s hf sending closed =>
      by_cases hk : k₁ = k
      · subst hk
        obtain rfl : f = f₁ := Option.some.inj (h.forward.symm.trans hf)
        exact ⟨_, t, seen, o, by simpa [handed] using h.sent sending closed⟩
      · let f₂ : Forward := { f₁ with phase := if s.isTerminal then .ended else .listening }
        have forward : (r.coordinator.withForward k₁ f₂).forwards[k]? = some f :=
          (List.getElem?_set_ne hk).trans h.forward
        obtain ⟨t', h'⟩ : ∃ t', Abreast job i j k
            (r.withCoordinator (r.coordinator.withForward k₁ f₂)) l f t' seen o :=
          h.onward forward onward rfl
        exact ⟨f, t', seen, o, by simpa [handed] using h'⟩
  | @mail e post own hp =>
      obtain ⟨o', h'⟩ : ∃ o', Abreast job i j k { r with post }
          (l ++ Post.served (some k) j r.post e) f t seen o' :=
        h.aside sound.post h.forward h.task hp (own k)
      exact ⟨f, t, seen, o', h'⟩

/-- A build that was taken in has a forward, which has taken nothing yet. -/
theorem abreast_submit (sound : r.Sound) {configuration : BuildConfiguration} {url : Option String}
    {now : Instant} (submitted : r.step (.act (.submit configuration url now)) = some r')
    (accepted : r.coordinator.running.contains configuration.identity = false) (j : Nat) :
    ∃ f t, Abreast ⟨configuration, now, url⟩ r.floor.workshop.tasks.length j
      r.coordinator.forwards.length r' [] f t [] none := by
  cases step_move submitted with
  | act ha hc =>
      cases Coordinator.submit_move hc with
      | refuse duplicate => simp [accepted] at duplicate
      | enroll =>
          have closed : r.post.Closed (some r.coordinator.forwards.length) := fun m x hx sender =>
            absurd (sound.senders m x _ hx sender) (Nat.lt_irrefl _)
          refine ⟨⟨r.floor.workshop.tasks.length, 0, .listening⟩,
            .new ⟨configuration, now, url⟩ now, ?_, rfl, ?_, rfl, List.prefix_rfl, rfl,
            .closed closed, rfl, closed⟩
          · exact List.getElem?_concat_length ..
          · exact List.getElem?_concat_length ..

/-- Messages that are not done with leave something to be sent. -/
theorem closed_of_stuck (stuck : ∀ e : Event C, e.isDelivery = true → r.step e = none) (k : Nat) :
    r.post.Closed (some k) := by
  have idle {e : Post.Event C (Option Nat)} (he : (Event.mail e).isDelivery = true)
      (own : ∀ k, ¬e.isPostOf (some k)) (p : Post C (Option Nat)) : r.post.step e ≠ some p := by
    intro hp
    have move := (Move.mail own hp).step
    rw [stuck _ he] at move
    simp at move
  intro m x hx _ open'
  rcases Post.exists_step hx open' with ⟨p, hp⟩ | ⟨n, hp⟩ | ⟨p, hp⟩
  · exact idle rfl (fun _ => id) p hp
  · obtain ⟨p, hp⟩ := hp true
    exact idle rfl (fun _ => id) p hp
  · exact idle rfl (fun _ => id) p hp

/-- Once nothing more can be sent, the client has been handed all that the build has published. -/
theorem Abreast.complete (h : Abreast job i j k r l f t seen o) (sound : r.Sound)
    (stuck : ∀ e : Event C, e.isDelivery = true → r.step e = none) :
    l = t.published.map (news job.configuration) := by
  have closed := closed_of_stuck stuck k
  have told := h.told
  rw [h.due.eq_none sound.post closed, Option.toList_none, List.append_nil] at told
  rw [told]
  congr 1
  have phase := h.phase
  cases hp : f.phase with
  | listening =>
      refine h.published.eq_of_length_le (Nat.not_lt.mp fun hlt => ?_)
      rw [h.taken] at hlt
      have move := (Move.forward h.forward (h.builds.symm ▸ h.task) (List.getElem?_eq_getElem hlt) hp
        (Post.Move.post (.refl _)).step).step
      rw [stuck _ rfl] at move
      simp at move
  | sending s =>
      have move := (Move.forwarded h.forward hp closed).step
      rw [stuck _ rfl] at move
      simp at move
  | ended =>
      -- Nothing is published after a terminal status.
      rw [hp] at phase
      obtain ⟨-, s, last, ends⟩ := phase
      obtain ⟨rest, hrest⟩ := h.published
      obtain ⟨init, rfl⟩ := List.getLast?_eq_some_iff.mp last
      rw [List.append_assoc] at hrest
      obtain rfl := (sound.lawful i t h.task).terminal_last hrest.symm ends
      rw [← hrest]
      rfl

/-- Take a build that a coordinator has taken in, and a client that from then on is attached, enabled
and subscribed to the news of its configuration at every moment. In any run, whoever does what with the
builds and the clients in whatever order, what the client is handed of the news of the build are the
first of the statuses that the build has published, in their order, each once; and they are all of them
once nothing is left to be sent. -/
theorem news_complete {reports : Bool} {es₀ es : List (Event C)} {r₀ r₁ : Newsroom C}
    {configuration : BuildConfiguration} {url : Option String} {now : Instant}
    (before : Run step (empty reports) es₀ r₀)
    (submitted : r₀.step (.act (.submit configuration url now)) = some r₁)
    (accepted : r₀.coordinator.running.contains configuration.identity = false)
    (run : Run step r₁ es r)
    (attentive : ∀ es' r', es' <+: es → Run step r₁ es' r' → r'.post.notifier.Hears
      (.subscribers Notification.buildTopic configuration.id.text) j) :
    ∃ t, r.floor.task? r₀.floor.workshop.tasks.length = some t ∧ t.job = ⟨configuration, now, url⟩ ∧
      notes step (handed j r₀.coordinator.forwards.length) r₁ es <+:
        t.published.map (news configuration) ∧
      ((∀ e : Event C, e.isDelivery = true → r.step e = none) →
        notes step (handed j r₀.coordinator.forwards.length) r₁ es =
          t.published.map (news configuration)) := by
  have start : Run step (empty reports) (es₀ ++ [.act (.submit configuration url now)]) r₁ :=
    .snoc before submitted
  have abreast : ∃ f t seen o, Abreast ⟨configuration, now, url⟩ r₀.floor.workshop.tasks.length j
      r₀.coordinator.forwards.length r (notes step (handed j r₀.coordinator.forwards.length) r₁ es)
      f t seen o := by
    induction run with
    | nil =>
        obtain ⟨f, t, h⟩ := abreast_submit (sound_of_run before) submitted accepted j
        exact ⟨f, t, [], none, h⟩
    | snoc run' last ih =>
        obtain ⟨f, t, seen, o, h⟩ :=
          ih fun es' r' hes => attentive es' r' (hes.trans (List.prefix_append ..))
        rw [notes_snoc _ run' last]
        exact h.step (sound_of_run (start.trans run')) last
          (attentive _ _ (List.prefix_append ..) run')
  obtain ⟨f, t, seen, o, h⟩ := abreast
  refine ⟨t, h.task, h.of_job, ?_, h.complete (sound_of_run (start.trans run))⟩
  have told := h.told
  exact (List.prefix_append _ o.toList).trans (told ▸ h.published.map _)

section Lost

open Rehearsal

def app : BuildConfiguration := ⟨⟨1⟩, "app", "git", none, "make", .empty, []⟩

/-- A client is attached that hears the news of all builds. -/
def audience : List (Event Player) :=
  [.mail (.deed (.create (.scripted
    { session := "desk", subscriptions := [("build-status", "*")] }))),
    .mail (.deed (.attach 0))]

/-- The driver fails to start the build, and a processor ends it before the first status is sent. -/
def lost (now : Instant) : List (Event Player) :=
  [.act .spawn, .act (.drive 0 now), .act (.started 0 (.error ⟨"lost"⟩)), .act (.take now ⟨30⟩),
    .forward 0 [0], .mail (.hand 0), .mail (.answer 0 0 true), .mail (.close 0), .forwarded 0,
    .forward 0 [0], .mail (.hand 1)]

theorem audience_runs : (audience.foldlM step (empty false)).isSome = true := by decide +kernel

def opened : Newsroom Player := (audience.foldlM step (empty false)).get audience_runs

theorem app_submits : (opened.step (.act (.submit app none noon))).isSome = true := by
  decide +kernel

def submitted : Newsroom Player := (opened.step (.act (.submit app none noon))).get app_submits

theorem lost_runs : ((lost noon).foldlM step submitted).isSome = true := by decide +kernel

theorem lost_heard :
    ((lost noon).inits.all fun es => ((es.foldlM step submitted).all fun r =>
      (r.post.notifier.targets
        (Audience.subscribers Notification.buildTopic app.id.text).wants).contains 0)) = true := by
  decide +kernel

theorem news_complete_lost :
    ∃ r t, Run step submitted (lost noon) r ∧ r.floor.task? 0 = some t ∧
      [news app ⟨.build, .running⟩, news app ⟨.build, .systemError⟩] <+:
        t.published.map (news app) := by
  have before : Run step (empty false) audience opened :=
    Run.iff_foldlM.mpr (Option.some_get audience_runs).symm
  have posted : opened.step (.act (.submit app none noon)) = some submitted :=
    (Option.some_get app_submits).symm
  have run := Run.iff_foldlM.mpr (Option.some_get lost_runs).symm
  have accepted : opened.coordinator.running.contains app.identity = false := by decide +kernel
  have attentive : ∀ es' r', es' <+: lost noon → Run step submitted es' r' →
      r'.post.notifier.Hears (.subscribers Notification.buildTopic app.id.text) 0 := by
    intro es' r' part run'
    have heard := Run.of_inits lost_heard part run'
    exact Notifier.mem_targets.mp (List.contains_iff_mem.mp heard)
  obtain ⟨t, ht, -, told, -⟩ := news_complete before posted accepted run attentive
  have heard : notes step (handed 0 opened.coordinator.forwards.length) submitted (lost noon) =
      [news app ⟨.build, .running⟩, news app ⟨.build, .systemError⟩] := by decide +kernel
  rw [heard] at told
  have first : opened.floor.workshop.tasks.length = 0 := by decide +kernel
  rw [first] at ht
  exact ⟨_, t, run, ht, told⟩

end Lost

end Newsroom

end Foreman
