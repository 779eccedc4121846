import Foreman.Proofs.Notifier.Isolation
import Foreman.Proofs.Socket.Client
import Foreman.Socket.Session

/-!
The sessions of clients on sockets, step by step. A session deals with what comes in one after the
other. Once it has read that its socket closes or fails, it disables its client, detaches it, and stops
the writing of its frames. Meanwhile frames are written, messages go to the clients, and clients are
cleaned up or detached, in any order.
-/

namespace Foreman.Socket

instance : Carrier Client where
  ofClient := id
  onClient f := f

/-- How far a session has come. -/
inductive Stage where
  | reading
  /-- Nothing is read any more, and the client is disabled. -/
  | closing
  | detached
  /-- Nobody writes the frames of the client any more. -/
  | finished
deriving DecidableEq

/-- The stage after a step of a session that ends. -/
def Stage.next : Stage → Stage
  | .closing => .detached
  | .detached => .finished
  | s => s

structure Visit where
  name : String
  stage : Stage

/-- The session whose client has the number `k`. -/
def Visit.session (v : Visit) (k : Nat) : Session := ⟨v.name, k, v.stage ≠ .reading⟩

/-- The frame that answers a text. -/
def answer (s objection : String) : Frame :=
  match Command.ofText? s with
  | some cmd => cmd.acknowledgement
  | none => .error (Command.complaint objection)

/-- What a text is for a client. -/
def Client.Event.ofText (s objection : String) : Client.Event :=
  match Command.ofText? s with
  | some cmd => .command cmd
  | none => .complain (Command.complaint objection)

section

variable (c : Client) (s objection : String)

theorem Client.step_ofText : c.step (.ofText s objection) = some (c.receive s objection) := by
  rw [Client.Event.ofText, Client.receive]
  split <;> simp [Client.step, *]

theorem Client.queues_ofText :
    c.queues (.ofText s objection) = [Wire.ofFrame (answer s objection)] := by
  rw [Client.Event.ofText, answer]
  split
  · simp [Client.queues, Command.ofFrame_acknowledgement]
  · rfl

theorem Client.takes_ofText : c.takes (.ofText s objection) = [] := by
  rw [Client.Event.ofText]
  split <;> rfl

theorem Client.outcomes_ofText : c.outcomes (.ofText s objection) = [] := by
  rw [Client.Event.ofText]
  split <;> rfl

end

/-- A notifier with messages on their way, and the sessions of its clients, in the order of their
numbers. -/
structure Lobby where
  post : Post Client Unit
  visits : List Visit

namespace Lobby

def empty : Lobby := ⟨.empty, []⟩

def notifier (l : Lobby) : Notifier Client := l.post.notifier

def client? (l : Lobby) (k : Nat) : Option Client := l.notifier.client? k

def stage? (l : Lobby) (k : Nat) : Option Stage := (l.visits[k]?).map (·.stage)

def withNotifier (l : Lobby) (n : Notifier Client) : Lobby :=
  { l with post := { l.post with notifier := n } }

def change (l : Lobby) (k : Nat) (f : Client → Client) : Lobby :=
  l.withNotifier (l.notifier.change k f)

def withStage (l : Lobby) (k : Nat) (s : Stage) : Lobby :=
  { l with visits := l.visits.modify k fun v => { v with stage := s } }

def withMailing (l : Lobby) (m : Nat) (x : Mailing Unit) : Lobby :=
  { l with post := l.post.withMailing m x }

inductive Event where
  | connect (name : String)
  /-- Something comes in for a session. -/
  | incoming (k : Nat) (m : Incoming)
  /-- A session that ends takes its next step. -/
  | leave (k : Nat)
  /-- The oldest frame of a client is written. -/
  | take (k : Nat)
  /-- The frames of a client cannot be written any more. -/
  | breakOff (k : Nat)
  /-- Posts a message to those that hear it, in some order. -/
  | post (n : Notification) (a : Audience) (order : List Nat)
  /-- Hands the message to the next client. -/
  | hand (m : Nat)
  /-- Evicts the clients that failed to get the message. -/
  | close (m : Nat)
  | cleanUp
  | detach (name : String)

/-- Hands the message `x` to the client `i`, which answers at once. -/
def handTo (l : Lobby) (m : Nat) (x : Mailing Unit) (i : Nat) (waiting : List Nat) (c : Client) :
    Lobby :=
  let (r, c') := c.send x.message
  (l.change i fun _ => c').withMailing m { x with waiting, handed := x.handed ++ [(i, some r.isOk)] }

/-- One event, if it is possible. Sessions have different names. -/
def step (l : Lobby) : Event → Option Lobby
  | .connect name =>
    if name ∈ l.visits.map (·.name) then none
    else some { l.withNotifier (Session.start name l.notifier).2 with
      visits := l.visits ++ [⟨name, .reading⟩] }
  | .incoming k m => do
    let v ← l.visits[k]?
    match v.stage, m with
    | .reading, .close | .reading, .failure => some ((l.change k Client.disable).withStage k .closing)
    | _, _ => some (l.withNotifier ((v.session k).receive m l.notifier).2)
  | .leave k => do
    let v ← l.visits[k]?
    match v.stage with
    | .closing => some ((l.withNotifier (l.notifier.detach v.name)).withStage k .detached)
    | .detached => some ((l.change k Client.hangUp).withStage k .finished)
    | _ => none
  | .take k => do
    let c ← l.client? k
    let (_, c') ← c.take?
    some (l.change k fun _ => c')
  | .breakOff k => do
    let _ ← l.client? k
    some (l.change k Client.hangUp)
  | .post n a order => do
    let post ← l.post.step (.post () n a order)
    some { l with post }
  | .hand m => do
    let x ← l.post.mailings[m]?
    match x.waiting with
    | i :: waiting => do
      let c ← l.client? i
      some (l.handTo m x i waiting c)
    | [] => none
  | .close m => do
    let post ← l.post.step (.close m)
    some { l with post }
  | .cleanUp => some (l.withNotifier l.notifier.cleanUp)
  | .detach name => some (l.withNotifier (l.notifier.detach name))

/-- The steps of a lobby. -/
inductive Move (l : Lobby) : Event → Lobby → Prop
  | connect {name} (new : name ∉ l.visits.map (·.name)) : Move l (.connect name)
      { l.withNotifier ⟨l.notifier.clients ++ [.connect name],
          l.notifier.attached.insert name l.notifier.clients.length⟩ with
        visits := l.visits ++ [⟨name, .reading⟩] }
  | text {k v t objection} (hv : l.visits[k]? = some v) (reading : v.stage = .reading) :
      Move l (.incoming k (.text t objection)) (l.change k fun c => c.receive t objection)
  | skip {k v m} (hv : l.visits[k]? = some v) (h : m = .other ∨ v.stage ≠ .reading) :
      Move l (.incoming k m) l
  | shut {k v m} (hv : l.visits[k]? = some v) (reading : v.stage = .reading)
      (hm : m = .close ∨ m = .failure) :
      Move l (.incoming k m) ((l.change k Client.disable).withStage k .closing)
  | depart {k v} (hv : l.visits[k]? = some v) (closing : v.stage = .closing) :
      Move l (.leave k) ((l.withNotifier (l.notifier.detach v.name)).withStage k .detached)
  | hangUp {k v} (hv : l.visits[k]? = some v) (detached : v.stage = .detached) :
      Move l (.leave k) ((l.change k Client.hangUp).withStage k .finished)
  | take {k c c'} (hc : l.client? k = some c) (h : c.step .take = some c') :
      Move l (.take k) (l.change k fun _ => c')
  | breakOff {k c} (hc : l.client? k = some c) : Move l (.breakOff k) (l.change k Client.hangUp)
  | post {n a order} (perm : order.Perm (l.notifier.targets a.wants)) :
      Move l (.post n a order)
        { l with post := { l.post with mailings := l.post.mailings ++ [⟨(), n, order, [], none⟩] } }
  | hand {m x i waiting c} (hx : l.post.mailings[m]? = some x) (hw : x.waiting = i :: waiting)
      (hc : l.client? i = some c) : Move l (.hand m) (l.handTo m x i waiting c)
  | close {m x} (hx : l.post.mailings[m]? = some x) (answered : x.isAnswered = true)
      (open' : x.delivery = none) :
      Move l (.close m) ((l.withNotifier (x.failed.foldl Notifier.evict l.notifier)).withMailing m
        { x with delivery := some x.count })
  | cleanUp : Move l .cleanUp (l.withNotifier l.notifier.cleanUp)
  | detach (name : String) : Move l (.detach name) (l.withNotifier (l.notifier.detach name))

variable {l l' : Lobby} {e : Event} {es : List Event} {k : Nat} {c c' : Client} {v : Visit}
  {name : String}

theorem step_move (h : l.step e = some l') : Move l e l' := by
  cases e with
  | connect name =>
      simp only [step] at h
      split at h
      next => cases h
      next new =>
        obtain rfl := Option.some.inj h
        have start : (Session.start name l.notifier).2 = ⟨l.notifier.clients ++ [.connect name],
            l.notifier.attached.insert name l.notifier.clients.length⟩ := by
          simp [Session.start, Notifier.create, Notifier.attach, Notifier.client?, Carrier.ofClient,
            Recipient.session, Client.connect]
        rw [start]
        exact .connect new
  | incoming k m =>
      obtain ⟨v, hv, h⟩ := Option.bind_eq_some_iff.mp h
      by_cases reading : v.stage = .reading
      · cases m with
        | text t objection =>
            have receive : ((v.session k).receive (.text t objection) l.notifier).2 =
                l.notifier.change k fun c => c.receive t objection := by
              simp [Session.receive, Visit.session, reading, Carrier.onClient]
            simp only [reading, receive] at h
            obtain rfl := Option.some.inj h
            exact .text hv reading
        | other =>
            have receive : ((v.session k).receive .other l.notifier).2 = l.notifier := by
              simp [Session.receive]
            simp only [reading, receive] at h
            obtain rfl := Option.some.inj h
            exact .skip hv (.inl rfl)
        | close =>
            simp only [reading] at h
            obtain rfl := Option.some.inj h
            exact .shut hv reading (.inl rfl)
        | failure =>
            simp only [reading] at h
            obtain rfl := Option.some.inj h
            exact .shut hv reading (.inr rfl)
      · have receive : ((v.session k).receive m l.notifier).2 = l.notifier := by
          simp [Session.receive, Visit.session, reading]
        split at h
        next hs _ => exact absurd hs reading
        next hs _ => exact absurd hs reading
        next =>
          rw [receive] at h
          obtain rfl := Option.some.inj h
          exact .skip hv (.inr reading)
  | leave k =>
      obtain ⟨v, hv, h⟩ := Option.bind_eq_some_iff.mp h
      split at h
      next closing =>
        obtain rfl := Option.some.inj h
        exact .depart hv closing
      next detached =>
        obtain rfl := Option.some.inj h
        exact .hangUp hv detached
      next => cases h
  | take k =>
      obtain ⟨c, hc, h⟩ := Option.bind_eq_some_iff.mp h
      obtain ⟨⟨f, c'⟩, ht, h⟩ := Option.bind_eq_some_iff.mp h
      obtain rfl := Option.some.inj h
      exact .take hc (by simp [Client.step, ht])
  | breakOff k =>
      obtain ⟨c, hc, h⟩ := Option.bind_eq_some_iff.mp h
      obtain rfl := Option.some.inj h
      exact .breakOff hc
  | post n a order =>
      obtain ⟨post, hp, h⟩ := Option.bind_eq_some_iff.mp h
      obtain rfl := Option.some.inj h
      cases Post.step_move hp with
      | post perm => exact .post perm
  | hand m =>
      obtain ⟨x, hx, h⟩ := Option.bind_eq_some_iff.mp h
      split at h
      next i waiting hw =>
        obtain ⟨c, hc, h⟩ := Option.bind_eq_some_iff.mp h
        obtain rfl := Option.some.inj h
        exact .hand hx hw hc
      next => cases h
  | close m =>
      obtain ⟨post, hp, h⟩ := Option.bind_eq_some_iff.mp h
      obtain rfl := Option.some.inj h
      cases Post.step_move hp with
      | close hx answered open' => exact .close hx answered open'
  | cleanUp =>
      obtain rfl := Option.some.inj h
      exact .cleanUp
  | detach name =>
      obtain rfl := Option.some.inj h
      exact .detach name

theorem client?_change (l : Lobby) (i : Nat) (f : Client → Client) (k : Nat) :
    (l.change i f).client? k = if i = k then (l.client? k).map f else l.client? k := by
  show (l.notifier.clients.modify i f)[k]? = _
  rw [List.getElem?_modify]
  split <;> cases h : l.notifier.clients[k]? <;> simp [client?, Notifier.client?, h]

theorem visits_withStage (l : Lobby) (i : Nat) (s : Stage) (k : Nat) :
    (l.withStage i s).visits[k]? =
      (l.visits[k]?).map fun v => if i = k then { v with stage := s } else v := by
  rw [withStage, List.getElem?_modify]
  rfl

/-! ### The notifier and the messages of a lobby -/

theorem step_change {f : Client → Client} (hc : l.client? k = some c)
    (same : (f c).session = c.session) :
    l.notifier.step (.change k f) = some (l.notifier.change k f) := by
  have hc : l.notifier.client? k = some c := hc
  simp [Notifier.step, Notifier.Deed.isPossible, Notifier.Deed.apply, hc, Recipient.session, same]

/-- What is done in a lobby takes its course in the post office: what is known of messages there holds
here. -/
theorem post_step (h : l.step e = some l') : ∃ ps, Run Post.step l.post ps l'.post := by
  have deeds {n : Notifier Client} (ds : List (Notifier.Deed Client))
      (run : Run Notifier.step l.notifier ds n) :
      Run Post.step l.post (ds.map .deed) { l.post with notifier := n } := Post.deeds_run run
  have changed {f : Client → Client} (hf : ∀ c, (f c).session = c.session) (k : Nat) :
      Run Post.step l.post [.deed (.change k f)] (l.change k f).post :=
    deeds [.change k f] (Run.nil.snoc (Notifier.step_change _ _ hf))
  cases step_move h with
  | @connect name new =>
      refine ⟨_, deeds [.create (.connect name), .attach l.notifier.clients.length] ?_⟩
      refine (Run.nil.snoc rfl).snoc ?_
      simp [Notifier.step, Notifier.Deed.isPossible, Notifier.Deed.apply, Notifier.create,
        Notifier.attach, Notifier.client?, Recipient.session, Client.connect]
  | text => exact ⟨_, changed (fun c => Client.session_step (c.step_ofText ..)) _⟩
  | skip => exact ⟨[], .nil⟩
  | shut => exact ⟨_, changed (f := Client.disable) (fun _ => rfl) _⟩
  | depart => exact ⟨_, deeds _ (Run.nil.snoc (e := .detach _) rfl)⟩
  | hangUp | breakOff => exact ⟨_, changed (f := Client.hangUp) (fun _ => rfl) _⟩
  | take hc ht =>
      exact ⟨_, deeds _ (Run.nil.snoc (step_change (f := fun _ => _) hc (Client.session_step ht)))⟩
  | post perm => exact ⟨[.post () _ _ _], .snoc .nil (Post.Move.post perm).step⟩
  | @hand m x i waiting c hx hw hc =>
      have sent : c.step (.send x.message) = some (c.send x.message).2 := rfl
      have last : l.notifier.step (.change i fun _ => (c.send x.message).2) = _ :=
        step_change hc (Client.session_step sent)
      let x' : Mailing Unit := { x with waiting, handed := x.handed ++ [(i, none)] }
      let p : Post Client Unit := { l.post.withMailing m x' with
        notifier := l.notifier.change i fun _ => (c.send x.message).2 }
      have hand : Run Post.step l.post [.hand m] (l.post.withMailing m x') :=
        .snoc .nil (Post.Move.hand hx hw).step
      have acted : Run Post.step l.post [.hand m, .deed (.change i fun _ => (c.send x.message).2)] p :=
        hand.snoc (Post.Move.deed (p := l.post.withMailing m x') last).step
      have hx' : p.mailings[m]? = some x' := (Post.getElem?_withMailing _ hx _ _).trans (if_pos rfl)
      have hk : x'.handed[x.handed.length]? = some (i, none) := by simp [x']
      refine ⟨_, acted.snoc (e := .answer m x.handed.length (c.send x.message).1.isOk) ?_⟩
      refine (Post.Move.answer hx' hk).step.trans ?_
      simp [p, x', handTo, withMailing, Post.withMailing, change, withNotifier]
  | close hx answered open' => exact ⟨[.close _], .snoc .nil (Post.Move.close hx answered open').step⟩
  | cleanUp => exact ⟨_, deeds _ (Run.nil.snoc (e := .cleanUp) rfl)⟩
  | detach name => exact ⟨_, deeds _ (Run.nil.snoc (e := .detach name) rfl)⟩

theorem post_run (run : Run step l es l') : ∃ ps, Run Post.step l.post ps l'.post := by
  induction run with
  | nil => exact ⟨[], .nil⟩
  | snoc _ last ih =>
      obtain ⟨ps, before⟩ := ih
      obtain ⟨ps', after⟩ := post_step last
      exact ⟨_, before.trans after⟩

/-! ### Sessions and messages without interruption -/

/-- A session that ends without interruption ends as it should. -/
theorem finish_run {m : Incoming} (hv : l.visits[k]? = some v) (reading : v.stage = .reading)
    (hm : m = .close ∨ m = .failure) :
    ∃ l', Run step l [.incoming k m, .leave k, .leave k] l' ∧
      (({ v with stage := .finished } : Visit).session k, l'.notifier) =
        (v.session k).receive m l.notifier ∧
      l'.visits[k]? = some { v with stage := .finished } ∧ l'.post.mailings = l.post.mailings := by
  let l₁ := (l.change k Client.disable).withStage k .closing
  let l₂ := (l₁.withNotifier (l₁.notifier.detach v.name)).withStage k .detached
  let l₃ := (l₂.change k Client.hangUp).withStage k .finished
  have hv₁ : l₁.visits[k]? = some { v with stage := .closing } := by
    simp [l₁, visits_withStage, change, withNotifier, hv]
  have hv₂ : l₂.visits[k]? = some { v with stage := .detached } := by
    simp [l₂, visits_withStage, withNotifier, hv₁]
  have first : l.step (.incoming k m) = some l₁ := by
    rcases hm with rfl | rfl <;> simp [step, hv, reading, l₁]
  have second : l₁.step (.leave k) = some l₂ := by simp [step, hv₁, l₂]
  have third : l₂.step (.leave k) = some l₃ := by simp [step, hv₂, l₃]
  refine ⟨l₃, ((Run.nil.snoc first).snoc second).snoc third, ?_, ?_, rfl⟩
  · rcases hm with rfl | rfl <;> simp [Session.receive, Session.finish, Visit.session, reading] <;> rfl
  · simp [l₃, visits_withStage, change, withNotifier, hv₂]

/-- Sends a message to the client `i`. -/
def send (n : Notification) : Notifier.Send Client := fun i notifier =>
  match notifier.client? i with
  | some c => ((c.send n).1, notifier.change i fun _ => (c.send n).2)
  | none => (.ok (), notifier)

theorem hand_run {m : Nat} {x : Mailing Unit} (hx : l.post.mailings[m]? = some x)
    (there : ∀ i ∈ x.waiting, ∃ c, l.client? i = some c) :
    ∃ l' r, Run step l (.replicate x.waiting.length (.hand m)) l' ∧ l'.visits = l.visits ∧
      l'.notifier = (Notifier.sendEach (send x.message) x.waiting l.notifier).2 ∧
      l'.post.mailings[m]? = some { x with waiting := [], handed := x.handed ++ r } ∧
      (∀ y ∈ r, y.2.isSome = true) ∧
      (r.filter (·.2 = some false)).map (·.1) =
        (Notifier.sendEach (send x.message) x.waiting l.notifier).1 := by
  generalize hw : x.waiting = waiting at there
  induction waiting generalizing l x with
  | nil => exact ⟨l, [], .nil, rfl, rfl, by simp [← hw, hx], by simp, rfl⟩
  | cons i waiting ih =>
      obtain ⟨c, hc⟩ := there i List.mem_cons_self
      let ok := (c.send x.message).1.isOk
      let x' : Mailing Unit := { x with waiting, handed := x.handed ++ [(i, some ok)] }
      let l₁ := l.handTo m x i waiting c
      have first : l.step (.hand m) = some l₁ := by simp [step, hx, hw, hc, l₁]
      have hx' : l₁.post.mailings[m]? = some x' :=
        (Post.getElem?_withMailing _ hx m _).trans (if_pos rfl)
      have sent : send x.message i l.notifier = ((c.send x.message).1, l₁.notifier) := by
        have hc : l.notifier.client? i = some c := hc
        rw [send, hc]
        rfl
      obtain ⟨l', r, rest, visits, notifier, mailing, answered, failed⟩ := ih hx' rfl fun j hj => by
        obtain ⟨c', hc'⟩ := there j (List.mem_cons_of_mem _ hj)
        have hj : l₁.client? j = if i = j then (l.client? j).map _ else l.client? j :=
          client?_change l i _ j
        rw [hj, hc']
        split <;> simp
      refine ⟨l', (i, some ok) :: r, (Run.nil.snoc first).trans rest, visits.trans rfl, ?_, ?_, ?_, ?_⟩
      · rw [Post.sendEach_cons, sent]
        exact notifier
      · simpa [x'] using mailing
      · simpa using answered
      · rw [Post.sendEach_cons, sent]
        have failed : (r.filter (·.2 = some false)).map (·.1) =
            (Notifier.sendEach (send x.message) waiting l₁.notifier).1 := failed
        cases hok : (c.send x.message).1.isOk <;> simp [ok, hok, failed]

/-- A message that is sent without interruption goes to the clients in turn, and then those that failed
are evicted. -/
theorem deliver_run (l : Lobby) (n : Notification) (a : Audience) :
    ∃ l', Run step l (.post n a (l.notifier.targets a.wants) ::
        .replicate (l.notifier.targets a.wants).length (.hand l.post.mailings.length) ++
          [.close l.post.mailings.length]) l' ∧ l'.visits = l.visits ∧
      l'.notifier = (Notifier.deliver (send n) (l.notifier.targets a.wants) l.notifier).2 := by
  let x : Mailing Unit := ⟨(), n, l.notifier.targets a.wants, [], none⟩
  let l₁ : Lobby := { l with post := { l.post with mailings := l.post.mailings ++ [x] } }
  have posted : Post.step l.post (.post () n a (l.notifier.targets a.wants)) = some l₁.post :=
    (Post.Move.post (.refl _)).step
  have first : l.step (.post n a (l.notifier.targets a.wants)) = some l₁ := by
    simp [step, posted, l₁]
  have hx : l₁.post.mailings[l.post.mailings.length]? = some x := by simp [l₁]
  obtain ⟨l₂, r, hands, visits, notifier, mailing, answered, failed⟩ := hand_run hx fun i hi => by
    obtain ⟨_, c, -, hc, -⟩ := Notifier.mem_targets.mp hi
    exact ⟨c, hc⟩
  rw [List.nil_append] at mailing
  let x₂ : Mailing Unit := ⟨(), n, [], r, none⟩
  have done : x₂.isAnswered = true := by simpa [Mailing.isAnswered, x₂] using answered
  let l₃ : Lobby := { l₂ with post := { l₂.post.withMailing l.post.mailings.length
    { x₂ with delivery := some x₂.count } with
      notifier := x₂.failed.foldl Notifier.evict l₂.notifier } }
  have closed : l₂.post.step (.close l.post.mailings.length) = some l₃.post :=
    (Post.Move.close mailing done rfl).step
  have last : l₂.step (.close l.post.mailings.length) = some l₃ := by simp [step, closed, l₃]
  refine ⟨l₃, ((Run.nil.snoc first).trans hands).snoc last, visits, ?_⟩
  have failed : x₂.failed =
      (Notifier.sendEach (send n) (l.notifier.targets a.wants) l.notifier).1 := failed
  show x₂.failed.foldl Notifier.evict l₂.notifier = _
  rw [failed, notifier]
  rfl

end Lobby

end Foreman.Socket
