import Foreman.Proofs.Run
import Foreman.Proofs.Wire.Commands
import Foreman.Socket.Client

/-!
What its history makes of a client on a socket. Whether it is subscribed depends on the last commands
about the pair and about every qualifier of the topic, whatever else happened; its frames are queued
and taken in order; and a send fails once it is disabled or nobody writes its frames.
-/

namespace Foreman.Socket

open Notification (anyQualifier)

/-- The topic and the qualifier that a command is about. -/
def Command.pair : Command → String × String
  | subscribe topic qualifier => (topic, qualifier)
  | unsubscribe topic qualifier => (topic, qualifier)

/-- The frame that acknowledges a command, as it is written. -/
def Command.receipt : Command → Json
  | subscribe topic qualifier => .object [
    ("type", .string "subscribed"), ("topic", .string topic), ("qualifier", .string qualifier)]
  | unsubscribe topic qualifier => .object [
    ("type", .string "unsubscribed"), ("topic", .string topic), ("qualifier", .string qualifier)]

theorem Command.ofFrame_acknowledgement (cmd : Command) :
    Wire.ofFrame cmd.acknowledgement = cmd.receipt := by
  cases cmd <;> rfl

namespace Client

/-- What is done with a client. -/
inductive Event where
  | command (cmd : Command)
  /-- Complains about a text that is no command. -/
  | complain (message : String)
  | send (n : Notification)
  | disable
  /-- Takes the oldest frame to write it. -/
  | take
  | hangUp
deriving DecidableEq

/-- Takes the oldest of the frames that wait. -/
def take? (c : Client) : Option (Frame × Client) :=
  match c.outbound with
  | some (f :: waiting) => some (f, { c with outbound := some waiting })
  | _ => none

/-- Everything is possible at any time, but a frame is taken only where one waits. -/
def step (c : Client) : Event → Option Client
  | .command cmd => some (c.handle cmd)
  | .complain message => some (c.reply (.error message))
  | .send n => some (c.send n).2
  | .disable => some c.disable
  | .take => c.take?.map (·.2)
  | .hangUp => some c.hangUp

/-- The frames that an event adds to those that wait, in the form in which they are written: one for
each command, each complaint and each send that succeeds. -/
def queues (c : Client) : Event → List Json
  | .command cmd => [cmd.receipt]
  | .complain message => [.object [("type", .string "error"), ("message", .string message)]]
  | .send n => if (c.send n).1 = .ok () then [Wire.encode n] else []
  | _ => []

/-- The frames that an event takes from those that wait. -/
def takes (c : Client) : Event → List Json
  | .take => (c.take?.map fun x => Wire.ofFrame x.1).toList
  | _ => []

/-- The message that an event sends, and whether that succeeds. -/
def outcomes (c : Client) : Event → List (Notification × Bool)
  | .send n => [(n, (c.send n).1.isOk)]
  | _ => []

variable {c c' : Client} {e : Event} {es : List Event} {session topic qualifier : String}

/-! ### What one event does -/

theorem send_open (n : Notification) (enabled : c.isEnabled = true) (written : c.outbound ≠ none) :
    c.send n = (.ok (), c.reply (.notification n)) := by
  rw [send, if_neg (by simp [enabled]), if_neg (by simpa using written)]

theorem send_closed (n : Notification) (h : c.isEnabled = false ∨ c.outbound = none) :
    c.send n = (.error (.closed c.session), c.disable) := by
  rw [send]
  split
  next disabled =>
    have same : c.disable = c := by rw [disable, ← disabled]
    rw [same]
  next enabled =>
    rw [if_pos]
    simpa using h.resolve_left enabled

theorem send_eq_ok (n : Notification) :
    (c.send n).1 = .ok () ↔ c.isEnabled = true ∧ c.outbound ≠ none := by
  by_cases h : c.isEnabled = false ∨ c.outbound = none
  · rw [send_closed n h]
    rcases h with h | h <;> simp [h]
  · obtain ⟨enabled, written⟩ := not_or.mp h
    rw [Bool.not_eq_false] at enabled
    rw [send_open n enabled written]
    exact ⟨fun _ => ⟨enabled, written⟩, fun _ => rfl⟩

/-- The steps of a client. -/
inductive Move (c : Client) : Event → Client → Prop
  | subscribe (topic qualifier : String) : Move c (.command (.subscribe topic qualifier))
      ((c.subscribe topic qualifier).reply (.subscribed topic qualifier))
  | unsubscribe (topic qualifier : String) : Move c (.command (.unsubscribe topic qualifier))
      ((c.unsubscribe topic qualifier).reply (.unsubscribed topic qualifier))
  | complain (message : String) : Move c (.complain message) (c.reply (.error message))
  | sent {n} (h : c.send n = (.ok (), c.reply (.notification n))) (written : c.outbound ≠ none) :
      Move c (.send n) (c.reply (.notification n))
  | refused {n} (h : c.send n = (.error (.closed c.session), c.disable))
      (closed : c.isEnabled = false ∨ c.outbound = none) : Move c (.send n) c.disable
  | disable : Move c .disable c.disable
  | take {f waiting} (h : c.outbound = some (f :: waiting)) :
      Move c .take { c with outbound := some waiting }
  | hangUp : Move c .hangUp c.hangUp

theorem step_move (h : c.step e = some c') : Move c e c' := by
  cases e with
  | command cmd =>
      obtain rfl := Option.some.inj h
      cases cmd with
      | subscribe topic qualifier => exact .subscribe topic qualifier
      | unsubscribe topic qualifier => exact .unsubscribe topic qualifier
  | complain message =>
      obtain rfl := Option.some.inj h
      exact .complain message
  | send n =>
      obtain rfl := Option.some.inj h
      by_cases closed : c.isEnabled = false ∨ c.outbound = none
      · rw [send_closed n closed]
        exact .refused (send_closed n closed) closed
      · obtain ⟨enabled, written⟩ := not_or.mp closed
        rw [Bool.not_eq_false] at enabled
        rw [send_open n enabled written]
        exact .sent (send_open n enabled written) written
  | disable =>
      obtain rfl := Option.some.inj h
      exact .disable
  | take =>
      obtain ⟨x, hx, rfl⟩ := Option.map_eq_some_iff.mp h
      unfold take? at hx
      split at hx
      next f waiting hw =>
        obtain rfl := Option.some.inj hx
        exact .take hw
      next => simp at hx
  | hangUp =>
      obtain rfl := Option.some.inj h
      exact .hangUp

theorem mem_subscribe {p : String × String} :
    p ∈ (c.subscribe topic qualifier).subscriptions ↔ p = (topic, qualifier) ∨ p ∈ c.subscriptions := by
  unfold subscribe
  split
  next h =>
    constructor
    · exact .inr
    · rintro (rfl | hp)
      · exact h
      · exact hp
  next => simp [or_comm]

theorem mem_unsubscribe {p : String × String} :
    p ∈ (c.unsubscribe topic qualifier).subscriptions ↔
      p ∈ c.subscriptions ∧ p ≠ (topic, qualifier) := by
  simp [unsubscribe]

theorem outbound_subscribe : (c.subscribe topic qualifier).outbound = c.outbound := by
  unfold subscribe
  split <;> rfl

theorem isEnabled_subscribe : (c.subscribe topic qualifier).isEnabled = c.isEnabled := by
  unfold subscribe
  split <;> rfl

theorem session_subscribe : (c.subscribe topic qualifier).session = c.session := by
  unfold subscribe
  split <;> rfl

theorem mem_subscriptions_step (h : c.step e = some c') :
    (topic, qualifier) ∈ c'.subscriptions ↔ e = .command (.subscribe topic qualifier) ∨
      (topic, qualifier) ∈ c.subscriptions ∧ e ≠ .command (.unsubscribe topic qualifier) := by
  cases step_move h with
  | subscribe t q =>
      refine mem_subscribe.trans ?_
      simp [eq_comm]
  | unsubscribe t q =>
      refine mem_unsubscribe.trans ?_
      simp [eq_comm]
  | complain | sent | refused | disable | take | hangUp => simp [reply, disable, hangUp]

theorem session_step (h : c.step e = some c') : c'.session = c.session := by
  cases step_move h with
  | subscribe t q => exact session_subscribe
  | unsubscribe | complain | sent | refused | disable | take | hangUp => rfl

theorem outbound_step (h : c.step e = some c') :
    c'.outbound = none ↔ c.outbound = none ∨ e = .hangUp := by
  cases step_move h with
  | subscribe | unsubscribe | complain | sent | refused | disable | hangUp =>
      simp [reply, outbound_subscribe, unsubscribe, disable, hangUp]
  | take hw => simp [hw]

/-- A client is disabled by being told so and by a send after nobody writes its frames any more. -/
theorem isEnabled_step (h : c.step e = some c') :
    c'.isEnabled = false ↔ c.isEnabled = false ∨ e = .disable ∨
      c.outbound = none ∧ ∃ n, e = .send n := by
  cases step_move h with
  | subscribe | unsubscribe | complain | take | hangUp | disable =>
      simp [reply, isEnabled_subscribe, unsubscribe, disable, hangUp]
  | sent h written => simp [reply, written]
  | refused h closed => simpa [disable] using closed

/-- What an event takes from the frames that wait, and then those that still wait, are those that waited
before and then what it adds to them. -/
theorem queue_step (h : c.step e = some c') (open' : e ≠ .hangUp) {waiting : List Frame}
    (hw : c.outbound = some waiting) :
    ∃ waiting', c'.outbound = some waiting' ∧
      c.takes e ++ waiting'.map Wire.ofFrame = waiting.map Wire.ofFrame ++ c.queues e := by
  cases step_move h with
  | subscribe t q =>
      exact ⟨waiting ++ [.subscribed t q], by simp [reply, outbound_subscribe, hw],
        by simp [takes, queues, Command.receipt, Wire.ofFrame]⟩
  | unsubscribe t q =>
      exact ⟨waiting ++ [.unsubscribed t q], by simp [reply, unsubscribe, hw],
        by simp [takes, queues, Command.receipt, Wire.ofFrame]⟩
  | complain message =>
      exact ⟨waiting ++ [.error message], by simp [reply, hw], by simp [takes, queues, Wire.ofFrame]⟩
  | @sent n hs _ =>
      exact ⟨waiting ++ [.notification n], by simp [reply, hw],
        by simp [takes, queues, hs, Wire.ofFrame]⟩
  | refused hs _ => exact ⟨waiting, hw, by simp [takes, queues, hs]⟩
  | disable => exact ⟨waiting, hw, by simp [takes, queues]⟩
  | take hf =>
      obtain rfl := Option.some.inj (hf.symm.trans hw)
      exact ⟨_, rfl, by simp [takes, queues, take?, hf]⟩
  | hangUp => exact absurd rfl open'

/-- To take all frames that wait is to take one after the other. -/
theorem flush_run {waiting : List Frame} (hw : c.outbound = some waiting) :
    Run step c (.replicate waiting.length .take) c.flush.2 ∧
      notes step takes c (.replicate waiting.length .take) = c.flush.1.map Wire.ofFrame := by
  induction waiting generalizing c with
  | nil =>
      have same : c.flush.2 = c := by
        obtain ⟨session, isEnabled, subscriptions, outbound⟩ := c
        obtain rfl : outbound = some [] := hw
        rfl
      rw [same]
      exact ⟨.nil, by simp [flush, hw, notes]⟩
  | cons f waiting ih =>
      have first : c.step .take = some { c with outbound := some waiting } := by simp [step, take?, hw]
      obtain ⟨run, taken⟩ := ih (c := { c with outbound := some waiting }) rfl
      refine ⟨(Run.nil.snoc first).trans ?_, ?_⟩
      · simpa [flush, hw] using run
      · have oldest : c.takes .take = [Wire.ofFrame f] := by simp [takes, take?, hw]
        rw [List.length_cons, List.replicate_succ, notes, first]
        simp only [oldest, taken]
        simp [flush, hw]

/-! ### What a history makes of a client -/

/-- The last command about the pair is to subscribe. -/
def Stands (es : List Event) (topic qualifier : String) : Prop :=
  ∃ before after, es = before ++ .command (.subscribe topic qualifier) :: after ∧
    .command (.unsubscribe topic qualifier) ∉ after

theorem not_stands_nil : ¬Stands [] topic qualifier := by
  rintro ⟨before, after, heq, -⟩
  simp at heq

theorem stands_concat : Stands (es ++ [e]) topic qualifier ↔
    e = .command (.subscribe topic qualifier) ∨
      Stands es topic qualifier ∧ e ≠ .command (.unsubscribe topic qualifier) := by
  constructor
  · rintro ⟨before, after, heq, last⟩
    cases after using List.reverseRecOn with
    | nil => exact .inl (List.singleton_inj.mp (List.append_inj' heq rfl).2)
    | append_singleton after e' =>
        rw [← List.cons_append, ← List.append_assoc] at heq
        obtain ⟨rfl, he⟩ := List.append_inj' heq rfl
        obtain rfl := List.singleton_inj.mp he
        rw [List.mem_append, List.mem_singleton, not_or] at last
        exact .inr ⟨⟨before, after, rfl, last.1⟩, Ne.symm last.2⟩
  · rintro (rfl | ⟨⟨before, after, rfl, last⟩, he⟩)
    · exact ⟨es, [], rfl, List.not_mem_nil⟩
    · exact ⟨before, after ++ [e], by simp, by simp [last, Ne.symm he]⟩

/-- Whether an event is a command about the pair or about every qualifier of the topic. -/
def Event.concerns (topic qualifier : String) : Event → Bool
  | .command cmd => cmd.pair = (topic, qualifier) ∨ cmd.pair = (topic, anyQualifier)
  | _ => false

theorem stands_filter {keep : Event → Bool} (hs : keep (.command (.subscribe topic qualifier)) = true)
    (hu : keep (.command (.unsubscribe topic qualifier)) = true) :
    Stands (es.filter keep) topic qualifier ↔ Stands es topic qualifier := by
  induction es using List.reverseRecOn with
  | nil => rfl
  | append_singleton es e ih =>
      rw [List.filter_append, stands_concat]
      by_cases he : keep e = true
      · rw [List.filter_singleton, he, cond_true, stands_concat, ih]
      · have ne_subscribe : e ≠ .command (.subscribe topic qualifier) := fun h => he (h ▸ hs)
        have ne_unsubscribe : e ≠ .command (.unsubscribe topic qualifier) := fun h => he (h ▸ hu)
        simp [he, ih, ne_subscribe, ne_unsubscribe]

theorem session_run (run : Run step c es c') : c'.session = c.session :=
  run.invariant (I := fun c' => c'.session = c.session) rfl fun _ _ _ same h =>
    (session_step h).trans same

theorem mem_subscriptions (run : Run step (.connect session) es c) :
    (topic, qualifier) ∈ c.subscriptions ↔ Stands es topic qualifier := by
  induction run with
  | nil => simp [connect, not_stands_nil]
  | snoc _ last ih => rw [mem_subscriptions_step last, ih, stands_concat]

theorem outbound_eq_none (run : Run step (.connect session) es c) :
    c.outbound = none ↔ .hangUp ∈ es := by
  induction run with
  | nil => simp [connect]
  | snoc _ last ih => rw [outbound_step last, ih, List.mem_append, List.mem_singleton, eq_comm]

theorem isEnabled_of_run (run : Run step (.connect session) es c) :
    (.disable ∈ es → c.isEnabled = false) ∧ (c.isEnabled = false → .disable ∈ es ∨ .hangUp ∈ es) := by
  induction run with
  | nil => simp [connect]
  | @snoc es c c' e before last ih =>
      rw [isEnabled_step last, outbound_eq_none before]
      simp only [List.mem_append, List.mem_singleton]
      constructor
      · rintro (h | rfl)
        · exact .inl (ih.1 h)
        · exact .inr (.inl rfl)
      · rintro (h | rfl | ⟨h, -⟩)
        · exact (ih.2 h).imp .inl .inl
        · exact .inl (.inr rfl)
        · exact .inr (.inl h)

theorem queue_run (run : Run step (.connect session) es c) (open' : .hangUp ∉ es) :
    ∃ waiting, c.outbound = some waiting ∧
      notes step takes (.connect session) es ++ waiting.map Wire.ofFrame =
        notes step queues (.connect session) es := by
  induction run with
  | nil => exact ⟨[], rfl, rfl⟩
  | @snoc es c c' e before last ih =>
      rw [List.mem_append, List.mem_singleton, not_or] at open'
      obtain ⟨waiting, hw, queued⟩ := ih open'.1
      obtain ⟨waiting', hw', added⟩ := queue_step last (Ne.symm open'.2) hw
      refine ⟨waiting', hw', ?_⟩
      rw [notes_snoc _ before last, notes_snoc _ before last, List.append_assoc, added,
        ← List.append_assoc, queued]

/-- A send succeeds unless the client was disabled or nobody writes its frames any more. -/
theorem send_of_run (run : Run step (.connect session) es c) (n : Notification) :
    (c.send n).1 = if .disable ∈ es ∨ .hangUp ∈ es then .error (.closed session) else .ok () := by
  have enabled := isEnabled_of_run run
  have written := outbound_eq_none run
  split
  next h =>
    rw [send_closed n (h.imp enabled.1 written.mpr), session_run run]
    rfl
  next h =>
    have open' : c.isEnabled = true := by
      rw [← Bool.not_eq_false]
      exact fun hc => h (enabled.2 hc)
    rw [send_open n open' fun hc => h (.inr (written.mp hc))]

theorem isEnabled_run (disabled : c.isEnabled = false) (run : Run step c es c') :
    c'.isEnabled = false :=
  run.invariant (I := fun c => c.isEnabled = false) disabled fun _ _ _ h last =>
    (isEnabled_step last).mpr (.inl h)

/-! ### What becomes of messages -/

theorem outcomes_open (run : Run step (.connect session) es c) (enabled : .disable ∉ es)
    (written : .hangUp ∉ es) : ∀ o ∈ notes step outcomes (.connect session) es, o.2 = true := by
  induction run with
  | nil => simp [notes]
  | @snoc es c c' e before last ih =>
      simp only [List.mem_append, List.mem_singleton, not_or] at enabled written
      rw [notes_snoc _ before last]
      intro o ho
      rcases List.mem_append.mp ho with ho | ho
      · exact ih enabled.1 written.1 o ho
      · cases e with
        | send n =>
            have sent : (c.send n).1 = .ok () :=
              (send_of_run before n).trans (if_neg (not_or.mpr ⟨enabled.1, written.1⟩))
            obtain rfl := List.mem_singleton.mp ho
            rw [sent]
            rfl
        | command | complain | disable | take | hangUp => cases ho

theorem outcomes_closed (disabled : c.isEnabled = false) (run : Run step c es c') :
    ∀ o ∈ notes step outcomes c es, o.2 = false := by
  induction run with
  | nil => simp [notes]
  | @snoc es c' c'' e before last ih =>
      rw [notes_snoc _ before last]
      intro o ho
      rcases List.mem_append.mp ho with ho | ho
      · exact ih o ho
      · cases e with
        | send n =>
            obtain rfl := List.mem_singleton.mp ho
            rw [send_closed n (.inl (isEnabled_run disabled before))]
            rfl
        | command | complain | disable | take | hangUp => cases ho

/-- Only a send that fails disables a client that is not told to be disabled. -/
theorem exists_refused (run : Run step (.connect session) es c) (disabled : c.isEnabled = false)
    (enabled : .disable ∉ es) : ∃ o ∈ notes step outcomes (.connect session) es, o.2 = false := by
  induction run with
  | nil => cases disabled
  | @snoc es c c' e before last ih =>
      simp only [List.mem_append, List.mem_singleton, not_or] at enabled
      rw [notes_snoc _ before last]
      rcases (isEnabled_step last).mp disabled with h | h | ⟨h, n, rfl⟩
      · obtain ⟨o, ho, refused⟩ := ih h enabled.1
        exact ⟨o, List.mem_append_left _ ho, refused⟩
      · exact absurd h.symm enabled.2
      · refine ⟨_, List.mem_append_right _ List.mem_cons_self, ?_⟩
        rw [send_closed n (.inr h)]
        rfl

/-! ### The law of clients -/

theorem isSubscribed_run (run : Run step (.connect session) es c) (topic qualifier : String) :
    c.isSubscribed topic qualifier = true ↔
      Stands es topic qualifier ∨ Stands es topic anyQualifier := by
  rw [isSubscribed, decide_eq_true_iff, mem_subscriptions run, mem_subscriptions run]

theorem isSubscribed_congr {session' : String} {es' : List Event}
    (run : Run step (.connect session) es c) (run' : Run step (.connect session') es' c')
    (same : es.filter (Event.concerns topic qualifier) = es'.filter (Event.concerns topic qualifier)) :
    c.isSubscribed topic qualifier = c'.isSubscribed topic qualifier := by
  have kept (q : String) (hq : q = qualifier ∨ q = anyQualifier) (es : List Event) :
      Stands (es.filter (Event.concerns topic qualifier)) topic q ↔ Stands es topic q := by
    apply stands_filter <;> simpa [Event.concerns, Command.pair] using hq
  rw [Bool.eq_iff_iff, isSubscribed_run run, isSubscribed_run run', ← kept qualifier (.inl rfl),
    ← kept anyQualifier (.inr rfl), same, kept qualifier (.inl rfl), kept anyQualifier (.inr rfl)]

/-- What a client is after its history. -/
structure MadeBy (session : String) (es : List Event) (c : Client) : Prop where
  subscribed : ∀ topic qualifier, c.isSubscribed topic qualifier = true ↔
    Stands es topic qualifier ∨ Stands es topic anyQualifier
  /-- Commands about other pairs do not count, nor does anything else. -/
  independent : ∀ session' es' c', Run step (.connect session') es' c' → ∀ topic qualifier,
    es.filter (Event.concerns topic qualifier) = es'.filter (Event.concerns topic qualifier) →
      c.isSubscribed topic qualifier = c'.isSubscribed topic qualifier
  /-- The frames that were taken and then those that wait are those that were queued. -/
  queued : .hangUp ∉ es → ∃ waiting, c.outbound = some waiting ∧
    notes step takes (.connect session) es ++ waiting.map Wire.ofFrame =
      notes step queues (.connect session) es
  closed : ∀ n, (c.send n).1 = .error (.closed session) ↔ .disable ∈ es ∨ .hangUp ∈ es
  sent : ∀ n, (c.send n).1 = .ok () ↔ .disable ∉ es ∧ .hangUp ∉ es
  /-- After a send that fails all do, but commands are still carried out. -/
  forGood : ∀ n es' c', (c.send n).1 ≠ .ok () → Run step (c.send n).2 es' c' →
    c'.isEnabled = false ∧ (∀ n', (c'.send n').1 = .error (.closed session)) ∧
      ∀ topic qualifier, c'.isSubscribed topic qualifier = true ↔
        Stands (es ++ .send n :: es') topic qualifier ∨
          Stands (es ++ .send n :: es') topic anyQualifier

theorem madeBy_of_run (run : Run step (.connect session) es c) : MadeBy session es c where
  subscribed := isSubscribed_run run
  independent _ _ _ run' _ _ := isSubscribed_congr run run'
  queued := queue_run run
  closed n := by
    rw [send_of_run run n]
    split
    next h => exact ⟨fun _ => h, fun _ => rfl⟩
    next h => exact ⟨nofun, fun hc => absurd hc h⟩
  sent n := by
    rw [send_of_run run n, ← not_or]
    split
    next h => exact ⟨nofun, fun hn => absurd h hn⟩
    next h => exact ⟨fun _ => h, fun _ => rfl⟩
  forGood n es' c' h after := by
    have whole : Run step (.connect session) (es ++ .send n :: es') c' := by
      rw [List.append_cons]
      exact (run.snoc rfl).trans after
    have closed : c.isEnabled = false ∨ c.outbound = none := by
      rwa [Ne, send_eq_ok, not_and_or, Bool.not_eq_true, not_not] at h
    have disabled : (c.send n).2.isEnabled = false := by
      rw [send_closed n closed]
      rfl
    have shut : .disable ∈ es ∨ .hangUp ∈ es := by
      rcases closed with hc | hc
      · exact (isEnabled_of_run run).2 hc
      · exact .inr ((outbound_eq_none run).mp hc)
    have still : .disable ∈ es ++ .send n :: es' ∨ .hangUp ∈ es ++ .send n :: es' :=
      shut.imp (List.mem_append_left _) (List.mem_append_left _)
    exact ⟨isEnabled_run disabled after, fun n' => (send_of_run whole n').trans (if_pos still),
      isSubscribed_run whole⟩

/-- Every history makes of a client what it should; and a command is the same whether it names every
qualifier or none, as an object and as an array. -/
theorem made_by_history (run : Run step (.connect session) es c) :
    MadeBy session es c ∧
    (∀ fields, "qualifier" ∉ fields.map Prod.fst →
      Wire.command (.object (fields ++ [Wire.everyQualifier])) = Wire.command (.object fields)) ∧
    ∀ kind topic, Wire.command (.array [.string kind, topic, Wire.everyQualifier.2]) =
      Wire.command (.array [.string kind, topic]) :=
  ⟨madeBy_of_run run, fun _ => Wire.command_object, Wire.command_array⟩

/-- A client that subscribes in general and in particular, and takes back the former; a message for it
is queued before nobody writes its frames any more, and one is refused afterwards. -/
def sample : List Event := [
  .command (.subscribe "build-status" "*"), .command (.subscribe "build-status" "a"),
  .send (.message "hello"), .take, .command (.unsubscribe "build-status" "*"), .hangUp,
  .send (.message "again"), .command (.subscribe "build-status" "b")]

theorem sample_runs : (sample.foldlM step (.connect "desk")).isSome = true := by decide +kernel

theorem made_by_history_sample : ∃ c, Run step (.connect "desk") sample c ∧
    c.isSubscribed "build-status" "a" = true ∧ c.isSubscribed "build-status" "b" = true ∧
    ∀ n, (c.send n).1 = .error (.closed "desk") := by
  have run : Run step (.connect "desk") sample ((sample.foldlM step (.connect "desk")).get sample_runs) :=
    Run.iff_foldlM.mpr (Option.some_get sample_runs).symm
  obtain ⟨made, -⟩ := made_by_history run
  refine ⟨_, run, (made.subscribed _ _).mpr (.inl ?_), (made.subscribed _ _).mpr (.inl ?_), fun n => ?_⟩
  · exact ⟨[.command (.subscribe "build-status" "*")], _, rfl, by decide⟩
  · exact ⟨sample.dropLast, [], rfl, by decide⟩
  · exact (made.closed n).mpr (.inr (by decide))

end Client

end Foreman.Socket
