import Foreman.Proofs.Identity
import Foreman.Proofs.Json.Octets
import Foreman.Proofs.Release.Attendance
import Foreman.Proofs.Service.Requests
import Foreman.Rehearsal.Player
import Mathlib.Data.List.TakeWhile

/-!
The addresses at which the engine reports on attempts. The service puts an address together from
its own public URL, the path of the callback route and the id of the attempt, and takes it apart
again when the engine posts to it. So a report comes to the listeners of its attempt and to no
others.
-/

namespace Foreman

open Http Release

/-! ### Paths -/

namespace Text

/-- Letters, digits, dashes and underscores mean nothing but themselves in a path. -/
def isPathPlain (c : Char) : Bool := c.isAlphanum || c = '-' || c = '_'

theorem isPathPlain_hexDigit (n : Nat) : isPathPlain (hexDigit n) = true := by
  have h : ∀ m : Fin 16, isPathPlain (hexDigit m) = true := by decide
  have hm := h ⟨n % 16, Nat.mod_lt _ (by decide)⟩
  simpa [hexDigit] using hm

theorem all_isPathPlain_hexPadded (width n : Nat) :
    (hexPadded width n).all isPathPlain = true := by
  induction width generalizing n with
  | zero => rfl
  | succ w ih => simp [hexPadded, ih, isPathPlain_hexDigit]

theorem not_mem_of_isPathPlain {cs : List Char} (h : cs.all isPathPlain = true) {c : Char}
    (hc : isPathPlain c = false) : c ∉ cs := by
  intro hmem
  simp [List.all_eq_true.mp h c hmem] at hc

theorem percentDecode?_of_isPathPlain {s : String} (h : s.toList.all isPathPlain = true) :
    percentDecode? s = some s := by
  have plain := not_mem_of_isPathPlain h (c := '%') (by decide)
  rw [percentDecode?, if_neg (by simpa using plain)]

theorem dropTrailing_concat {c d : Char} (h : d ≠ c) (cs : List Char) :
    dropTrailing c (cs ++ [d]) = cs ++ [d] := by
  simp [dropTrailing, h]

/-- A text that does not end with a slash loses none. -/
theorem trimSlashes_append {s : String} {cs : List Char} {d : Char} (hs : s.toList = cs ++ [d])
    (h : d ≠ '/') (t : String) : trimSlashes (t ++ s) = t ++ s := by
  rw [trimSlashes, String.toList_append, hs, ← List.append_assoc, dropTrailing_concat h,
    List.append_assoc, ← hs, ← String.toList_append, String.ofList_toList]

end Text

theorem ResourceId.all_group {p : Char → Bool} {ds : List Char} (h : ds.all p = true)
    (dash : p '-' = true) : (group ds).all p = true := by
  rw [List.all_eq_true] at h ⊢
  intro c hc
  simp only [group, List.append_assoc, List.cons_append, List.mem_append, List.mem_cons] at hc
  rcases hc with hc | rfl | hc | rfl | hc | rfl | hc | rfl | hc
  · exact h c (List.mem_of_mem_take hc)
  · exact dash
  · exact h c (List.mem_of_mem_drop (List.mem_of_mem_take hc))
  · exact dash
  · exact h c (List.mem_of_mem_drop (List.mem_of_mem_take hc))
  · exact dash
  · exact h c (List.mem_of_mem_drop (List.mem_of_mem_take hc))
  · exact dash
  · exact h c (List.mem_of_mem_drop hc)

theorem ResourceId.isPathPlain_text (id : ResourceId) :
    id.text.toList.all Text.isPathPlain = true := by
  rw [text, String.toList_ofList]
  exact all_group (Text.all_isPathPlain_hexPadded 32 id.bits.toNat) (by decide)

theorem EventType.isPathPlain_text (e : EventType) :
    e.text.toList.all Text.isPathPlain = true := by
  cases e <;> decide

namespace Http.Route

/-- The path at which the engine reports on a process. -/
def callbackPathOf (id : ResourceId) : String := callbackPath ++ "/" ++ id.text

theorem segments_callback {id event : String} (hid : id.toList.all Text.isPathPlain = true)
    (hevent : event.toList.all Text.isPathPlain = true) :
    (segments (callbackPath ++ "/" ++ id ++ "/" ++ event).toList).map String.ofList =
      ["", "api", "v1", "workflow", "callback", id, event] := by
  have slash : Text.isPathPlain '/' = false := by decide
  have path : (callbackPath ++ "/" ++ id ++ "/" ++ event).toList =
      ['/'].intercalate [[], "api".toList, "v1".toList, "workflow".toList, "callback".toList,
        id.toList, event.toList] := by
    simp [callbackPath, List.intercalate, List.intersperse]
  rw [path, segments, List.splitOn_intercalate]
  · simp
  · intro part hpart
    simp only [List.mem_cons, List.not_mem_nil, or_false] at hpart
    rcases hpart with rfl | rfl | rfl | rfl | rfl | rfl | rfl
    · simp
    · decide
    · decide
    · decide
    · decide
    · exact Text.not_mem_of_isPathPlain hid slash
    · exact Text.not_mem_of_isPathPlain hevent slash
  · simp

theorem pathOf_callback (id : ResourceId) (e : EventType) :
    pathOf (callbackPathOf id ++ "/" ++ e.text) = (callbackPathOf id ++ "/" ++ e.text).toList := by
  have plain (s : String) (h : s.toList.all Text.isPathPlain = true) :
      s.toList.all (fun c => decide (c ≠ '?' ∧ c ≠ '#')) = true := by
    rw [List.all_eq_true] at h ⊢
    intro c hc
    refine decide_eq_true ⟨?_, ?_⟩ <;> rintro rfl <;> exact absurd (h _ hc) (by decide)
  have whole : (callbackPathOf id ++ "/" ++ e.text).toList.all
      (fun c => decide (c ≠ '?' ∧ c ≠ '#')) = true := by
    simp only [callbackPathOf, String.toList_append, List.all_append,
      plain _ id.isPathPlain_text, plain _ e.isPathPlain_text]
    decide
  rw [pathOf, List.takeWhile_eq_self_iff.mpr (List.all_eq_true.mp whole)]
  exact if_pos (by simp [callbackPathOf, callbackPath])

/-- The service takes the path of a report apart into the parts that it was put together from. -/
theorem ofPath?_callback (id : ResourceId) (e : EventType) :
    ofPath? (pathOf (callbackPathOf id ++ "/" ++ e.text)) = some (.callback id.text e.text) := by
  have named : e.text ≠ "" := by cases e <;> decide
  rw [pathOf_callback, ofPath?, callbackPathOf,
    segments_callback id.isPathPlain_text e.isPathPlain_text]
  exact if_neg named

theorem decode?_callback (id : ResourceId) (e : EventType) :
    (callback id.text e.text).decode? = some (.callback id.text e.text) := by
  simp [decode?, Text.percentDecode?_of_isPathPlain, id.isPathPlain_text, e.isPathPlain_text]

end Http.Route

/-- A post of JSON to the target: the body is one value, no longer and no deeper than the service
takes it. -/
structure Http.Request.Posts (q : Request) (target : String) (v : Json) : Prop where
  method_eq : q.method = "POST"
  target_eq : q.target = target
  announced : q.isJson = true
  short : q.body.size ≤ bodyLimit
  reads : Json.readOctets q.body = (v, true)
  sound : v.isSound 127 = true

/-- A post below the path of the callbacks is an event with its payload, if the body is read. -/
theorem Http.Command.ofRequest_report {q : Request} {id : ResourceId} {e : EventType}
    (method : q.method = "POST") (target : q.target = Route.callbackPathOf id ++ "/" ++ e.text) :
    ofRequest q = (readBody q (Json.Decoder.any 127)).map (.deliver (.ofResource id) e.text) := by
  have post : Method.ofText "POST" = .post := by decide
  rw [ofRequest, target, method, Route.ofPath?_callback, post]
  simp only [Route.decode?_callback, allows, ofRoute, if_true, decide_true]
  cases readBody q (Json.Decoder.any 127) <;> rfl

theorem Http.Request.Posts.ofRequest {q : Request} {id : ResourceId} {e : EventType} {v : Json}
    (h : q.Posts (Route.callbackPathOf id ++ "/" ++ e.text) v) :
    Command.ofRequest q = .ok (.deliver (.ofResource id) e.text v.settled) := by
  have body : readBody q (Json.Decoder.any 127) = .ok v.settled := by
    simp [readBody, h.announced, Nat.not_lt.mpr h.short, h.reads, Json.Decoder.any, h.sound]
  rw [Command.ofRequest_report h.method_eq h.target_eq, body]
  rfl

theorem Http.readBody_of_deep {q : Request} (announced : q.isJson = true)
    (short : q.body.size ≤ bodyLimit)
    (deep : (Json.readOctets q.body).1.isSound 127 = false) :
    readBody q (Json.Decoder.any 127) = .error (.bare 400) := by
  simp [readBody, announced, Nat.not_lt.mpr short, Json.Decoder.any, deep]

/-- A body that is not posted as the service takes it is turned down. -/
theorem Http.Request.readBody_of_not_posts {q : Request} {target : String}
    (method : q.method = "POST") (target_eq : q.target = target)
    (bad : ∀ v, ¬q.Posts target v) :
    ∃ status ∈ [400, 413, 415], readBody q (Json.Decoder.any 127) = .error (.bare status) := by
  by_cases announced : q.isJson = true
  · by_cases short : q.body.size ≤ bodyLimit
    · refine ⟨400, by simp, ?_⟩
      cases sound : (Json.readOctets q.body).1.isSound 127 with
      | false => exact readBody_of_deep announced short sound
      | true =>
          cases whole : (Json.readOctets q.body).2 with
          | false =>
              simp [readBody, announced, Nat.not_lt.mpr short, Json.Decoder.any, sound, whole]
          | true =>
              exact absurd ⟨method, target_eq, announced, short, Prod.ext rfl whole, sound⟩ (bad _)
    · exact ⟨413, by simp, by simp [readBody, announced, Nat.lt_of_not_le short]⟩
  · exact ⟨415, by simp, by simp [readBody, announced]⟩

/-! ### The addresses that the engine is told -/

/-- Where the request says that the process shall be reported on. -/
def ProcessRequest.callbackUrl? (r : ProcessRequest) : Option String :=
  match r.payload.field? "callbackUrl" with
  | some (.string url) => some url
  | _ => none

namespace ReleaseDesk

variable {d b d' : ReleaseDesk} {k : Nat} {e : Event} {es : List Event}

theorem callbackUrl?_request (d : ReleaseDesk) (m : Milestone) (token : String)
    (a : ReleaseAttempt) :
    (d.request m token a).callbackUrl? = d.callbackUrl (.ofResource a.id) := by
  cases h : d.callbackUrl (.ofResource a.id) <;>
    simp [ProcessRequest.callbackUrl?, request, payload, Json.field?, Wire.ofOption, h]

theorem callbackBase_step (h : d.step e = some d') : d'.callbackBase = d.callbackBase := by
  rcases step_cases h with ⟨k, s, b, p, -, step, rfl⟩ | ⟨k, r, b, p, -, step, rfl⟩ | step
  · show b.callbackBase = d.callbackBase
    cases step <;> rfl
  · show b.callbackBase = d.callbackBase
    have turned (now after) : (d.turn r now after).1.callbackBase = d.callbackBase := by
      cases after <;> rfl
    cases step with
    | miss | closeFails | announced => exact turned ..
    | saveRecord | saveMilestone | saveVersion => split <;> rfl
    | lost | describe | fail | passage | find | close | findRecord | missRecord | findVersion
    | passVersion => rfl
  · cases step <;> rfl

/-- What a request that the engine is asked with says of where its process belongs. -/
def Addressed (d : ReleaseDesk) : Prop :=
  ∀ (k : Nat) s a call r, d.starts[k]? = some s → s.phase = .asking a call r →
    r.callbackUrl? = d.callbackUrl (.ofResource a.id)

theorem StartStep.request_eq {s : Start} {p : StartPhase} (h : StartStep d k s e b p)
    {a : ReleaseAttempt} {call : Nat} {r : ProcessRequest} (hp : p = .asking a call r) :
    ∃ m token, r = d.request m token a := by
  cases h with
  | enroll =>
      obtain ⟨rfl, -, rfl⟩ := StartPhase.asking.inj hp
      exact ⟨_, _, rfl⟩
  | lookupFails | unknown | beaten | mark | checkFails | occupied | proceed | saveFails | closeFails
  | close | accept | refuse | announced | dropIdle | dropChecking | dropUnsaved | dropSaved
  | dropOpen | dropClosed => simp at hp

theorem Addressed.step (hd : d.Addressed) (h : d.step e = some d') : d'.Addressed := by
  intro j s' a call r hs' hp
  have base : d'.callbackUrl (.ofResource a.id) = d.callbackUrl (.ofResource a.id) := by
    rw [callbackUrl, callbackBase_step h]
    rfl
  rw [base]
  rcases step_cases h with ⟨k, s, b, p, hs, step, rfl⟩ | ⟨k, r, b, p, -, step, rfl⟩ | step
  · rcases step.starts_cases hs hs' with ⟨-, rfl⟩ | ⟨-, hs'⟩
    · obtain ⟨m, token, rfl⟩ := step.request_eq hp
      exact callbackUrl?_request ..
    · exact hd _ _ _ _ _ hs' hp
  · exact hd _ _ _ _ _ (step.frame.1 ▸ hs') hp
  · rcases step.start_cases hs' with hs' | fresh
    · exact hd _ _ _ _ _ hs' hp
    · simp [hp] at fresh

theorem addressed_of_run {process : String} {callbackBase : Option String}
    (run : Run ReleaseDesk.step (.empty process callbackBase) es d) : d.Addressed := by
  have empty : (ReleaseDesk.empty process callbackBase).Addressed := by
    intro k s a call r hs
    simp [ReleaseDesk.empty] at hs
  exact run.invariant (I := Addressed) empty fun _ _ _ ih step => Addressed.step ih step

theorem callbackBase_of_run {process : String} {callbackBase : Option String}
    (run : Run ReleaseDesk.step (.empty process callbackBase) es d) :
    d.callbackBase = callbackBase.map Text.trimSlashes :=
  run.invariant (I := fun d => d.callbackBase = callbackBase.map Text.trimSlashes) rfl
    fun _ _ _ ih step => (callbackBase_step step).trans ih

/-- The engine has been asked to run the process of the attempt, at some point of the events. -/
def Asked (d : ReleaseDesk) (es : List Event) (a : ReleaseAttempt) (r : ProcessRequest) : Prop :=
  ∃ es' t, es' <+: es ∧ Run ReleaseDesk.step d es' t ∧
    ∃ (k : Nat) (s : Start) (call : Nat), t.starts[k]? = some s ∧ s.phase = .asking a call r

theorem Asked.callbackUrl?_eq {process : String} {callbackBase : Option String}
    {a : ReleaseAttempt} {r : ProcessRequest} (h : (empty process callbackBase).Asked es a r) :
    r.callbackUrl? = callbackBase.map fun base => Text.trimSlashes base ++ "/" ++ a.id.text := by
  obtain ⟨es', t, -, run, k, s, call, hs, hp⟩ := h
  rw [addressed_of_run run _ _ _ _ _ hs hp, callbackUrl, callbackBase_of_run run, Option.map_map]
  rfl

/-! ### Whose listeners there are -/

/-- Every listener belongs to the attempt under whose id it is registered. -/
def Homely (d : ReleaseDesk) : Prop :=
  ∀ id t g, d.correlator.registration? id t = some g →
    ∃ m x, id = .ofResource x ∧ (t, g.listener) ∈ listeners m x

/-- Only guests bring along listeners of their own. -/
theorem OtherStep.registration_of (h : OtherStep d e d') (own : e.guest? = none)
    {id : CorrelationId} {t : EventType} {g : Registration Listener}
    (hg : d'.correlator.registration? id t = some g) :
    d.correlator.registration? id t = some g := by
  cases h with
  | unrecorded | result | failure => exact (Correlator.registration?_of_consume hg).1
  | abandon => exact Correlator.registration?_of_abandon hg
  | register | withdraw => simp [Event.guest?] at own
  | beginStart | unmatched | edit => exact hg

theorem Homely.step (hd : d.Homely) (own : e.guest? = none) (h : d.step e = some d') :
    d'.Homely := by
  intro id t g hg
  rcases step_cases h with ⟨k, s, b, p, -, step, rfl⟩ | ⟨k, r, b, p, -, step, rfl⟩ | step
  · rcases step.registration_cases hg with hg | ⟨m, a, -, -, hid, hl⟩
    · exact hd _ _ _ hg
    · exact ⟨m.id, a.id, hid, hl⟩
  · exact hd _ _ _ (step.registration_of hg)
  · exact hd _ _ _ (step.registration_of own hg)

theorem homely_of_run {process : String} {callbackBase : Option String}
    (run : Run ReleaseDesk.step (.empty process callbackBase) es d)
    (alone : ∀ e ∈ es, e.guest? = none) : d.Homely := by
  induction run with
  | nil =>
      intro id t g hg
      simp [ReleaseDesk.empty, Correlator.empty, Correlator.registration?] at hg
  | @snoc es t u e _ last ih =>
      have before : t.Homely := ih fun e he => alone e (List.mem_append_left _ he)
      exact before.step (alone e (List.mem_append_right _ List.mem_cons_self)) last

theorem Homely.listener_cases (hd : d.Homely) {x : ResourceId} {t : EventType}
    {g : Registration Listener} (hg : d.correlator.registration? (.ofResource x) t = some g) :
    (∃ m, t = .importSuccess ∧ g.listener = .result m x) ∨
      ∃ m, t = .importError ∧ g.listener = .failure m x := by
  obtain ⟨m, y, hid, hl⟩ := hd _ _ _ hg
  obtain rfl := CorrelationId.ofResource_injective hid
  simp only [listeners, List.mem_cons, Prod.mk.injEq, List.not_mem_nil, or_false] at hl
  rcases hl with ⟨ht, hl⟩ | ⟨ht, hl⟩
  · exact .inl ⟨m, ht, hl⟩
  · exact .inr ⟨m, ht, hl⟩

end ReleaseDesk

/-! ### What becomes of a report -/

namespace Service

variable {C : Type}

/-- The listener `l`, which belongs to the attempt `x`, is called: what becomes of the request, and
the desk afterwards. The listener is gone also when it makes nothing of the payload. -/
inductive Calls (d : ReleaseDesk) (x : ResourceId) (l : Listener) (payload : Json) :
    EventType → Progress → ReleaseDesk → Prop
  | result {m r} (own : l = .result m x)
      (reads : (Wire.decode payload : Except Json.Fault ReleaseResult) = .ok r) :
      Calls d x l payload .importSuccess (.delivering (.recording d.recordings.length))
        ((d.consume (.ofResource x) .importSuccess).beginRecording (.ofResource x) m x (.result r))
  | unreadable {m f} (own : l = .result m x)
      (reads : (Wire.decode payload : Except Json.Fault ReleaseResult) = .error f) :
      Calls d x l payload .importSuccess (.done (deliveryResponse true))
        (d.consume (.ofResource x) .importSuccess)
  | failure {m} (own : l = .failure m x) :
      Calls d x l payload .importError (.delivering (.recording d.recordings.length))
        ((d.consume (.ofResource x) .importError).beginRecording (.ofResource x) m x
          (.failure payload))

/-- The path, with the name of an event after it, leads back to the attempt `x`. -/
structure LeadsBack (s : Service C) (path : String) (x : ResourceId) : Prop where
  resolves : ∀ e : EventType, (Route.ofPath? (Route.pathOf (path ++ "/" ++ e.text))).bind
    Route.decode? = some (.callback (CorrelationId.ofResource x).text e.text)
  reaches : ∀ {now q v} {e : EventType} {g}, q.Posts (path ++ "/" ++ e.text) v →
    s.desk.correlator.registration? (.ofResource x) e = some g →
    ∃ p desk, s.receive now q = (p, { s with desk }) ∧
      Calls s.desk x g.listener v.settled e p desk
  misses : ∀ {now q v} {e : EventType}, q.Posts (path ++ "/" ++ e.text) v →
    s.desk.correlator.registration? (.ofResource x) e = none →
    s.receive now q = (.done (deliveryResponse false), s)
  refuses : ∀ {now q} {e : EventType}, q.method = "POST" → q.target = path ++ "/" ++ e.text →
    (∀ v, ¬q.Posts (path ++ "/" ++ e.text) v) →
    ∃ status ∈ [400, 413, 415], s.receive now q = (.done (.bare status), s)

/-- What is posted below the path does not touch the listeners of the attempt `y`. -/
def Spares (s : Service C) (path : String) (y : ResourceId) : Prop :=
  ∀ now q v (e : EventType), q.Posts (path ++ "/" ++ e.text) v → ∀ t,
    (s.receive now q).2.desk.correlator.registration? (.ofResource y) t =
      s.desk.correlator.registration? (.ofResource y) t

variable {s : Service C} {now : Instant} {q : Request} {x : ResourceId} {e : EventType} {v : Json}

theorem dispatchNamed_text (d : ReleaseDesk) (id : CorrelationId) (e : EventType) (v : Json) :
    d.dispatchNamed id e.text v = d.dispatch id e v := by
  simp [ReleaseDesk.dispatchNamed, EventType.read, EventType.ofText?_text]

theorem receive_posts (h : q.Posts (Route.callbackPathOf x ++ "/" ++ e.text) v) :
    s.receive now q = s.perform now (.deliver (.ofResource x) e.text v.settled) := by
  rw [receive, h.ofRequest]

theorem leadsBack (homely : s.desk.Homely) (x : ResourceId) :
    s.LeadsBack (Route.callbackPathOf x) x where
  resolves e := by
    rw [Route.ofPath?_callback, Option.bind_some, Route.decode?_callback]
    rfl
  reaches {now q v e g} h hg := by
    rw [receive_posts h, perform, dispatchNamed_text, ReleaseDesk.dispatch, hg]
    rcases homely.listener_cases hg with ⟨m, rfl, hl⟩ | ⟨m, rfl, hl⟩
    · cases reads : (Wire.decode v.settled : Except Json.Fault ReleaseResult) with
      | ok r =>
          simp only [hl]
          exact ⟨_, _, rfl, .result rfl reads⟩
      | error f =>
          simp only [hl]
          exact ⟨_, _, rfl, .unreadable rfl reads⟩
    · simp only [hl]
      exact ⟨_, _, rfl, .failure rfl⟩
  misses {now q v e} h hg := by
    rw [receive_posts h, perform, dispatchNamed_text, ReleaseDesk.dispatch, hg]
  refuses {now q e} method target bad := by
    obtain ⟨status, listed, body⟩ := Request.readBody_of_not_posts method target bad
    refine ⟨status, listed, ?_⟩
    rw [receive, Command.ofRequest_report method target, body]
    rfl

/-- A report on one attempt leaves the listeners of all others alone. -/
theorem spares {x y : ResourceId} (other : x ≠ y) (s : Service C) :
    s.Spares (Route.callbackPathOf x) y := by
  intro now q v e h t
  have apart : CorrelationId.ofResource x ≠ .ofResource y := fun h =>
    other (CorrelationId.ofResource_injective h)
  rw [receive_posts h]
  exact (ReleaseDesk.step_dispatch (d := s.desk)
    (e := .dispatch (.ofResource x) e.text v.settled) rfl rfl).2.2 _ (by
      simpa [ReleaseDesk.Event.correlation?] using apart) t

/-- The engine is told the public URL without its slashes at the end, and the attempt's path. -/
theorem callbackUrl?_of_asked {settings : Config.Settings} {hasDriver : Bool} {url : String}
    {es : List ReleaseDesk.Event} {a : ReleaseAttempt} {r : ProcessRequest}
    (reachable : settings.server.publicUrl = some url)
    (asked : (ofSettings settings hasDriver : Service C).desk.Asked es a r) :
    r.callbackUrl? = some (Text.trimSlashes url ++ Route.callbackPathOf a.id) := by
  have ends : Route.callbackPath.toList = "/api/v1/workflow/callbac".toList ++ ['k'] := by decide
  rw [ReleaseDesk.Asked.callbackUrl?_eq asked, reachable, Option.map_some, Option.map_some,
    Text.trimSlashes_append ends (by decide)]
  simp [Route.callbackPathOf, String.append_assoc]

/-- The address that the engine is told for an attempt is the public URL of the service, without its
slashes at the end, and a path that leads back to this attempt, with every event and whatever is
posted. The addresses of two attempts differ, and a report on the one leaves the listeners of the
other alone. -/
theorem callbacks_lead_back {settings : Config.Settings} {hasDriver : Bool} {url : String}
    {es : List ReleaseDesk.Event} {a b : ReleaseAttempt} {r r' : ProcessRequest}
    (run : Run ReleaseDesk.step (ofSettings settings hasDriver : Service C).desk es s.desk)
    (alone : ∀ e ∈ es, e.guest? = none) (reachable : settings.server.publicUrl = some url)
    (ha : (ofSettings settings hasDriver : Service C).desk.Asked es a r)
    (hb : (ofSettings settings hasDriver : Service C).desk.Asked es b r') :
    ∃ path path', r.callbackUrl? = some (Text.trimSlashes url ++ path) ∧
      r'.callbackUrl? = some (Text.trimSlashes url ++ path') ∧
      s.LeadsBack path a.id ∧ s.LeadsBack path' b.id ∧
      (a.id ≠ b.id → s.Spares path b.id ∧ s.Spares path' a.id ∧
        ∀ e e' : EventType, path ++ "/" ++ e.text ≠ path' ++ "/" ++ e'.text) := by
  have homely := ReleaseDesk.homely_of_run run alone
  have back (x : ReleaseAttempt) := leadsBack homely x.id
  refine ⟨_, _, callbackUrl?_of_asked reachable ha, callbackUrl?_of_asked reachable hb, back a,
    back b, fun other => ⟨spares other s, spares other.symm s, fun e e' same => ?_⟩⟩
  have here := (back a).resolves e
  rw [same, (back b).resolves e', Option.some.injEq] at here
  exact other (ResourceId.text_injective (Route.callback.inj here).1.symm)

/-! ### A server with two attempts -/

open Rehearsal

def publicSettings : Config.Settings :=
  { server := { publicUrl := some "https://builds.example.com//" } }

def opened : ReleaseDesk := (ofSettings publicSettings false : Service Player).desk

theorem releasing_runs :
    ((ReleaseDesk.releasing noon).foldlM ReleaseDesk.step opened).isSome = true := by
  decide +kernel

/-- The engine has been asked to run the processes of both attempts. -/
def releasing : Service Player where
  desk := ((ReleaseDesk.releasing noon).foldlM ReleaseDesk.step opened).get releasing_runs
  coordinator := none
  notifier := .empty

def asking : ReleaseDesk :=
  (((ReleaseDesk.releasing noon).take 9).foldlM ReleaseDesk.step opened).get (by decide +kernel)

theorem asked_asking {k call : Nat} {s : Start} {a : ReleaseAttempt} {r : ProcessRequest}
    (hs : asking.starts[k]? = some s) (hp : s.phase = .asking a call r) :
    opened.Asked (ReleaseDesk.releasing noon) a r :=
  ⟨_, asking, List.take_prefix 9 _, Run.iff_foldlM.mpr (Option.some_get _).symm, k, s, call, hs, hp⟩

/-- The slashes at the end of the public URL are left out. -/
theorem callbacks_lead_back_releasing :
    ∃ r r', opened.Asked (ReleaseDesk.releasing noon) (ReleaseDesk.firstAttempt ⟨20⟩ ⟨7⟩ noon) r ∧
      opened.Asked (ReleaseDesk.releasing noon) (ReleaseDesk.firstAttempt ⟨21⟩ ⟨8⟩ noon) r' ∧
      r.callbackUrl? ≠ r'.callbackUrl? ∧
      ∃ path, r.callbackUrl? = some (Text.trimSlashes "https://builds.example.com//" ++ path) ∧
        releasing.LeadsBack path ⟨20⟩ := by
  have run : Run ReleaseDesk.step opened (ReleaseDesk.releasing noon) releasing.desk :=
    Run.iff_foldlM.mpr (Option.some_get releasing_runs).symm
  have alone : ∀ e ∈ ReleaseDesk.releasing noon, e.guest? = none := by
    simp [ReleaseDesk.releasing, ReleaseDesk.Event.guest?]
  have first : opened.Asked (ReleaseDesk.releasing noon) _ _ := asked_asking (k := 0) rfl rfl
  have second : opened.Asked (ReleaseDesk.releasing noon) _ _ := asked_asking (k := 1) rfl rfl
  obtain ⟨path, path', hr, hr', back, -, apart⟩ :=
    callbacks_lead_back run alone rfl first second
  refine ⟨_, _, first, second, fun same => ?_, path, hr, back⟩
  rw [hr, hr', Option.some.injEq, String.append_right_inj] at same
  exact (apart (by decide)).2.2 .importError .importError (by rw [same])

/-- A report on the first attempt that is nested one level deeper than the service reads. -/
def deepReport : Request where
  method := "POST"
  target := Route.callbackPathOf ⟨20⟩ ++ "/" ++ EventType.importError.text
  contentType := some "application/json"
  body := String.ofList (List.replicate 128 '[' ++ List.replicate 128 ']')

theorem readOctets_deepReport : Json.readOctets deepReport.body =
    Json.read (List.replicate 128 '[' ++ List.replicate 128 ']') := by
  rw [deepReport, Json.readOctets_toUTF8, String.toList_ofList]

theorem receive_deepReport (s : Service Player) (now : Instant) :
    s.receive now deepReport = (.done (.bare 400), s) := by
  have announced : deepReport.isJson = true := by decide +kernel
  have short : deepReport.body.size ≤ bodyLimit := by decide +kernel
  have deep : (Json.readOctets deepReport.body).1.isSound 127 = false := by
    rw [readOctets_deepReport]
    decide +kernel
  rw [receive, Command.ofRequest_report rfl rfl, readBody_of_deep announced short deep]
  rfl

/-- Not every JSON text that is posted to the address of an attempt gets to the listener that waits
for it: one that is nested too deeply is turned down, and the listener goes on waiting. -/
theorem deepReport_refused :
    ∃ r, opened.Asked (ReleaseDesk.releasing noon) (ReleaseDesk.firstAttempt ⟨20⟩ ⟨7⟩ noon) r ∧
      r.callbackUrl? = some (Text.trimSlashes "https://builds.example.com//" ++
        Route.callbackPathOf ⟨20⟩) ∧
      deepReport.target = Route.callbackPathOf ⟨20⟩ ++ "/" ++ EventType.importError.text ∧
      (Json.readOctets deepReport.body).2 = true ∧
      (Json.readOctets deepReport.body).1.isSound 128 = true ∧
      (releasing.desk.correlator.registration? (.ofResource ⟨20⟩) .importError).isSome = true ∧
      releasing.receive noon deepReport = (.done (.bare 400), releasing) := by
  have asked : opened.Asked (ReleaseDesk.releasing noon)
      (ReleaseDesk.firstAttempt ⟨20⟩ ⟨7⟩ noon) _ := asked_asking (k := 0) rfl rfl
  have address := @callbackUrl?_of_asked Player publicSettings false _ _ _ _ rfl asked
  refine ⟨_, asked, address, rfl, ?_⟩
  rw [readOctets_deepReport]
  exact ⟨by decide +kernel, by decide +kernel, by decide +kernel, receive_deepReport releasing noon⟩

end Service

end Foreman
