import Foreman.Proofs.Socket.Seats

/-!
Sessions of clients on sockets keep apart. While a session reads, each text is answered by one frame
and its client stays attached, unless a message could not be sent to it or it was detached from
outside; when the session ends its client is disabled and detached for good; and whatever is done with
one client leaves the others as they are.
-/

namespace Foreman.Socket.Lobby

variable {l l' : Lobby} {e : Event} {es : List Event} {k : Nat} {c : Client} {name : String}

/-! ### One session from its start -/

/-- What holds of the session `k` of the name `name` after the events `es` since it began in `l₁`. -/
structure Guest (k : Nat) (name : String) (l₁ : Lobby) (es : List Event) (l : Lobby) (s : Stage)
    (c : Client) : Prop where
  visit : l.visits[k]? = some ⟨name, s⟩
  reads : s = .reading ↔ .incoming k .close ∉ es ∧ .incoming k .failure ∉ es
  client : l.client? k = some c
  started : l₁.client? k = some (.connect name)
  history : Run Client.step (.connect name) (notes step (doing k) l₁ es) c
  shut : .disable ∈ notes step (doing k) l₁ es ↔ s ≠ .reading
  hungUp : .hangUp ∈ notes step (doing k) l₁ es → .breakOff k ∈ es ∨ s = .finished
  failed : ∀ (m : Nat) (x : Mailing Unit), l.post.mailings[m]? = some x → k ∈ x.failed →
    ∃ o ∈ notes step (sends k) l₁ es, o.2 = false
  attached : s = .reading → (∀ o ∈ notes step (sends k) l₁ es, o.2 = true) → .detach name ∉ es →
    l.notifier.attached.get? name = some k
  gone : s = .detached ∨ s = .finished → ∀ session, l.notifier.attached.get? session ≠ some k

theorem guest_start {l₀ l₁ : Lobby} (sound : l₀.Sound) (h : l₀.step (.connect name) = some l₁) :
    Guest l₀.visits.length name l₁ [] l₁ .reading (.connect name) := by
  obtain ⟨visit, client, attached, mailings⟩ := connect_step sound.numbered h
  refine ⟨visit, by simp, client, client, .nil, by simp [notes], by simp [notes], fun m x hx failed => ?_,
    fun _ _ _ => attached, by simp⟩
  rw [mailings] at hx
  have handed : l₀.visits.length ∈ x.handed.map (·.1) :=
    (List.filter_sublist.map _).mem failed
  exact absurd (sound.known m x hx _ (.inr handed)) (lt_irrefl _)

section

variable {l₁ : Lobby} {s : Stage} {es₀ : List Event}

theorem Guest.stays (guest : Guest k name l₁ es l s c) (sound : l.Sound) (run : Run step l₁ es l)
    (h : l.step e = some l') (reading : stageAfter k s e = .reading)
    (sent : ∀ o ∈ notes step (sends k) l₁ (es ++ [e]), o.2 = true)
    (inside : .detach name ∉ es ++ [e]) : l'.notifier.attached.get? name = some k := by
  rw [notes_snoc _ run h] at sent
  simp only [List.mem_append, List.mem_singleton, not_or] at sent inside
  have before : s = .reading := (reading_after_iff.mp reading).1
  have sent' : ∀ o ∈ notes step (sends k) l₁ es, o.2 = true := fun o ho => sent o (.inl ho)
  have attached := guest.attached before sent' inside.1
  rcases attached_step sound h guest.visit with same | unseats
  · exact same.trans attached
  -- The session does not end here, and to be evicted or cleaned up it takes a send that failed.
  · exfalso
    cases e with
    | leave k' =>
        obtain rfl : k' = k := unseats
        cases step_move h with
        | depart hv closing =>
            obtain rfl := Option.some.inj (hv.symm.trans guest.visit)
            simp [before] at closing
        | hangUp hv detached =>
            obtain rfl := Option.some.inj (hv.symm.trans guest.visit)
            simp [before] at detached
    | close m =>
        obtain ⟨x, hx, failed⟩ := unseats
        obtain ⟨o, ho, refused⟩ := guest.failed m x hx failed
        rw [sent' o ho] at refused
        cases refused
    | cleanUp =>
        have hc : l.notifier.client? k = some c := guest.client
        have disabled : c.isEnabled = false := by
          simpa [Unseats, Notifier.isEnabled, hc, Recipient.isEnabled] using unseats
        obtain ⟨o, ho, refused⟩ := Client.exists_refused guest.history disabled
          fun h => guest.shut.mp h before
        rw [← notes_run (fun _ e _ => sends_eq e) guest.started run] at ho
        rw [sent' o ho] at refused
        cases refused
    | detach name' =>
        obtain ⟨v, hv, rfl⟩ := unseats
        obtain rfl := Option.some.inj (hv.symm.trans guest.visit)
        exact inside.2 rfl
    | connect | incoming | take | breakOff | post | hand => exact unseats

theorem Guest.leaves (guest : Guest k name l₁ es l s c) (sound : l.Sound)
    (h : l.step e = some l') (ended : stageAfter k s e = .detached ∨ stageAfter k s e = .finished)
    (session : String) : l'.notifier.attached.get? session ≠ some k := by
  intro hk
  -- Nobody is attached anew, so it is enough to look at the step that detaches the client.
  have before := attached_of_step h guest.client hk
  rcases ended_after ended with ended | ⟨closing, rfl⟩
  · exact guest.gone ended session before
  · obtain ⟨c', hc', named⟩ := sound.settled session k before
    obtain ⟨c'', hc'', named'⟩ := sound.named k _ guest.visit
    obtain rfl := Option.some.inj (hc'.symm.trans hc'')
    obtain rfl : name = session := named'.symm.trans named
    cases step_move h with
    | depart hv =>
        obtain rfl := Option.some.inj (hv.symm.trans guest.visit)
        have erased : (l.notifier.attached.erase name).get? name = some k := hk
        simp [Table.get?_erase] at erased
    | hangUp hv detached =>
        obtain rfl := Option.some.inj (hv.symm.trans guest.visit)
        simp [closing] at detached

theorem Guest.step (guest : Guest k name l₁ es l s c) (sound : l.Sound) (run : Run Lobby.step l₁ es l)
    (h : l.step e = some l') : ∃ c', Guest k name l₁ (es ++ [e]) l' (stageAfter k s e) c' := by
  obtain ⟨c', hc', next⟩ := client_step h guest.client
  refine ⟨c', visit_step h guest.visit, ?_, hc', guest.started, ?_, ?_, ?_,
    fun m x' hx' failed => ?_, guest.stays sound run h, guest.leaves sound h⟩
  · rw [reading_after_iff, guest.reads]
    simp only [List.mem_append, List.mem_singleton, not_or, ne_comm (a := e)]
    exact and_and_and_comm
  · rw [notes_snoc _ run h]
    exact guest.history.trans next
  · rw [notes_snoc _ run h, List.mem_append, guest.shut, disable_mem_doing (stage?_eq guest.visit)]
    constructor
    · rintro (past | ⟨-, past⟩)
      · exact fun reading => past ((reading_after_iff.mp reading).1)
      · exact past
    · intro past
      by_cases reading : s = .reading
      · exact .inr ⟨reading, past⟩
      · exact .inl reading
  · rw [notes_snoc _ run h, List.mem_append]
    rintro (before | now)
    · rcases guest.hungUp before with broken | rfl
      · exact .inl (List.mem_append_left _ broken)
      · exact .inr finished_after
    · rcases hangUp_mem_doing (stage?_eq guest.visit) now with rfl | finished
      · exact .inl (List.mem_append_right _ List.mem_cons_self)
      · exact .inr finished
  · rw [notes_snoc _ run h]
    rcases failed_step h guest.client hx' failed with ⟨x, hx, failed⟩ | ⟨o, ho, refused⟩
    · obtain ⟨o, ho, refused⟩ := guest.failed m x hx failed
      exact ⟨o, List.mem_append_left _ ho, refused⟩
    · exact ⟨o, List.mem_append_right _ ho, refused⟩

theorem guest_run {l₀ : Lobby} (before : Run step .empty es₀ l₀)
    (connected : l₀.step (.connect name) = some l₁) (run : Run step l₁ es l) :
    l.Sound ∧ ∃ s c, Guest l₀.visits.length name l₁ es l s c := by
  have sound₁ : l₁.Sound := (sound_empty.run before).step connected
  refine ⟨sound₁.run run, ?_⟩
  induction run with
  | nil => exact ⟨_, _, guest_start (sound_empty.run before) connected⟩
  | snoc first last ih =>
      obtain ⟨s, c, guest⟩ := ih
      obtain ⟨c', guest'⟩ := guest.step (sound₁.run first) first last
      exact ⟨_, c', guest'⟩

end

/-! ### The law of sessions -/

/-- What is due to the session `k` of the name `name` after the events `es` since it began in `l₁`. It
is in the stage `s`, and `c` is its client. -/
structure Served (k : Nat) (name : String) (l₁ : Lobby) (es : List Event) (l : Lobby) (s : Stage)
    (c : Client) : Prop where
  visit : l.visits[k]? = some ⟨name, s⟩
  /-- The session ends when its socket is closed or fails. -/
  reads : s = .reading ↔ .incoming k .close ∉ es ∧ .incoming k .failure ∉ es
  client : l.client? k = some c
  made : Client.MadeBy name (notes step (doing k) l₁ es) c
  /-- Each text that the session read was answered once, in order, as long as frames are written. -/
  answered : .breakOff k ∉ es → s ≠ .finished → ∃ waiting, c.outbound = some waiting ∧
    notes step (taken k) l₁ es ++ waiting.map Wire.ofFrame = notes step (queued k) l₁ es
  /-- A text that is no command changes no subscription. -/
  harmless : ∀ t objection l', Command.ofText? t = none →
    l.step (.incoming k (.text t objection)) = some l' →
    ∃ c', l'.client? k = some c' ∧ c'.subscriptions = c.subscriptions
  attached : s = .reading → (∀ o ∈ notes step (sends k) l₁ es, o.2 = true) → .detach name ∉ es →
    l.notifier.attached.get? name = some k
  /-- No send to the client fails before the session ends while its frames are written. -/
  sent : s = .reading → .breakOff k ∉ es → ∀ o ∈ notes step (sends k) l₁ es, o.2 = true
  disabled : s ≠ .reading → c.isEnabled = false
  gone : s = .detached ∨ s = .finished → ∀ session, l.notifier.attached.get? session ≠ some k
  /-- Once the session ends no message is for its client nor reaches it, and it is not attached again. -/
  forGood : s ≠ .reading → ∀ es' l', Run step l es' l' →
    (∃ c', l'.client? k = some c' ∧ c'.isEnabled = false) ∧
      (∀ a : Audience, k ∉ l'.notifier.targets a.wants) ∧
      (∀ o ∈ notes step (sends k) l es', o.2 = false) ∧
      (s = .detached ∨ s = .finished → ∀ session, l'.notifier.attached.get? session ≠ some k)
  /-- What is done with the others leaves the client, its session and its attachment as they are. -/
  apart : ∀ e l', l.step e = some l' → ¬IsAbout k l e →
    l'.client? k = some c ∧ l'.visits[k]? = some ⟨name, s⟩ ∧
      l'.notifier.attached.get? name = l.notifier.attached.get? name

/-- How the answers to texts are written. -/
theorem ofFrame_answer (t objection : String) : Wire.ofFrame (answer t objection) =
    match Command.ofText? t with
    | some (.subscribe topic qualifier) => .object [("type", .string "subscribed"),
      ("topic", .string topic), ("qualifier", .string qualifier)]
    | some (.unsubscribe topic qualifier) => .object [("type", .string "unsubscribed"),
      ("topic", .string topic), ("qualifier", .string qualifier)]
    | none => .object [("type", .string "error"),
      ("message", .string ("invalid command: " ++ objection))] := by
  unfold answer
  cases Command.ofText? t with
  | none => rfl
  | some cmd => cases cmd <;> rfl

theorem gone_run (hc : l.client? k = some c)
    (gone : ∀ session, l.notifier.attached.get? session ≠ some k) (run : Run step l es l')
    (session : String) : l'.notifier.attached.get? session ≠ some k := by
  induction run with
  | nil => exact gone session
  | snoc before last ih =>
      obtain ⟨c', hc', -⟩ := client_run hc before
      exact fun hk => ih (attached_of_step last hc' hk)

theorem harmless_step {t objection : String} (none : Command.ofText? t = none)
    (hc : l.client? k = some c) (h : l.step (.incoming k (.text t objection)) = some l') :
    ∃ c', l'.client? k = some c' ∧ c'.subscriptions = c.subscriptions := by
  cases step_move h with
  | text hv reading =>
      refine ⟨c.receive t objection, by simp [client?_change, hc], ?_⟩
      rw [Client.receive, none]
      rfl
  | skip => exact ⟨c, hc, rfl⟩
  | shut _ _ hm => simp at hm

theorem not_mem_targets (hc : l.client? k = some c) (disabled : c.isEnabled = false) (a : Audience) :
    k ∉ l.notifier.targets a.wants := by
  intro h
  obtain ⟨_, c', -, hc', enabled, -⟩ := Notifier.mem_targets.mp h
  obtain rfl := Option.some.inj (hc'.symm.trans hc)
  exact Bool.false_ne_true (disabled.symm.trans enabled)

theorem Guest.served {l₁ : Lobby} {s : Stage} (guest : Guest k name l₁ es l s c) (sound : l.Sound)
    (run : Run Lobby.step l₁ es l) : Served k name l₁ es l s c where
  visit := guest.visit
  reads := guest.reads
  client := guest.client
  made := Client.madeBy_of_run guest.history
  answered writing open' := by
    obtain ⟨waiting, hw, frames⟩ := Client.queue_run guest.history fun hungUp =>
      (guest.hungUp hungUp).elim writing open'
    refine ⟨waiting, hw, ?_⟩
    rw [notes_run (fun _ e _ => taken_eq e) guest.started run,
      notes_run (fun _ e _ => queued_eq e) guest.started run, frames]
  harmless _ _ _ none h := harmless_step none guest.client h
  attached := guest.attached
  sent reading writing := by
    rw [notes_run (fun _ e _ => sends_eq e) guest.started run]
    refine Client.outcomes_open guest.history (fun h => guest.shut.mp h reading) fun h => ?_
    rcases guest.hungUp h with broken | finished
    · exact writing broken
    · rw [reading] at finished
      cases finished
  disabled past := (Client.isEnabled_of_run guest.history).1 (guest.shut.mpr past)
  gone := guest.gone
  forGood past es' l' after := by
    have disabled := (Client.isEnabled_of_run guest.history).1 (guest.shut.mpr past)
    obtain ⟨c', hc', later⟩ := client_run guest.client after
    have disabled' := Client.isEnabled_run disabled later
    refine ⟨⟨c', hc', disabled'⟩, not_mem_targets hc' disabled', ?_, fun ended =>
      gone_run guest.client (guest.gone ended) after⟩
    rw [notes_run (fun _ e _ => sends_eq e) guest.client after]
    exact Client.outcomes_closed disabled later
  apart _ _ h := apart_step sound h guest.visit guest.client

/-- In any run, a session is served from its start as it should: it is answered and attached as long as
it reads, disabled and detached for good when it ends, and left alone by what the others do. -/
theorem session_served {es₀ : List Event} {l₀ l₁ : Lobby} (before : Run step .empty es₀ l₀)
    (connected : l₀.step (.connect name) = some l₁) (run : Run step l₁ es l) :
    ∃ s c, Served l₀.visits.length name l₁ es l s c := by
  obtain ⟨sound, s, c, guest⟩ := guest_run before connected run
  exact ⟨s, c, guest.served sound run⟩

theorem desk_connects : (empty.step (.connect "desk")).isSome = true := by decide +kernel

def desk : Lobby := (empty.step (.connect "desk")).get desk_connects

theorem hall_connects : (desk.step (.connect "hall")).isSome = true := by decide +kernel

def deskAndHall : Lobby := (desk.step (.connect "hall")).get hall_connects

/-- The second of two sessions sends a command and a text that is none. A message is posted to both; the
session ends before it is handed to its client, which is detached before it could be evicted. -/
def visiting : List Event := [
  .incoming 1 (.text "\x7b\"type\":\"subscribe\",\"topic\":\"build-status\"\x7d"),
  .incoming 1 (.text "hello" "expected value"), .post (.message "hi") .everyone [0, 1], .hand 0, .take 1,
  .incoming 1 .close, .hand 0, .leave 1, .cleanUp, .close 0]

theorem visiting_runs : (visiting.foldlM step deskAndHall).isSome = true := by decide +kernel

def parted : Lobby := (visiting.foldlM step deskAndHall).get visiting_runs

theorem session_served_visiting : ∃ c, parted.client? 1 = some c ∧ c.isEnabled = false ∧
    c.isSubscribed "build-status" "a" = true ∧
    ∀ session, parted.notifier.attached.get? session ≠ some 1 := by
  have before : Run step empty [.connect "desk"] desk :=
    Run.nil.snoc (Option.some_get desk_connects).symm
  have connected : desk.step (.connect "hall") = some deskAndHall :=
    (Option.some_get hall_connects).symm
  have run : Run step deskAndHall visiting parted :=
    Run.iff_foldlM.mpr (Option.some_get visiting_runs).symm
  have second : desk.visits.length = 1 := by decide +kernel
  obtain ⟨s, c, served⟩ := session_served before connected run
  rw [second] at served
  have detached : parted.stage? 1 = some .detached := by decide +kernel
  have stage : parted.stage? 1 = some s := stage?_eq served.visit
  obtain rfl := Option.some.inj (stage.symm.trans detached)
  have subscribed : (parted.client? 1).any (·.isSubscribed "build-status" "a") = true := by
    decide +kernel
  obtain ⟨c', hc', subscribed⟩ := (Option.any_eq_true _ _).mp subscribed
  obtain rfl := Option.some.inj (hc'.symm.trans served.client)
  exact ⟨c', hc', served.disabled (by decide), subscribed, served.gone (.inl rfl)⟩

end Foreman.Socket.Lobby
