import Foreman.Proofs.Socket.Dealings

/-!
Who is attached in a lobby. A session keeps its attachment unless it ends, its client failed to get a
message or is disabled, or it is detached from outside; and what is done with one client leaves the
others as they are.
-/

namespace Foreman.Socket.Lobby

variable {l l' : Lobby} {e : Event} {es : List Event} {k : Nat} {c : Client} {v : Visit}
  {name : String}

/-! ### What holds of every lobby -/

/-- Sessions and clients have the same numbers and names, sessions have different names, and messages
are on their way to clients that there are. -/
structure Sound (l : Lobby) : Prop where
  numbered : l.notifier.clients.length = l.visits.length
  distinct : (l.visits.map (·.name)).Nodup
  named : ∀ k v, l.visits[k]? = some v → ∃ c, l.client? k = some c ∧ c.session = v.name
  settled : l.notifier.Settled
  known : ∀ (m : Nat) (x : Mailing Unit), l.post.mailings[m]? = some x →
    ∀ i, i ∈ x.waiting ∨ i ∈ x.handed.map (·.1) → i < l.visits.length

theorem sound_empty : Sound empty where
  numbered := rfl
  distinct := List.nodup_nil
  named k v h := by simp [empty] at h
  settled := Notifier.settled_empty
  known m x h := by simp [empty, Post.empty] at h

theorem length_names (l : Lobby) : (l.visits.map (·.name)).length = l.visits.length :=
  List.length_map _

/-- Only those that connect are new. -/
theorem names_step (h : l.step e = some l') : l'.visits.map (·.name) = l.visits.map (·.name) ∨
    ∃ name, e = .connect name ∧ l'.visits.map (·.name) = l.visits.map (·.name) ++ [name] ∧
      name ∉ l.visits.map (·.name) := by
  have same (k : Nat) (s : Stage) :
      (l.visits.modify k fun v => { v with stage := s }).map (·.name) = l.visits.map (·.name) := by
    apply List.ext_getElem?
    intro j
    rw [List.getElem?_map, List.getElem?_map, List.getElem?_modify]
    cases l.visits[j]? <;> simp [apply_ite]
  cases step_move h with
  | connect new => exact .inr ⟨_, rfl, by simp, new⟩
  | shut | depart | hangUp => exact .inl (same _ _)
  | text | skip | take | breakOff | post | hand | close | cleanUp | detach => exact .inl rfl

theorem numbered_step (h : l.step e = some l') (numbered : l.notifier.clients.length = l.visits.length) :
    l'.notifier.clients.length = l'.visits.length := by
  have changed (k : Nat) (f : Client → Client) :
      (l.change k f).notifier.clients.length = l.visits.length := by
    rw [← numbered]
    exact List.length_modify ..
  cases step_move h with
  | connect new => simpa [withNotifier, notifier] using numbered
  | text | take | breakOff | hand => exact changed _ _
  | shut | hangUp => exact (changed _ _).trans (List.length_modify ..).symm
  | depart => exact numbered.trans (List.length_modify ..).symm
  | skip | post | cleanUp | detach => exact numbered
  | close => exact (congrArg List.length (Notifier.clients_evict ..)).trans numbered

/-- A message stays on its way, is handed to a client that waited for it, or is new. -/
theorem mailing_step {m : Nat} {x' : Mailing Unit} (h : l.step e = some l')
    (hx' : l'.post.mailings[m]? = some x') :
    (∃ x, l.post.mailings[m]? = some x ∧
      (x'.waiting = x.waiting ∧ x'.handed = x.handed ∨
        ∃ i c, e = .hand m ∧ l.client? i = some c ∧ x.waiting = i :: x'.waiting ∧
          x'.handed = x.handed ++ [(i, some (c.send x.message).1.isOk)])) ∨
      x'.handed = [] ∧ ∃ a : Audience, x'.waiting.Perm (l.notifier.targets a.wants) := by
  have changed {m₁ : Nat} {x x₁ : Mailing Unit} (hx : l.post.mailings[m₁]? = some x)
      (h : (l.post.withMailing m₁ x₁).mailings[m]? = some x') :
      m₁ = m ∧ x₁ = x' ∨ l.post.mailings[m]? = some x' := by
    rw [Post.getElem?_withMailing _ hx] at h
    split at h
    next hm => exact .inl ⟨hm, Option.some.inj h⟩
    next => exact .inr h
  cases step_move h with
  | connect | text | skip | shut | depart | hangUp | take | breakOff | cleanUp | detach =>
      exact .inl ⟨x', hx', .inl ⟨rfl, rfl⟩⟩
  | @post n a order perm =>
      rcases getElem?_concat_cases hx' with hx' | ⟨-, rfl⟩
      · exact .inl ⟨x', hx', .inl ⟨rfl, rfl⟩⟩
      · exact .inr ⟨rfl, a, perm⟩
  | @hand m₁ x i waiting c hx hw hc =>
      rcases changed hx hx' with ⟨rfl, rfl⟩ | hx'
      · exact .inl ⟨x, hx, .inr ⟨i, c, rfl, hc, hw, rfl⟩⟩
      · exact .inl ⟨x', hx', .inl ⟨rfl, rfl⟩⟩
  | @close m₁ x hx =>
      rcases changed hx hx' with ⟨rfl, rfl⟩ | hx'
      · exact .inl ⟨x, hx, .inl ⟨rfl, rfl⟩⟩
      · exact .inl ⟨x', hx', .inl ⟨rfl, rfl⟩⟩

/-- Whoever connects reads and is attached from the start. -/
theorem connect_step (numbered : l.notifier.clients.length = l.visits.length)
    (h : l.step (.connect name) = some l') :
    l'.visits[l.visits.length]? = some ⟨name, .reading⟩ ∧
      l'.client? l.visits.length = some (.connect name) ∧
      l'.notifier.attached.get? name = some l.visits.length ∧
      l'.post.mailings = l.post.mailings := by
  cases step_move h with
  | connect new =>
      refine ⟨by simp, ?_, ?_, rfl⟩
      · rw [← numbered]
        simp [client?, Notifier.client?, withNotifier, notifier]
      · show (l.notifier.attached.insert name l.notifier.clients.length).get? name = _
        rw [Table.get?_insert_self, numbered]

theorem length_le_step (h : l.step e = some l') : l.visits.length ≤ l'.visits.length := by
  rw [← length_names, ← length_names l']
  rcases names_step h with same | ⟨_, -, added, -⟩
  · rw [same]
  · rw [added]
    simp

theorem Sound.named_step (sound : l.Sound) (h : l.step e = some l') (hv : l'.visits[k]? = some v) :
    ∃ c, l'.client? k = some c ∧ c.session = v.name := by
  cases hv₀ : l.visits[k]? with
  | some v₀ =>
      obtain rfl := Option.some.inj ((visit_step h hv₀).symm.trans hv)
      obtain ⟨c, hc, named⟩ := sound.named k v₀ hv₀
      obtain ⟨c', hc', history⟩ := client_step h hc
      exact ⟨c', hc', (Client.session_run history).trans named⟩
  | none =>
      have new := List.getElem?_eq_none_iff.mp hv₀
      have here := (List.getElem?_eq_some_iff.mp hv).1
      rw [← length_names] at here
      rcases names_step h with same | ⟨name, rfl, added, -⟩
      · rw [same, length_names] at here
        omega
      · rw [added, List.length_append, length_names, List.length_singleton] at here
        obtain rfl : l.visits.length = k := by omega
        obtain ⟨hv', hc', -, -⟩ := connect_step sound.numbered h
        obtain rfl := Option.some.inj (hv'.symm.trans hv)
        exact ⟨_, hc', rfl⟩

theorem Sound.known_step (sound : l.Sound) (h : l.step e = some l') {m : Nat} {x' : Mailing Unit}
    (hx' : l'.post.mailings[m]? = some x') {i : Nat}
    (hi : i ∈ x'.waiting ∨ i ∈ x'.handed.map (·.1)) : i < l'.visits.length := by
  refine Nat.lt_of_lt_of_le ?_ (length_le_step h)
  rcases mailing_step h hx' with ⟨x, hx, ⟨waiting, handed⟩ | ⟨j, c, rfl, hc, waiting, handed⟩⟩ |
    ⟨handed, a, perm⟩
  · rw [waiting, handed] at hi
    exact sound.known m x hx i hi
  · have before := sound.known m x hx i
    rw [waiting] at before
    rw [handed, List.map_append, List.mem_append, List.map_singleton, List.mem_singleton] at hi
    rcases hi with hi | hi | rfl
    · exact before (.inl (List.mem_cons_of_mem _ hi))
    · exact before (.inr hi)
    · exact before (.inl List.mem_cons_self)
  · rw [handed, perm.mem_iff, Notifier.mem_targets] at hi
    rcases hi with ⟨_, _, _, hc, -⟩ | hi
    · rw [← sound.numbered]
      exact (List.getElem?_eq_some_iff.mp hc).1
    · cases hi

theorem Sound.step (sound : l.Sound) (h : l.step e = some l') : l'.Sound where
  numbered := numbered_step h sound.numbered
  distinct := by
    rcases names_step h with same | ⟨name, -, added, new⟩
    · rw [same]
      exact sound.distinct
    · rw [added]
      exact nodup_concat sound.distinct new
  named _ _ := sound.named_step h
  settled := by
    obtain ⟨ps, course⟩ := post_step h
    exact sound.settled.run (Post.notifier_run course)
  known _ _ hx' _ := sound.known_step h hx'

theorem Sound.run (sound : l.Sound) (run : Run Lobby.step l es l') : l'.Sound :=
  run.invariant sound fun _ _ _ sound => sound.step

/-! ### Who stays attached -/

/-- Whether an event may detach the client `k`: its session ends, the client failed to get a message or
is disabled, or its session is detached from outside. -/
def Unseats (k : Nat) (l : Lobby) : Event → Prop
  | .leave k' => k' = k
  | .close m => ∃ x, l.post.mailings[m]? = some x ∧ k ∈ x.failed
  | .cleanUp => l.notifier.isEnabled k = false
  | .detach name => ∃ v, l.visits[k]? = some v ∧ v.name = name
  | _ => False

/-- Whether an event is about the client `k` or its session. -/
def IsAbout (k : Nat) (l : Lobby) : Event → Prop
  | .incoming k' _ | .take k' | .breakOff k' => k' = k
  | .hand m => ∃ n, l.next? m = some (k, n)
  | e => Unseats k l e

theorem Sound.eq_of_name (sound : l.Sound) {i : Nat} {v' : Visit} (hv' : l.visits[i]? = some v')
    (hv : l.visits[k]? = some v) (same : v'.name = v.name) : i = k := by
  have names : (l.visits.map (·.name))[i]? = (l.visits.map (·.name))[k]? := by
    rw [List.getElem?_map, List.getElem?_map, hv, hv', Option.map_some, Option.map_some, same]
  refine (List.getElem?_inj ?_ sound.distinct).mp names
  simpa using (List.getElem?_eq_some_iff.mp hv').1

/-- Only its own client is attached for a session. -/
theorem Sound.only (sound : l.Sound) (hv : l.visits[k]? = some v) {i : Nat}
    (hi : l.notifier.attached.get? v.name = some i) : i = k := by
  obtain ⟨c, hc, hname⟩ := sound.settled v.name i hi
  have here : i < l.visits.length := by
    rw [← sound.numbered]
    exact (List.getElem?_eq_some_iff.mp hc).1
  obtain ⟨c', hc', hname'⟩ := sound.named i _ (List.getElem?_eq_getElem here)
  obtain rfl := Option.some.inj (hc.symm.trans hc')
  exact sound.eq_of_name (List.getElem?_eq_getElem here) hv (hname'.symm.trans hname)

/-- A session keeps its attachment unless the event is one that may detach its client. -/
theorem attached_step (sound : l.Sound) (h : l.step e = some l') (hv : l.visits[k]? = some v) :
    l'.notifier.attached.get? v.name = l.notifier.attached.get? v.name ∨ Unseats k l e := by
  by_cases unseats : Unseats k l e
  · exact .inr unseats
  refine .inl ?_
  have filtered {keep : Nat → Bool} (kept : keep k = true) :
      (l.notifier.attached.get? v.name).filter keep = l.notifier.attached.get? v.name := by
    cases hi : l.notifier.attached.get? v.name with
    | none => rfl
    | some i =>
        obtain rfl := sound.only hv hi
        exact Option.filter_some_pos kept
  have erased {name : String} (other : name ≠ v.name) :
      (l.notifier.attached.erase name).get? v.name = l.notifier.attached.get? v.name := by
    rw [Table.get?_erase, if_neg other]
  cases step_move h with
  | @connect name new =>
      have other : name ≠ v.name := by
        rintro rfl
        exact new (List.mem_map_of_mem (List.mem_of_getElem? hv))
      exact l.notifier.attached.get?_insert_of_ne other _
  | text | skip | shut | hangUp | take | breakOff | post | hand => rfl
  | @depart k' v' hv' closing =>
      exact erased fun same => unseats (sound.eq_of_name hv' hv same)
  | @close m x hx answered open' =>
      refine (Notifier.get?_evict x.failed l.notifier v.name).trans (filtered ?_)
      exact decide_eq_true fun failed => unseats ⟨x, hx, failed⟩
  | cleanUp =>
      refine (Table.get?_filter ..).trans (filtered ?_)
      simpa [Unseats] using unseats
  | detach name => exact erased fun same => unseats ⟨v, hv, same.symm⟩

/-- Nobody is attached that was not, but for those that connect. -/
theorem attached_of_step {session : String} (h : l.step e = some l')
    (hc : l.client? k = some c) (hk : l'.notifier.attached.get? session = some k) :
    l.notifier.attached.get? session = some k := by
  cases step_move h with
  | @connect name new =>
      obtain ⟨-, last⟩ | ⟨-, hk⟩ := Table.get?_insert_cases hk
      · have here : k < l.notifier.clients.length := (List.getElem?_eq_some_iff.mp hc).1
        exact absurd last here.ne'
      · exact hk
  | text | skip | shut | hangUp | take | breakOff | post | hand => exact hk
  | depart | detach =>
      have hk := (Table.get?_erase ..).symm.trans hk
      split at hk
      next => cases hk
      next => exact hk
  | @close m x hx answered open' =>
      exact (Option.filter_eq_some_iff.mp ((Notifier.get?_evict x.failed _ _).symm.trans hk)).1
  | cleanUp => exact (Option.filter_eq_some_iff.mp ((Table.get?_filter ..).symm.trans hk)).1

/-- What is done with the others leaves a client, its session and its attachment as they are. -/
theorem apart_step (sound : l.Sound) (h : l.step e = some l') (hv : l.visits[k]? = some v)
    (hc : l.client? k = some c) (others : ¬IsAbout k l e) :
    l'.client? k = some c ∧ l'.visits[k]? = some v ∧
      l'.notifier.attached.get? v.name = l.notifier.attached.get? v.name := by
  have nothing : doing k l e = [] := by
    cases e with
    | incoming | leave | take | breakOff =>
        simp only [IsAbout, Unseats] at others
        simp [doing, others]
    | hand m =>
        simp only [doing]
        split
        next i n hn =>
          refine if_neg ?_
          rintro rfl
          exact others ⟨n, hn⟩
        next => rfl
    | connect | post | close | cleanUp | detach => rfl
  have stage : stageAfter k v.stage e = v.stage := by
    cases e with
    | incoming k' m =>
        have other : ¬k' = k := others
        cases m <;> simp [stageAfter, other]
    | leave k' => exact if_neg others
    | connect | take | breakOff | post | hand | close | cleanUp | detach => rfl
  have unseats : ¬Unseats k l e := by
    cases e with
    | leave | close | cleanUp | detach => exact others
    | connect | incoming | take | breakOff | post | hand => exact id
  refine ⟨?_, ?_, (attached_step sound h hv).resolve_right unseats⟩
  · obtain ⟨c', hc', history⟩ := client_step h hc
    rw [nothing] at history
    rw [hc', history.unique .nil]
  · rw [visit_step h hv, stage]

theorem failed_step {m : Nat} {x' : Mailing Unit} (h : l.step e = some l') (hc : l.client? k = some c)
    (hx' : l'.post.mailings[m]? = some x') (failed : k ∈ x'.failed) :
    (∃ x, l.post.mailings[m]? = some x ∧ k ∈ x.failed) ∨ ∃ o ∈ sends k l e, o.2 = false := by
  rcases mailing_step h hx' with ⟨x, hx, ⟨-, handed⟩ | ⟨i, c', rfl, hc', waiting, handed⟩⟩ |
    ⟨handed, -⟩
  · rw [Mailing.failed, handed] at failed
    exact .inl ⟨x, hx, failed⟩
  · rw [Mailing.failed, handed, List.filter_append, List.map_append, List.mem_append] at failed
    rcases failed with failed | failed
    · exact .inl ⟨x, hx, failed⟩
    · obtain ⟨refused, rfl⟩ : (c'.send x.message).1.isOk = false ∧ i = k := by
        cases hr : (c'.send x.message).1.isOk <;> simp [hr] at failed ⊢
        exact failed.symm
      obtain rfl := Option.some.inj (hc'.symm.trans hc)
      have next : l.next? m = some (i, x.message) := by simp [next?, hx, waiting]
      exact .inr ⟨(x.message, (c'.send x.message).1.isOk), by simp [sends, next, hc], refused⟩
  · rw [Mailing.failed, handed] at failed
    cases failed

end Foreman.Socket.Lobby
