import Foreman.Config.Settings
import Foreman.Proofs.Config.Duration
import Mathlib.Data.List.Induction

/-!
Settings in layers. The nodes of a document are read one after the other, each over what those before
it have left, and so are the children of a node. Whether a node reads does not depend on what is there
already, and among the nodes of one name the last one decides.
-/

namespace Foreman.Config

open Kdl

/-! ### Layers -/

section Layers

variable {σ α : Type} {apply : σ → Node → Except ConfigFault σ} {Faulty : Node → ConfigFault → Prop}
  {s t : σ} {l l' : List Node} {n : Node} {f : ConfigFault} {part : σ → α} {name : String}
  {value : Node → Except ConfigFault α} {default a b : α}

/-- A node is faulty whatever it is laid over. -/
def Fails (apply : σ → Node → Except ConfigFault σ) (Faulty : Node → ConfigFault → Prop) : Prop :=
  ∀ s n f, apply s n = .error f ↔ Faulty n f

/-- The nodes called `name` set a part to their value, and no others touch it. -/
def Sets (apply : σ → Node → Except ConfigFault σ) (part : σ → α) (name : String)
    (value : Node → Except ConfigFault α) : Prop :=
  ∀ s n t, apply s n = .ok t →
    (n.name = name → value n = .ok (part t)) ∧ (n.name ≠ name → part t = part s)

/-- The last of the nodes called `name`. -/
def last? (l : List Node) (name : String) : Option Node := l.reverse.find? (·.name = name)

/-- `a` is the value of the last node called `name`, or the default if there is none. -/
def Decides (l : List Node) (name : String) (value : Node → Except ConfigFault α) (default a : α) :
    Prop :=
  match last? l name with
  | some n => value n = .ok a
  | none => a = default

theorem map_eq_ok {x : Except ConfigFault α} {g : α → σ} :
    g <$> x = .ok s ↔ ∃ a, x = .ok a ∧ g a = s := by
  cases x <;> simp

theorem map_eq_error {x : Except ConfigFault α} {g : α → σ} : g <$> x = .error f ↔ x = .error f := by
  cases x <;> simp

theorem map_ok {x y : Except ConfigFault α} {g : α → σ} (follows : ∀ a, x = .ok a → y = .ok a)
    (h : g <$> x = .ok s) : g <$> y = .ok s := by
  obtain ⟨a, ha, rfl⟩ := map_eq_ok.mp h
  exact map_eq_ok.mpr ⟨a, follows a ha, rfl⟩

theorem bind_eq_ok {x : Except ConfigFault α} {g : α → Except ConfigFault σ} :
    x >>= g = .ok s ↔ ∃ a, x = .ok a ∧ g a = .ok s := by
  cases x <;> simp [bind, Except.bind]

theorem foldlM_cons_error (h : apply s n = .error f) : (n :: l).foldlM apply s = .error f := by
  rw [List.foldlM_cons, h]
  rfl

theorem foldlM_cons_ok (h : apply s n = .ok t) : (n :: l).foldlM apply s = l.foldlM apply t := by
  rw [List.foldlM_cons, h]
  rfl

/-- The first faulty node gives the fault. -/
theorem Fails.foldlM_eq_error (fails : Fails apply Faulty) :
    l.foldlM apply s = .error f ↔ ∃ before n after, l = before ++ n :: after ∧
      (∀ m ∈ before, ∀ g, ¬ Faulty m g) ∧ Faulty n f := by
  induction l generalizing s with
  | nil => simp [pure, Except.pure]
  | cons m l ih =>
      cases h : apply s m with
      | error g =>
          have faulty : Faulty m g := (fails s m g).mp h
          rw [foldlM_cons_error h, Except.error.injEq]
          constructor
          · rintro rfl
            exact ⟨[], m, l, rfl, by simp, faulty⟩
          · rintro ⟨before, n, after, heq, sound, hn⟩
            cases before with
            | nil =>
                obtain ⟨rfl, -⟩ := List.cons.inj heq
                exact Except.error.inj (h.symm.trans ((fails s m f).mpr hn))
            | cons m' before =>
                obtain ⟨rfl, -⟩ := List.cons.inj heq
                exact absurd faulty (sound m List.mem_cons_self g)
      | ok u =>
          have sound (g : ConfigFault) : ¬ Faulty m g := fun hm => by
            rw [(fails s m g).mpr hm] at h
            cases h
          rw [foldlM_cons_ok h, ih]
          constructor
          · rintro ⟨before, n, after, rfl, hbefore, hn⟩
            exact ⟨m :: before, n, after, rfl, List.forall_mem_cons.mpr ⟨sound, hbefore⟩, hn⟩
          · rintro ⟨before, n, after, heq, hbefore, hn⟩
            cases before with
            | nil =>
                obtain ⟨rfl, -⟩ := List.cons.inj heq
                exact absurd hn (sound f)
            | cons m' before =>
                obtain ⟨rfl, rfl⟩ := List.cons.inj heq
                exact ⟨before, n, after, rfl, (List.forall_mem_cons.mp hbefore).2, hn⟩

theorem Fails.exists_foldlM (fails : Fails apply Faulty) :
    (∃ t, l.foldlM apply s = .ok t) ↔ ∀ n ∈ l, ∀ f, ¬ Faulty n f := by
  induction l generalizing s with
  | nil => simp [pure, Except.pure]
  | cons m l ih =>
      rw [List.forall_mem_cons]
      cases h : apply s m with
      | error g =>
          have faulty : Faulty m g := (fails s m g).mp h
          simp only [foldlM_cons_error h, reduceCtorEq, exists_false, false_iff]
          exact fun sound => sound.1 g faulty
      | ok u =>
          have sound (g : ConfigFault) : ¬ Faulty m g := fun hm => by
            rw [(fails s m g).mpr hm] at h
            cases h
          rw [foldlM_cons_ok h, ih]
          exact ⟨fun rest => ⟨sound, rest⟩, And.right⟩

theorem last?_concat (l : List Node) (n : Node) (name : String) :
    last? (l ++ [n]) name = if n.name = name then some n else last? l name := by
  by_cases h : n.name = name <;> simp [last?, h]

/-- The last node of a name decides about the part that the nodes of this name set. -/
theorem Sets.decides (sets : Sets apply part name value) (h : l.foldlM apply s = .ok t) :
    Decides l name value (part s) (part t) := by
  induction l using List.reverseRecOn generalizing t with
  | nil =>
      obtain rfl : s = t := by simpa [pure, Except.pure] using h
      rfl
  | append_singleton l n ih =>
      rw [List.foldlM_append] at h
      cases hu : l.foldlM apply s with
      | error f =>
          rw [hu] at h
          cases h
      | ok u =>
          rw [hu] at h
          have last : apply u n = .ok t := by
            simpa using show [n].foldlM apply u = .ok t from h
          obtain ⟨named, other⟩ := sets u n t last
          rw [Decides, last?_concat]
          by_cases hn : n.name = name
          · rw [if_pos hn]
            exact named hn
          · rw [if_neg hn, other hn]
            exact ih hu

theorem Decides.unique (h : Decides l name value default a) (h' : Decides l name value default b) :
    a = b := by
  unfold Decides at h h'
  cases hl : last? l name with
  | some n =>
      rw [hl] at h h'
      exact Except.ok.inj (h.symm.trans h')
  | none =>
      rw [hl] at h h'
      exact h.trans h'.symm

/-- What is laid over `s` is known if its parts are. -/
theorem Fails.foldlM_eq_ok (fails : Fails apply Faulty) {Decided : List Node → σ → Prop}
    (decided : ∀ l t, l.foldlM apply s = .ok t → Decided l t)
    (unique : ∀ l t t', Decided l t → Decided l t' → t = t') :
    l.foldlM apply s = .ok t ↔ (∀ n ∈ l, ∀ f, ¬ Faulty n f) ∧ Decided l t := by
  constructor
  · intro h
    exact ⟨fails.exists_foldlM.mp ⟨t, h⟩, decided l t h⟩
  · rintro ⟨sound, h⟩
    obtain ⟨t', h'⟩ := fails.exists_foldlM.mpr sound
    exact (unique l t' t (decided l t' h') h) ▸ h'

end Layers

/-! ### Sections -/

def Server.bindOf (c : Node) : Except ConfigFault String := orMissing "server bind" (text? c)

theorem Server.apply_eq (s : Server) (c : Node) : s.apply c =
    if c.name = "bind" then (fun bind => { s with bind }) <$> bindOf c
    else if c.name = "public-url" then .ok { s with publicUrl := text? c }
    else .ok s := by
  unfold Server.apply
  split
  next h => rw [if_pos h]; rfl
  next h => rw [if_neg (by simp [h]), if_pos h]
  next h h' => rw [if_neg h, if_neg h']

def Sweeping.intervalOf (c : Node) : Except ConfigFault Duration :=
  orMissing "notifier cleanup-interval" (text? c) >>= Duration.read "cleanup-interval"

theorem Sweeping.apply_eq (s : Sweeping) (c : Node) : s.apply c =
    if c.name = "cleanup-interval" then (fun interval => { s with interval }) <$> intervalOf c
    else .ok s := by
  unfold Sweeping.apply
  split
  next h =>
    rw [if_pos h, intervalOf]
    cases orMissing "notifier cleanup-interval" (text? c) <;> rfl
  next h => rw [if_neg h]

def PostProcessing.consumersOf (c : Node) : Except ConfigFault Nat :=
  orMissing "coordinator queue-consumers" (integer? c) >>= fun count =>
    if 0 < count ∧ count < UInt64.size then .ok count.toNat
    else .error (.invalidValue "queue-consumers" ("must be a positive integer, got " ++ toString count))

theorem PostProcessing.apply_eq (p : PostProcessing) (c : Node) : p.apply c =
    if c.name = "queue-consumers" then
      (fun queueConsumers => { p with queueConsumers }) <$> consumersOf c
    else .ok p := by
  unfold PostProcessing.apply
  split
  next h =>
    rw [if_pos h, consumersOf]
    cases orMissing "coordinator queue-consumers" (integer? c) with
    | error f => rfl
    | ok count =>
        show (if _ then _ else _) = _ <$> if _ then _ else _
        split <;> rfl
  next h => rw [if_neg h]

theorem Settings.apply_eq (s : Settings) (n : Node) : s.apply n =
    if n.name = "server" then (fun server => { s with server }) <$> Server.read n
    else if n.name = "notifier" then (fun sweeping => { s with sweeping }) <$> Sweeping.read n
    else if n.name = "coordinator" then
      (fun postProcessing => { s with postProcessing }) <$> PostProcessing.read n
    else if n.name = "workflow-engine" then
      (fun engine => { s with engine := some engine }) <$> Engine.read n
    else .ok s := by
  unfold Settings.apply
  split
  next h => rw [if_pos h]; rfl
  next h => rw [if_neg (by simp [h]), if_pos h]; rfl
  next h => rw [if_neg (by simp [h]), if_neg (by simp [h]), if_pos h]; rfl
  next h =>
    rw [if_neg (by simp [h]), if_neg (by simp [h]), if_neg (by simp [h]), if_pos h]
    rfl
  next h₁ h₂ h₃ h₄ => rw [if_neg h₁, if_neg h₂, if_neg h₃, if_neg h₄]

/-! ### Faults -/

def Server.Faulty (c : Node) (f : ConfigFault) : Prop := c.name = "bind" ∧ bindOf c = .error f

def Sweeping.Faulty (c : Node) (f : ConfigFault) : Prop :=
  c.name = "cleanup-interval" ∧ intervalOf c = .error f

def PostProcessing.Faulty (c : Node) (f : ConfigFault) : Prop :=
  c.name = "queue-consumers" ∧ consumersOf c = .error f

/-- The node is a section that does not read. -/
inductive Settings.Faulty (n : Node) (f : ConfigFault) : Prop
  | server (named : n.name = "server") (fault : Server.read n = .error f)
  | sweeping (named : n.name = "notifier") (fault : Sweeping.read n = .error f)
  | postProcessing (named : n.name = "coordinator") (fault : PostProcessing.read n = .error f)
  | engine (named : n.name = "workflow-engine") (fault : Engine.read n = .error f)

theorem Server.fails : Fails apply Faulty := by
  intro s c f
  rw [apply_eq]
  grind [map_eq_error, Faulty]

theorem Sweeping.fails : Fails apply Faulty := by
  intro s c f
  rw [apply_eq]
  grind [map_eq_error, Faulty]

theorem PostProcessing.fails : Fails apply Faulty := by
  intro p c f
  rw [apply_eq]
  grind [map_eq_error, Faulty]

theorem Settings.fails : Fails apply Faulty := by
  intro s n f
  rw [apply_eq]
  grind [map_eq_error, Faulty]

/-! ### What is decided -/

structure Server.Decided (cs : List Node) (v : Server) : Prop where
  bind : Decides cs "bind" bindOf ({} : Server).bind v.bind
  publicUrl : Decides cs "public-url" (fun c => .ok (text? c)) ({} : Server).publicUrl v.publicUrl

def Sweeping.Decided (cs : List Node) (v : Sweeping) : Prop :=
  Decides cs "cleanup-interval" intervalOf ({} : Sweeping).interval v.interval

def PostProcessing.Decided (cs : List Node) (v : PostProcessing) : Prop :=
  Decides cs "queue-consumers" consumersOf ({} : PostProcessing).queueConsumers v.queueConsumers

structure Engine.Decided (cs : List Node) (v : Engine) : Prop where
  url : (last? cs "url").bind text? = some v.url
  username : Decides cs "username" (fun c => .ok ((text? c).getD "")) "" v.username
  password : Decides cs "password" (fun c => .ok ((text? c).getD "")) "" v.password
  releaseProcess : Decides cs "release-process"
    (fun c => .ok ((text? c).getD defaultReleaseProcess)) defaultReleaseProcess v.releaseProcess

/-- Each section is what its last node alone says over the defaults. -/
structure Settings.Decided (d : Document) (s : Settings) : Prop where
  server : Decides d "server" Server.read {} s.server
  sweeping : Decides d "notifier" Sweeping.read {} s.sweeping
  postProcessing : Decides d "coordinator" PostProcessing.read {} s.postProcessing
  engine : Decides d "workflow-engine" (fun n => some <$> Engine.read n) none s.engine

theorem Server.sets_bind : Sets apply bind "bind" bindOf := by
  intro s n t h
  rw [apply_eq] at h
  grind [map_eq_ok]

theorem Server.sets_publicUrl : Sets apply publicUrl "public-url" (fun c => .ok (text? c)) := by
  intro s n t h
  rw [apply_eq] at h
  grind [map_eq_ok]

theorem Sweeping.sets_interval : Sets apply interval "cleanup-interval" intervalOf := by
  intro s n t h
  rw [apply_eq] at h
  grind [map_eq_ok]

theorem PostProcessing.sets_queueConsumers : Sets apply queueConsumers "queue-consumers" consumersOf := by
  intro s n t h
  rw [apply_eq] at h
  grind [map_eq_ok]

theorem Settings.sets_server : Sets apply server "server" Server.read := by
  intro s n t h
  rw [apply_eq] at h
  grind [map_eq_ok]

theorem Settings.sets_sweeping : Sets apply sweeping "notifier" Sweeping.read := by
  intro s n t h
  rw [apply_eq] at h
  grind [map_eq_ok]

theorem Settings.sets_postProcessing : Sets apply postProcessing "coordinator" PostProcessing.read := by
  intro s n t h
  rw [apply_eq] at h
  grind [map_eq_ok]

theorem Settings.sets_engine : Sets apply engine "workflow-engine" (fun n => some <$> Engine.read n) := by
  intro s n t h
  rw [apply_eq] at h
  grind [map_eq_ok]

theorem Server.decided {cs : List Node} {v : Server} (h : cs.foldlM apply {} = .ok v) :
    v.Decided cs :=
  ⟨sets_bind.decides h, sets_publicUrl.decides h⟩

theorem Settings.decided {d : Document} {s : Settings} (h : ofDocument d = .ok s) :
    s.Decided d :=
  ⟨sets_server.decides h, sets_sweeping.decides h, sets_postProcessing.decides h,
    sets_engine.decides h⟩

theorem Server.Decided.unique {cs : List Node} {v w : Server} (hv : v.Decided cs)
    (hw : w.Decided cs) : v = w := by
  cases v
  cases w
  rw [mk.injEq]
  exact ⟨hv.bind.unique hw.bind, hv.publicUrl.unique hw.publicUrl⟩

theorem Settings.Decided.unique {d : Document} {s t : Settings} (hs : s.Decided d)
    (ht : t.Decided d) : s = t := by
  cases s
  cases t
  rw [mk.injEq]
  exact ⟨hs.server.unique ht.server, hs.sweeping.unique ht.sweeping,
    hs.postProcessing.unique ht.postProcessing, hs.engine.unique ht.engine⟩

/-! ### What is read -/

theorem Server.read_eq_ok {n : Node} {v : Server} :
    read n = .ok v ↔ (∀ c ∈ n.children, ∀ f, ¬ Faulty c f) ∧ v.Decided n.children :=
  fails.foldlM_eq_ok (fun _ _ => decided) fun _ _ _ => Decided.unique

theorem Sweeping.read_eq_ok {n : Node} {v : Sweeping} :
    read n = .ok v ↔ (∀ c ∈ n.children, ∀ f, ¬ Faulty c f) ∧ v.Decided n.children :=
  fails.foldlM_eq_ok (fun _ _ => sets_interval.decides) fun _ _ _ hv hw => congrArg mk (hv.unique hw)

theorem PostProcessing.read_eq_ok {n : Node} {v : PostProcessing} :
    read n = .ok v ↔ (∀ c ∈ n.children, ∀ f, ¬ Faulty c f) ∧ v.Decided n.children :=
  fails.foldlM_eq_ok (fun _ _ => sets_queueConsumers.decides) fun _ _ _ hv hw => congrArg mk (hv.unique hw)

theorem decides_getD (cs : List Node) (name default a : String) :
    Decides cs name (fun c => .ok ((text? c).getD default)) default a ↔
      ((last? cs name).bind text?).getD default = a := by
  unfold Decides
  cases last? cs name <;> simp [eq_comm]

theorem Engine.read_eq_ok {n : Node} {v : Engine} : read n = .ok v ↔ v.Decided n.children := by
  have texts (name : String) : lastText? n name = (last? n.children name).bind text? := rfl
  constructor
  · intro h
    unfold read at h
    rw [texts] at h
    cases hurl : (last? n.children "url").bind text? with
    | none =>
        rw [hurl] at h
        cases h
    | some url =>
        rw [hurl] at h
        obtain rfl := Except.ok.inj h
        exact ⟨hurl, (decides_getD ..).mpr rfl, (decides_getD ..).mpr rfl,
          (decides_getD ..).mpr rfl⟩
  · rintro ⟨hurl, husername, hpassword, hprocess⟩
    rw [decides_getD] at husername hpassword hprocess
    unfold read
    rw [texts, texts, texts, texts, hurl, husername, hpassword, hprocess]
    rfl

theorem Settings.ofDocument_eq_ok {d : Document} {s : Settings} :
    ofDocument d = .ok s ↔ (∀ n ∈ d, ∀ f, ¬ Faulty n f) ∧ s.Decided d :=
  fails.foldlM_eq_ok (fun _ _ => decided) fun _ _ _ => Decided.unique

end Foreman.Config
