import Foreman.Proofs.Config.Sections
import Mathlib.Logic.Relation

/-!
What in a document makes no difference to the settings: nodes, children, arguments and properties that
are not looked at, and the order of nodes with different names.
-/

namespace Foreman.Config

open Kdl

/-- The names of the nodes that are looked at. -/
def sections : List String := ["server", "notifier", "coordinator", "workflow-engine"]

/-- The names of the children that are looked at in the sections of a name. -/
def settingsIn (name : String) : List String :=
  if name = "server" then ["bind", "public-url"]
  else if name = "notifier" then ["cleanup-interval"]
  else if name = "coordinator" then ["queue-consumers"]
  else if name = "workflow-engine" then ["url", "username", "password", "release-process"]
  else []

/-! ### Additions -/

/-- One more property, or one more argument behind another one. -/
inductive AddsEntry : List Entry → List Entry → Prop
  | property {before after : List Entry} {e : Entry} (named : e.name ≠ none) :
      AddsEntry (before ++ after) (before ++ e :: after)
  | argument {before after : List Entry} {e : Entry} (later : ∃ a ∈ before, a.name = none) :
      AddsEntry (before ++ after) (before ++ e :: after)

/-- One more thing that is not looked at in a child of a section. -/
inductive AddsToChild : Node → Node → Prop
  | entry {name : String} {es es' : List Entry} {cs : List Node} (adds : AddsEntry es es') :
      AddsToChild (.mk name es cs) (.mk name es' cs)
  | child {name : String} {es : List Entry} {before after : List Node} {c : Node} :
      AddsToChild (.mk name es (before ++ after)) (.mk name es (before ++ c :: after))

/-- One more thing that is not looked at in a section: the section's own arguments and properties are
not. -/
inductive AddsToSection : Node → Node → Prop
  | entry {name : String} {before after : List Entry} {e : Entry} {cs : List Node} :
      AddsToSection (.mk name (before ++ after) cs) (.mk name (before ++ e :: after) cs)
  | child {name : String} {es : List Entry} {before after : List Node} {c : Node}
      (unknown : c.name ∉ settingsIn name) :
      AddsToSection (.mk name es (before ++ after)) (.mk name es (before ++ c :: after))
  | within {name : String} {es : List Entry} {before after : List Node} {c c' : Node}
      (adds : AddsToChild c c') :
      AddsToSection (.mk name es (before ++ c :: after)) (.mk name es (before ++ c' :: after))

/-- One more thing that is not looked at in a document. -/
inductive Adds : Document → Document → Prop
  | node {before after : Document} {n : Node} (unknown : n.name ∉ sections) :
      Adds (before ++ after) (before ++ n :: after)
  | within {before after : Document} {n n' : Node} (adds : AddsToSection n n') :
      Adds (before ++ n :: after) (before ++ n' :: after)

section Layers

variable {σ : Type} {apply : σ → Node → Except ConfigFault σ} {s t : σ} {before after : List Node}
  {n n' : Node} {name : String}

theorem foldlM_insert (skips : ∀ s, apply s n = .ok s) :
    (before ++ n :: after).foldlM apply s = (before ++ after).foldlM apply s := by
  rw [List.foldlM_append, List.foldlM_append]
  congr 1
  funext u
  exact foldlM_cons_ok (skips u)

theorem foldlM_replace (same : ∀ s, apply s n' = apply s n) :
    (before ++ n' :: after).foldlM apply s = (before ++ n :: after).foldlM apply s := by
  rw [List.foldlM_append, List.foldlM_append]
  congr 1
  funext u
  rw [List.foldlM_cons, List.foldlM_cons, same]

theorem foldlM_replace_ok (follows : ∀ s t, apply s n = .ok t → apply s n' = .ok t)
    (h : (before ++ n :: after).foldlM apply s = .ok t) :
    (before ++ n' :: after).foldlM apply s = .ok t := by
  rw [List.foldlM_append, bind_eq_ok] at h ⊢
  obtain ⟨u, hu, h⟩ := h
  rw [List.foldlM_cons, bind_eq_ok] at h
  obtain ⟨v, hv, h⟩ := h
  exact ⟨u, hu, (foldlM_cons_ok (follows u v hv)).trans h⟩

theorem last?_insert (h : n.name ≠ name) :
    last? (before ++ n :: after) name = last? (before ++ after) name := by
  simp [last?, List.find?_append, h]

end Layers

/-- What is looked at in a child is the same. -/
structure Alike (c c' : Node) : Prop where
  name : c'.name = c.name
  argument : argument? c' = argument? c

namespace Alike

variable {c c' : Node} (h : Alike c c')
include h

theorem text?_eq : text? c' = text? c := by
  rw [text?, text?, h.argument]

theorem integer?_eq : integer? c' = integer? c := by
  rw [integer?, integer?, h.argument]

theorem server_apply (s : Server) : s.apply c' = s.apply c := by
  simp only [Server.apply_eq, Server.bindOf, h.name, h.text?_eq]

theorem sweeping_apply (s : Sweeping) : s.apply c' = s.apply c := by
  simp only [Sweeping.apply_eq, Sweeping.intervalOf, h.name, h.text?_eq]

theorem postProcessing_apply (p : PostProcessing) : p.apply c' = p.apply c := by
  simp only [PostProcessing.apply_eq, PostProcessing.consumersOf, h.name, h.integer?_eq]

theorem last?_bind_text? (before after : List Node) (name : String) :
    (last? (before ++ c' :: after) name).bind text? =
      (last? (before ++ c :: after) name).bind text? := by
  by_cases hn : c.name = name
  · have hn' : c'.name = name := h.name.trans hn
    simp only [last?, List.reverse_append, List.reverse_cons, List.append_assoc,
      List.find?_append]
    cases after.reverse.find? (·.name = name) <;> simp [hn, hn', h.text?_eq]
  · rw [last?_insert hn, last?_insert (h.name ▸ hn)]

end Alike

theorem argument?_addsEntry {name : String} {es es' : List Entry} {cs : List Node}
    (h : AddsEntry es es') : argument? (.mk name es' cs) = argument? (.mk name es cs) := by
  simp only [argument?, Node.entries]
  cases h with
  | property named => simp [List.find?_append, named]
  | @argument before after e later =>
      obtain ⟨a, ha, unnamed⟩ := later
      have found : (before.find? (·.name = none)).isSome = true :=
        List.find?_isSome.mpr ⟨a, ha, by simpa using unnamed⟩
      obtain ⟨b, hb⟩ := Option.isSome_iff_exists.mp found
      simp [List.find?_append, hb]

theorem AddsToChild.alike {c c' : Node} (h : AddsToChild c c') : Alike c c' := by
  cases h with
  | entry adds => exact ⟨rfl, argument?_addsEntry adds⟩
  | child => exact ⟨rfl, rfl⟩

namespace AddsToSection

variable {n n' : Node} (h : AddsToSection n n')
include h

theorem name_eq : n'.name = n.name := by
  cases h <;> rfl

theorem foldlM_children {σ : Type} {apply : σ → Node → Except ConfigFault σ}
    (skips : ∀ c : Node, c.name ∉ settingsIn n.name → ∀ s, apply s c = .ok s)
    (looks : ∀ c c', Alike c c' → ∀ s, apply s c' = apply s c) (s : σ) :
    n'.children.foldlM apply s = n.children.foldlM apply s := by
  cases h with
  | entry => rfl
  | child unknown => exact foldlM_insert (skips _ unknown)
  | within adds => exact foldlM_replace (looks _ _ adds.alike)

theorem lastText?_eq {name : String} (known : name ∈ settingsIn n.name) :
    lastText? n' name = lastText? n name := by
  cases h with
  | entry => rfl
  | child unknown =>
      exact congrArg (·.bind text?) (last?_insert fun hc => unknown (hc ▸ known))
  | within adds => exact adds.alike.last?_bind_text? ..

theorem server_read (named : n.name = "server") : Server.read n' = Server.read n := by
  refine h.foldlM_children (fun c unknown s => ?_) (fun _ _ => Alike.server_apply) {}
  rw [Server.apply_eq]
  simp_all [settingsIn]

theorem sweeping_read (named : n.name = "notifier") : Sweeping.read n' = Sweeping.read n := by
  refine h.foldlM_children (fun c unknown s => ?_) (fun _ _ => Alike.sweeping_apply) {}
  rw [Sweeping.apply_eq]
  simp_all [settingsIn]

theorem postProcessing_read (named : n.name = "coordinator") :
    PostProcessing.read n' = PostProcessing.read n := by
  refine h.foldlM_children (fun c unknown s => ?_) (fun _ _ => Alike.postProcessing_apply) {}
  rw [PostProcessing.apply_eq]
  simp_all [settingsIn]

theorem engine_read (named : n.name = "workflow-engine") : Engine.read n' = Engine.read n := by
  have same {name : String} (known : name ∈ settingsIn "workflow-engine") :
      lastText? n' name = lastText? n name := h.lastText?_eq (named ▸ known)
  unfold Engine.read
  rw [same (by decide), same (by decide), same (by decide), same (by decide)]

theorem settings_apply (s : Settings) : s.apply n' = s.apply n := by
  rw [Settings.apply_eq, Settings.apply_eq, h.name_eq]
  split_ifs with server sweeping postProcessing engine
  · rw [h.server_read server]
  · rw [h.sweeping_read sweeping]
  · rw [h.postProcessing_read postProcessing]
  · rw [h.engine_read engine]
  · rfl

end AddsToSection

theorem Adds.ofDocument_eq {d d' : Document} (h : Adds d d') :
    Settings.ofDocument d' = Settings.ofDocument d := by
  cases h with
  | node unknown =>
      refine foldlM_insert fun s => ?_
      rw [Settings.apply_eq]
      simp_all [sections]
  | within adds => exact foldlM_replace adds.settings_apply

/-- Whatever is added and taken away. -/
theorem ofDocument_eq_of_adds {d d' : Document} (h : Relation.EqvGen Adds d d') :
    Settings.ofDocument d' = Settings.ofDocument d := by
  induction h with
  | rel d d' adds => exact adds.ofDocument_eq
  | refl d => rfl
  | symm d d' _ ih => exact ih.symm
  | trans d d' d'' _ _ ih ih' => exact ih'.trans ih

/-! ### Order -/

/-- The same nodes, those of one name in the same order. -/
def SameButOrder (l l' : List Node) : Prop :=
  ∀ name, l'.filter (·.name = name) = l.filter (·.name = name)

/-- The nodes of a document, or the children of one of them, in another order. -/
inductive Reorders : Document → Document → Prop
  | nodes {d d' : Document} (same : SameButOrder d d') : Reorders d d'
  | children {before after : Document} {name : String} {es : List Entry} {cs cs' : List Node}
      (same : SameButOrder cs cs') :
      Reorders (before ++ .mk name es cs :: after) (before ++ .mk name es cs' :: after)

namespace SameButOrder

variable {l l' : List Node} (same : SameButOrder l l')
include same

theorem symm : SameButOrder l' l := fun name => (same name).symm

theorem mem_iff {n : Node} : n ∈ l' ↔ n ∈ l := by
  have here (l : List Node) : n ∈ l ↔ n ∈ l.filter (·.name = n.name) := by simp
  rw [here l', here l, same]

theorem sound {Faulty : Node → ConfigFault → Prop} (h : ∀ n ∈ l, ∀ f, ¬ Faulty n f) :
    ∀ n ∈ l', ∀ f, ¬ Faulty n f :=
  fun n hn => h n (same.mem_iff.mp hn)

theorem last?_eq (name : String) : last? l' name = last? l name := by
  rw [last?, last?, ← List.getLast?_filter, ← List.getLast?_filter, same]

theorem decides {α : Type} {name : String} {value : Node → Except ConfigFault α} {default a : α}
    (h : Decides l name value default a) : Decides l' name value default a := by
  rwa [Decides, same.last?_eq]

theorem server_decided {v : Server} (h : v.Decided l) : v.Decided l' :=
  ⟨same.decides h.bind, same.decides h.publicUrl⟩

theorem engine_decided {v : Engine} (h : v.Decided l) : v.Decided l' where
  url := by rw [same.last?_eq, h.url]
  username := same.decides h.username
  password := same.decides h.password
  releaseProcess := same.decides h.releaseProcess

theorem settings_decided {s : Settings} (h : s.Decided l) : s.Decided l' :=
  ⟨same.decides h.server, same.decides h.sweeping, same.decides h.postProcessing,
    same.decides h.engine⟩

theorem ofDocument_ok {s : Settings} (h : Settings.ofDocument l = .ok s) :
    Settings.ofDocument l' = .ok s := by
  rw [Settings.ofDocument_eq_ok] at h ⊢
  exact ⟨same.sound h.1, same.settings_decided h.2⟩

end SameButOrder

section Children

variable {n n' : Node} (same : SameButOrder n.children n'.children)
include same

theorem server_read_ok (v : Server) (h : Server.read n = .ok v) : Server.read n' = .ok v := by
  rw [Server.read_eq_ok] at h ⊢
  exact ⟨same.sound h.1, same.server_decided h.2⟩

theorem sweeping_read_ok (v : Sweeping) (h : Sweeping.read n = .ok v) :
    Sweeping.read n' = .ok v := by
  rw [Sweeping.read_eq_ok] at h ⊢
  exact ⟨same.sound h.1, same.decides h.2⟩

theorem postProcessing_read_ok (v : PostProcessing) (h : PostProcessing.read n = .ok v) :
    PostProcessing.read n' = .ok v := by
  rw [PostProcessing.read_eq_ok] at h ⊢
  exact ⟨same.sound h.1, same.decides h.2⟩

theorem engine_read_ok (v : Engine) (h : Engine.read n = .ok v) : Engine.read n' = .ok v := by
  rw [Engine.read_eq_ok] at h ⊢
  exact same.engine_decided h

theorem settings_apply_ok (name : n'.name = n.name) {s t : Settings} (h : s.apply n = .ok t) :
    s.apply n' = .ok t := by
  rw [Settings.apply_eq] at h ⊢
  rw [name]
  split_ifs at h ⊢
  · exact map_ok (server_read_ok same) h
  · exact map_ok (sweeping_read_ok same) h
  · exact map_ok (postProcessing_read_ok same) h
  · exact map_ok (engine_read_ok same) h
  · exact h

end Children

theorem Reorders.symm {d d' : Document} (h : Reorders d d') : Reorders d' d := by
  cases h with
  | nodes same => exact .nodes same.symm
  | children same => exact .children same.symm

theorem Reorders.ofDocument_ok {d d' : Document} (h : Reorders d d') {s : Settings}
    (hs : Settings.ofDocument d = .ok s) : Settings.ofDocument d' = .ok s := by
  cases h with
  | nodes same => exact same.ofDocument_ok hs
  | @children _ _ name es cs cs' same =>
      have follows (s t : Settings) (h : s.apply (.mk name es cs) = .ok t) :
          s.apply (.mk name es cs') = .ok t :=
        @settings_apply_ok (.mk name es cs) (.mk name es cs') same rfl s t h
      exact foldlM_replace_ok follows hs

/-- However often the order is changed. -/
theorem ofDocument_ok_of_reorders {d d' : Document} (h : Relation.EqvGen Reorders d d')
    (s : Settings) : Settings.ofDocument d' = .ok s ↔ Settings.ofDocument d = .ok s := by
  induction h with
  | rel d d' reorders => exact ⟨reorders.symm.ofDocument_ok, reorders.ofDocument_ok⟩
  | refl d => exact Iff.rfl
  | symm d d' _ ih => exact ih.symm
  | trans d d' d'' _ _ ih ih' => exact ih'.trans ih

end Foreman.Config
