import Foreman.Proofs.Config.Rearrangement

/-!
What a document says about the settings. It is read if and only if each of its sections is, the last
section of a name decides, and whatever is read can be worked with.
-/

namespace Foreman.Config

open Kdl

/-- The node is no section, or it is one that reads. -/
structure Reads (n : Node) : Prop where
  server : n.name = "server" → ∃ v, Server.read n = .ok v
  sweeping : n.name = "notifier" → ∃ v, Sweeping.read n = .ok v
  postProcessing : n.name = "coordinator" → ∃ v, PostProcessing.read n = .ok v
  engine : n.name = "workflow-engine" → ∃ v, Engine.read n = .ok v

theorem exists_ok_iff {α : Type} {x : Except ConfigFault α} :
    (∃ a, x = .ok a) ↔ ∀ f, x ≠ .error f := by
  cases x <;> simp

theorem reads_iff {n : Node} : Reads n ↔ ∀ f, ¬ Settings.Faulty n f := by
  constructor
  · rintro ⟨server, sweeping, postProcessing, engine⟩ f faulty
    cases faulty with
    | server named fault => exact exists_ok_iff.mp (server named) f fault
    | sweeping named fault => exact exists_ok_iff.mp (sweeping named) f fault
    | postProcessing named fault => exact exists_ok_iff.mp (postProcessing named) f fault
    | engine named fault => exact exists_ok_iff.mp (engine named) f fault
  · intro sound
    exact ⟨fun named => exists_ok_iff.mpr fun f fault => sound f (.server named fault),
      fun named => exists_ok_iff.mpr fun f fault => sound f (.sweeping named fault),
      fun named => exists_ok_iff.mpr fun f fault => sound f (.postProcessing named fault),
      fun named => exists_ok_iff.mpr fun f fault => sound f (.engine named fault)⟩

/-- In each section that reads, the last child of a name decides. -/
structure ChildrenDecide (n : Node) : Prop where
  server : ∀ v, Server.read n = .ok v → v.Decided n.children
  sweeping : ∀ v, Sweeping.read n = .ok v → v.Decided n.children
  postProcessing : ∀ v, PostProcessing.read n = .ok v → v.Decided n.children
  engine : ∀ v, Engine.read n = .ok v → v.Decided n.children

theorem childrenDecide (n : Node) : ChildrenDecide n where
  server _ h := (Server.read_eq_ok.mp h).2
  sweeping _ h := (Sweeping.read_eq_ok.mp h).2
  postProcessing _ h := (PostProcessing.read_eq_ok.mp h).2
  engine _ h := Engine.read_eq_ok.mp h

/-- The durations of the document that are written with numbers of 64 bits are such numbers of seconds. -/
def Measured (d : Document) : Prop :=
  ∀ n ∈ d, n.name = "notifier" → ∀ c ∈ n.children, c.name = "cleanup-interval" →
    ∀ raw, text? c = some raw → Duration.Fits raw

/-- What the service relies on in its settings. -/
structure Workable (d : Document) (s : Settings) : Prop where
  consumers : 1 ≤ s.postProcessing.queueConsumers ∧ s.postProcessing.queueConsumers < UInt64.size
  interval : 1 ≤ s.sweeping.interval.seconds ∧ s.sweeping.interval.seconds < UInt64.size
  engine : (∃ n ∈ d, n.name = "workflow-engine") → s.engine.isSome = true
  url : ∀ e, s.engine = some e → ∃ n ∈ d, n.name = "workflow-engine" ∧
    lastText? n "url" = some e.url

section

variable {l : List Node} {d : Document} {s : Settings} {name : String}

theorem last?_eq_some {n : Node} (h : last? l name = some n) : n ∈ l ∧ n.name = name := by
  have named := List.find?_some h
  exact ⟨List.mem_reverse.mp (List.mem_of_find?_eq_some h), by simpa using named⟩

theorem last?_eq_none (h : last? l name = none) : ∀ n ∈ l, n.name ≠ name := by
  simpa [last?] using h

/-- What is decided is the value of a node of that name, or the default. -/
theorem Decides.cases {α : Type} {value : Node → Except ConfigFault α} {default a : α}
    (h : Decides l name value default a) :
    (∃ n ∈ l, n.name = name ∧ value n = .ok a) ∨ (∀ n ∈ l, n.name ≠ name) ∧ a = default := by
  unfold Decides at h
  cases hl : last? l name with
  | some n =>
      rw [hl] at h
      obtain ⟨hn, named⟩ := last?_eq_some hl
      exact .inl ⟨n, hn, named, h⟩
  | none =>
      rw [hl] at h
      exact .inr ⟨last?_eq_none hl, h⟩

theorem orMissing_eq_ok {α : Type} {field : String} {o : Option α} {a : α} :
    orMissing field o = .ok a ↔ o = some a := by
  cases o <;> simp [orMissing]

theorem consumers_bounds {c : Node} {n : Nat} (h : PostProcessing.consumersOf c = .ok n) :
    1 ≤ n ∧ n < UInt64.size := by
  obtain ⟨count, -, h⟩ := bind_eq_ok.mp h
  split at h
  next bounds =>
    obtain rfl := Except.ok.inj h
    omega
  next => cases h

theorem interval_bounds {c : Node} {i : Duration} (h : Sweeping.intervalOf c = .ok i)
    (fits : ∀ raw, text? c = some raw → Duration.Fits raw) :
    1 ≤ i.seconds ∧ i.seconds < UInt64.size := by
  obtain ⟨raw, hraw, h⟩ := bind_eq_ok.mp h
  have fits : Duration.Fits raw := fits raw (orMissing_eq_ok.mp hraw)
  obtain ⟨n, scale, written, positive, small, rfl⟩ := Duration.read_eq_ok.mp h
  exact ⟨Nat.mul_pos positive written.scale_pos, fits n scale written small⟩

theorem workable (measured : Measured d) (h : s.Decided d) : Workable d s where
  consumers := by
    rcases h.postProcessing.cases with ⟨n, -, -, hn⟩ | ⟨-, default⟩
    · rcases (PostProcessing.read_eq_ok.mp hn).2.cases with ⟨c, -, -, hc⟩ | ⟨-, default⟩
      · exact consumers_bounds hc
      · rw [default]
        decide
    · rw [default]
      decide
  interval := by
    rcases h.sweeping.cases with ⟨n, hn, named, hread⟩ | ⟨-, default⟩
    · rcases (Sweeping.read_eq_ok.mp hread).2.cases with ⟨c, hc, called, hi⟩ | ⟨-, default⟩
      · exact interval_bounds hi (measured n hn named c hc called)
      · rw [default]
        decide
    · rw [default]
      decide
  engine := by
    rintro ⟨n, hn, named⟩
    rcases h.engine.cases with ⟨m, -, -, hm⟩ | ⟨none, -⟩
    · obtain ⟨e, -, he⟩ := map_eq_ok.mp hm
      rw [← he, Option.isSome_some]
    · exact absurd named (none n hn)
  url := by
    intro e he
    rcases h.engine.cases with ⟨n, hn, named, hread⟩ | ⟨-, none⟩
    · obtain ⟨e', hread, he'⟩ := map_eq_ok.mp hread
      obtain rfl : e' = e := Option.some.inj (he'.trans he)
      exact ⟨n, hn, named, (Engine.read_eq_ok.mp hread).url⟩
    · rw [he] at none
      cases none

end

/-- A document is read if and only if each of its sections is, and else the first section that does not
read gives the fault. What is read is what the last section of each name says, and in it the last child
of each name, over the defaults; it has a queue consumer, an interval of a second at least, and a URL
for an engine. It stays the same when something is added or taken away that is not looked at, or when
nodes of different names change places. -/
theorem settings_of_document {d : Document} (measured : Measured d) :
    ((∃ s, Settings.ofDocument d = .ok s) ↔ ∀ n ∈ d, Reads n) ∧
    (∀ f, Settings.ofDocument d = .error f ↔ ∃ before n after, d = before ++ n :: after ∧
      (∀ m ∈ before, Reads m) ∧ Settings.Faulty n f) ∧
    (∀ s, Settings.ofDocument d = .ok s →
      s.Decided d ∧ (∀ n ∈ d, ChildrenDecide n) ∧ Workable d s) ∧
    (∀ d', Relation.EqvGen Adds d d' → Settings.ofDocument d' = Settings.ofDocument d) ∧
    (∀ d', Relation.EqvGen Reorders d d' →
      ∀ s, Settings.ofDocument d' = .ok s ↔ Settings.ofDocument d = .ok s) := by
  refine ⟨?_, fun f => ?_, fun s h => ?_, fun _ => ofDocument_eq_of_adds,
    fun _ => ofDocument_ok_of_reorders⟩
  · simp only [reads_iff]
    exact Settings.fails.exists_foldlM
  · simp only [reads_iff]
    exact Settings.fails.foldlM_eq_error
  · have decided : s.Decided d := (Settings.ofDocument_eq_ok.mp h).2
    exact ⟨decided, fun n _ => childrenDecide n, workable measured decided⟩

/-- Sections and children that come twice, things that are not looked at, and a text that is none. -/
def twice : Document := [
  .mk "server" [] [
    .mk "bind" [⟨none, .string "[::]:80"⟩] [],
    .mk "public-url" [⟨none, .string "u"⟩] []],
  .mk "workflow-engine" [] [.mk "url" [⟨none, .string "http://engine"⟩] []],
  .mk "notifier" [] [.mk "cleanup-interval" [⟨some "every", .null⟩, ⟨none, .string "90s"⟩] []],
  .mk "server" [⟨none, .string "second"⟩] [
    .mk "public-url" [⟨none, .string "v"⟩] [],
    .mk "port" [] [],
    .mk "public-url" [⟨none, .integer 8⟩, ⟨none, .string "w"⟩] []]]

theorem measured_twice : Measured twice := by
  have written : Duration.Written "90s".toList 90 1 :=
    ⟨[], ['9', '0'], 's', [], by decide +kernel, nofun, nofun, by decide, by decide⟩
  have only (n : Node) (hn : n ∈ twice) (named : n.name = "notifier") (c : Node)
      (hc : c ∈ n.children) : text? c = some "90s" := by
    simp only [twice, List.mem_cons, List.not_mem_nil, or_false] at hn
    rcases hn with rfl | rfl | rfl | rfl
    · simp [Node.name] at named
    · simp [Node.name] at named
    · obtain rfl := List.mem_singleton.mp hc
      decide +kernel
    · simp [Node.name] at named
  intro n hn named c hc _ raw hraw
  obtain rfl := Option.some.inj ((only n hn named c hc).symm.trans hraw)
  exact written.fits (by decide)

/-- The second section for the server says nothing of where to bind, and its last child unsets the URL. -/
theorem settings_of_document_twice : Measured twice ∧
    ∃ s, Settings.ofDocument twice = .ok s ∧ s.server = {} ∧ s.sweeping.interval = ⟨90, 0⟩ ∧
      s.Decided twice ∧ Workable twice s := by
  let s : Settings := {
    sweeping := ⟨⟨90, 0⟩⟩
    engine := some ⟨"http://engine", "", "", "milestone-release"⟩ }
  have read : Settings.ofDocument twice = .ok s := by decide +kernel
  obtain ⟨decided, -, workable⟩ := (settings_of_document measured_twice).2.2.1 s read
  exact ⟨measured_twice, s, read, rfl, rfl, decided, workable⟩

end Foreman.Config
