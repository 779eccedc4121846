import Foreman.Proofs.Chronology
import Foreman.Rehearsal.World
import Mathlib.Data.List.Induction

/-!
What the repositories answer after any saves. Tables may keep their rows in any order, and in another
one after each save; the answers depend on the last version of each row only.
-/

namespace Foreman

/-- The same entries, in whatever order. -/
def Table.Permutes {κ : Type u} {ν : Type v} (t t' : Table κ ν) : Prop := t.entries.Perm t'.entries

namespace Table

variable {κ : Type u} {ν : Type v} {t t' : Table κ ν}

theorem Permutes.refl (t : Table κ ν) : t.Permutes t := List.Perm.refl _

def reversed (t : Table κ ν) : Table κ ν :=
  ⟨t.entries.reverse, (t.entries.reverse_perm.map _).nodup_iff.mpr t.distinct⟩

theorem permutes_reversed (t : Table κ ν) : t.Permutes t.reversed := t.entries.reverse_perm.symm

theorem Permutes.get? [DecidableEq κ] (h : t.Permutes t') (k : κ) : t.get? k = t'.get? k := by
  ext v
  rw [get?_eq_some, get?_eq_some, h.mem_iff]

end Table

/-- The same rows, each table in whatever order. -/
structure Store.Permutes (s s' : Store) : Prop where
  versions : s.versions.Permutes s'.versions
  milestones : s.milestones.Permutes s'.milestones
  records : s.records.Permutes s'.records
  artifacts : s.artifacts.Permutes s'.artifacts
  attempts : s.attempts.Permutes s'.attempts

namespace Store

theorem Permutes.refl (s : Store) : s.Permutes s := ⟨.refl _, .refl _, .refl _, .refl _, .refl _⟩

def reversed (s : Store) : Store where
  versions := s.versions.reversed
  milestones := s.milestones.reversed
  records := s.records.reversed
  artifacts := s.artifacts.reversed
  attempts := s.attempts.reversed

theorem permutes_reversed (s : Store) : s.Permutes s.reversed where
  versions := s.versions.permutes_reversed
  milestones := s.milestones.permutes_reversed
  records := s.records.permutes_reversed
  artifacts := s.artifacts.permutes_reversed
  attempts := s.attempts.permutes_reversed

end Store

namespace Rehearsal

namespace Row

def kind : Row → RowKind
  | version _ => .version
  | milestone _ => .milestone
  | record _ => .record
  | artifact _ => .artifact
  | attempt _ => .attempt

def id : Row → ResourceId
  | version v => v.id
  | milestone m => m.id
  | record r => r.id
  | artifact a => a.id
  | attempt a => a.id

end Row

/-- A save is seen under the kind and the id of its row, and nowhere else. -/
theorem RowKind.find?_save (k : RowKind) (r : Row) (s : Store) (id : ResourceId) :
    k.find? (r.save s) id = if r.kind = k ∧ r.id = id then some r else k.find? s id := by
  cases r <;> cases k <;>
    simp only [RowKind.find?, Row.save, Row.kind, Row.id, Store.saveVersion, Store.saveMilestone,
      Store.saveRecord, Store.saveArtifact, Store.saveAttempt, Table.get?_insert, true_and, false_and,
      reduceCtorEq, if_false] <;>
    split <;> rfl

theorem RowKind.find?_permutes (k : RowKind) {s s' : Store} (h : s.Permutes s') (id : ResourceId) :
    k.find? s id = k.find? s' id := by
  cases k with
  | version => exact congrArg (Option.map Row.version) (h.versions.get? id)
  | milestone => exact congrArg (Option.map Row.milestone) (h.milestones.get? id)
  | record => exact congrArg (Option.map Row.record) (h.records.get? id)
  | artifact => exact congrArg (Option.map Row.artifact) (h.artifacts.get? id)
  | attempt => exact congrArg (Option.map Row.attempt) (h.attempts.get? id)

end Rehearsal

namespace Store

open Rehearsal

/-- What saves have led to, the oldest save first. After each of them the tables are in any order. -/
inductive Holds : List Row → Store → Prop
  | empty : Holds [] .empty
  | save {saves : List Row} {s s' : Store} (before : Holds saves s) (r : Row)
      (order : (r.save s).Permutes s') : Holds (saves ++ [r]) s'

/-- The saves one after the other, with new rows at the end of each table. -/
def inOrder (saves : List Row) : Store := saves.foldl (fun s r => r.save s) .empty

theorem inOrder_concat (saves : List Row) (r : Row) :
    inOrder (saves ++ [r]) = r.save (inOrder saves) := by
  simp [inOrder, List.foldl_append]

theorem holds_inOrder (saves : List Row) : Holds saves (inOrder saves) := by
  induction saves using List.reverseRecOn with
  | nil => exact .empty
  | append_singleton saves r ih =>
      rw [inOrder_concat]
      exact .save ih r (.refl _)

theorem holds_reversed (saves : List Row) (r : Row) :
    Holds (saves ++ [r]) (inOrder (saves ++ [r])).reversed := by
  refine .save (holds_inOrder saves) r ?_
  rw [inOrder_concat]
  exact permutes_reversed _

/-- The versions of one row in the order of their saves. -/
def versionsOf (saves : List Row) (k : RowKind) (id : ResourceId) : List Row :=
  saves.filter fun r => r.kind = k ∧ r.id = id

def lastSaved? (saves : List Row) (k : RowKind) (id : ResourceId) : Option Row :=
  (versionsOf saves k id).getLast?

variable {saves saves' : List Row} {s s' : Store} {k : RowKind} {id c m : ResourceId}

theorem versionsOf_concat (saves : List Row) (r : Row) (k : RowKind) (id : ResourceId) :
    versionsOf (saves ++ [r]) k id =
      versionsOf saves k id ++ if r.kind = k ∧ r.id = id then [r] else [] := by
  simp [versionsOf, List.filter_cons]

theorem lastSaved?_concat (saves : List Row) (r : Row) (k : RowKind) (id : ResourceId) :
    lastSaved? (saves ++ [r]) k id =
      if r.kind = k ∧ r.id = id then some r else lastSaved? saves k id := by
  rw [lastSaved?, versionsOf_concat]
  split
  next => exact List.getLast?_concat ..
  next => rw [List.append_nil, lastSaved?]

theorem id_of_lastSaved? {r : Row} (h : lastSaved? saves k id = some r) : r.id = id := by
  have member := List.mem_of_getLast? h
  simp only [versionsOf, List.mem_filter, decide_eq_true_eq] at member
  exact member.2.2

/-- Each lookup finds the row that was saved last. -/
theorem find?_eq_lastSaved? (h : Holds saves s) (k : RowKind) (id : ResourceId) :
    k.find? s id = lastSaved? saves k id := by
  induction h with
  | empty => cases k <;> rfl
  | save before r order ih =>
      rw [← k.find?_permutes order, k.find?_save, lastSaved?_concat, ih]

theorem get?_records (h : Holds saves s) {r : BuildRecord} :
    s.records.get? id = some r ↔ lastSaved? saves .record id = some (.record r) := by
  rw [← find?_eq_lastSaved? h]
  simp [RowKind.find?]

theorem get?_attempts (h : Holds saves s) {a : ReleaseAttempt} :
    s.attempts.get? id = some a ↔ lastSaved? saves .attempt id = some (.attempt a) := by
  rw [← find?_eq_lastSaved? h]
  simp [RowKind.find?]

/-! ### The records of a configuration -/

/-- The last versions that belong to the configuration, each once, those that ended last first. -/
structure ListsRecords (saves : List Row) (c : ResourceId) (records : List BuildRecord) : Prop where
  mem : ∀ r, r ∈ records ↔
    lastSaved? saves .record r.id = some (.record r) ∧ r.configurationId = c
  once : (records.map (·.id)).Nodup
  newestFirst : records.Pairwise fun a b => b.endedAt.le a.endedAt = true

theorem records_keyed (h : Holds saves s) {r : BuildRecord} (hr : s.records.get? id = some r) :
    r.id = id :=
  id_of_lastSaved? ((get?_records h).mp hr)

theorem attempts_keyed (h : Holds saves s) : s.AttemptsKeyed := fun _ _ ha =>
  id_of_lastSaved? ((get?_attempts h).mp ha)

theorem ids_records (h : Holds saves s) : s.records.values.map (·.id) = s.records.keys := by
  rw [Table.values, Table.keys, List.map_map]
  refine List.map_congr_left fun p hp => ?_
  exact records_keyed h (s.records.get?_eq_some.mpr hp)

theorem listsRecords (h : Holds saves s) (c : ResourceId) :
    ListsRecords saves c (s.recordsOf c) where
  mem r := by
    simp only [recordsOf, List.mem_mergeSort, List.mem_filter, Table.mem_values, decide_eq_true_eq]
    refine and_congr_left fun _ => ⟨?_, fun hr => ⟨r.id, (get?_records h).mpr hr⟩⟩
    rintro ⟨id, hr⟩
    rw [records_keyed h hr]
    exact (get?_records h).mp hr
  once := by
    have all : (s.records.values.map (·.id)).Nodup := ids_records h ▸ s.records.distinct
    have kept : ((s.records.values.filter (·.configurationId = c)).map (·.id)).Nodup :=
      all.sublist (List.filter_sublist.map _)
    exact (((List.mergeSort_perm _ _).map _).nodup_iff).mpr kept
  newestFirst := by
    have transitive (a b c : BuildRecord) (hab : a.endsAfter b = true) (hbc : b.endsAfter c = true) :
        a.endsAfter c = true := Instant.le_trans hbc hab
    have total (a b : BuildRecord) : (a.endsAfter b || b.endsAfter a) = true := by
      simpa [BuildRecord.endsAfter] using Instant.le_total b.endedAt a.endedAt
    exact List.pairwise_mergeSort transitive total _

end Store

/-! ### The latest attempt of a milestone -/

namespace ReleaseAttempt

/-- Started earlier, or at the same time under a smaller id. -/
def Precedes (a b : ReleaseAttempt) : Prop :=
  b.startingDate.le a.startingDate = false ∨
    a.startingDate = b.startingDate ∧ a.id.bits < b.id.bits

theorem Precedes.le {a b : ReleaseAttempt} (h : a.Precedes b) : a.le b = true := by
  rw [le_iff]
  rcases h with later | ⟨same, smaller⟩
  · have earlier : a.startingDate.le b.startingDate = true :=
      (Instant.le_total _ _).resolve_right (Bool.eq_false_iff.mp later)
    refine ⟨earlier, fun same => absurd (Instant.le_refl a.startingDate) ?_⟩
    rw [same] at later ⊢
    exact Bool.eq_false_iff.mp later
  · refine ⟨same ▸ Instant.le_refl _, fun _ => ?_⟩
    simpa [ResourceId.le] using Nat.le_of_lt (BitVec.lt_def.mp smaller)

theorem precedes_of_le {a b : ReleaseAttempt} (h : a.le b = true) (other : a.id ≠ b.id) :
    a.Precedes b := by
  obtain ⟨earlier, smaller⟩ := (le_iff a b).mp h
  by_cases same : a.startingDate = b.startingDate
  · refine .inr ⟨same, BitVec.lt_def.mpr ?_⟩
    have least : a.id.bits.toNat ≤ b.id.bits.toNat := by simpa [ResourceId.le] using smaller same
    refine Nat.lt_of_le_of_ne least fun equal => other ?_
    exact ResourceId.le_antisymm (smaller same) (by simp [ResourceId.le, equal])
  · refine .inl (Bool.eq_false_iff.mpr fun later => same ?_)
    exact Instant.le_antisymm earlier later

end ReleaseAttempt

namespace Store

open Rehearsal

variable {saves saves' : List Row} {s s' : Store} {m : ResourceId} {a b : ReleaseAttempt}

/-- The attempt is the last version of a row and belongs to the milestone. -/
def Belongs (saves : List Row) (m : ResourceId) (a : ReleaseAttempt) : Prop :=
  lastSaved? saves .attempt a.id = some (.attempt a) ∧ a.milestone = m

/-- The attempt belongs to the milestone, and all others that do come before it. -/
def IsLatest (saves : List Row) (m : ResourceId) (a : ReleaseAttempt) : Prop :=
  Belongs saves m a ∧ ∀ b, Belongs saves m b → b ≠ a → b.Precedes a

theorem belongs_iff (h : Holds saves s) :
    Belongs saves m a ↔ (∃ id, s.attempts.get? id = some a) ∧ a.milestone = m := by
  refine and_congr_left fun _ => ⟨fun ha => ⟨a.id, (get?_attempts h).mpr ha⟩, ?_⟩
  rintro ⟨id, ha⟩
  rw [attempts_keyed h id a ha]
  exact (get?_attempts h).mp ha

/-- Two attempts that belong to a milestone have ids of their own. -/
theorem Belongs.eq_of_id (ha : Belongs saves m a) (hb : Belongs saves m b) (same : a.id = b.id) :
    a = b := by
  have versions := ha.1.symm.trans (same ▸ hb.1)
  simpa using versions

theorem latestAttempt_eq_none_iff (h : Holds saves s) (m : ResourceId) :
    s.latestAttempt m = none ↔ ∀ a, ¬Belongs saves m a := by
  rw [latestAttempt_eq_none]
  constructor
  · intro absent a belongs
    obtain ⟨⟨id, stored⟩, own⟩ := (belongs_iff h).mp belongs
    exact absent id a stored own
  · intro absent id a stored own
    exact absent a ((belongs_iff h).mpr ⟨⟨id, stored⟩, own⟩)

theorem latestAttempt_eq_some_iff (h : Holds saves s) (m : ResourceId) (a : ReleaseAttempt) :
    s.latestAttempt m = some a ↔ IsLatest saves m a := by
  constructor
  · intro latest
    obtain ⟨stored, own, last⟩ := latestAttempt_spec latest
    have belongs : Belongs saves m a := (belongs_iff h).mpr ⟨stored, own⟩
    refine ⟨belongs, fun b hb other => ?_⟩
    obtain ⟨⟨id, stored⟩, own⟩ := (belongs_iff h).mp hb
    exact ReleaseAttempt.precedes_of_le (last id b stored own)
      fun same => other (hb.eq_of_id belongs same)
  · rintro ⟨belongs, last⟩
    obtain ⟨⟨id, stored⟩, own⟩ := (belongs_iff h).mp belongs
    rw [← own]
    refine latestAttempt_eq_some (attempts_keyed h) stored fun id' b hb hm => ?_
    by_cases same : b = a
    · exact same ▸ ReleaseAttempt.le_refl b
    · exact (last b ((belongs_iff h).mpr ⟨⟨id', hb⟩, hm.trans own⟩) same).le

theorem belongs_congr (same : ∀ id, versionsOf saves .attempt id = versionsOf saves' .attempt id) :
    Belongs saves m a ↔ Belongs saves' m a := by
  rw [Belongs, Belongs, lastSaved?, lastSaved?, same]

/-- What the order of the tables and the order between the saves of different rows have no part in. -/
theorem latestAttempt_of_versions (h : Holds saves s) (h' : Holds saves' s')
    (same : ∀ id, versionsOf saves .attempt id = versionsOf saves' .attempt id) (m : ResourceId) :
    s.latestAttempt m = s'.latestAttempt m := by
  ext a
  rw [latestAttempt_eq_some_iff h, latestAttempt_eq_some_iff h', IsLatest, IsLatest]
  simp only [belongs_congr same]

/-- After any saves, with the tables in any order, a lookup finds the version that was saved last under
the id; the records of a configuration are listed by their last versions, each once and the newest
first; and the latest attempt of a milestone is the one that is started last, under the largest id
if several are, or none if none belongs to the milestone. So it depends on the versions of each
row only. -/
theorem answers_of_saves (h : Holds saves s) :
    (∀ k id, k.find? s id = lastSaved? saves k id) ∧
      (∀ c, ListsRecords saves c (s.recordsOf c)) ∧
      (∀ m a, s.latestAttempt m = some a ↔ IsLatest saves m a) ∧
      (∀ m, s.latestAttempt m = none ↔ ∀ a, ¬Belongs saves m a) ∧
      ∀ saves' s', Holds saves' s' →
        (∀ id, versionsOf saves .attempt id = versionsOf saves' .attempt id) →
          ∀ m, s.latestAttempt m = s'.latestAttempt m :=
  ⟨find?_eq_lastSaved? h, listsRecords h, latestAttempt_eq_some_iff h, latestAttempt_eq_none_iff h,
    fun _ _ h' same => latestAttempt_of_versions h h' same⟩

/-- The record of a build that ended at noon. -/
def noonRecord (id configuration : ResourceId) : BuildRecord where
  id := id
  configurationId := configuration
  configurationName := "app"
  scmRepoUrl := "https://git.example.com/app.git"
  scmRevision := none
  status := ⟨.collectResults, .completed⟩
  submittedAt := noon
  endedAt := noon
  log := ""
  attributes := .empty

/-- A record moves to another configuration, and of two attempts that start together the one with the
larger id is saved first. -/
def entangled : List Row :=
  [.record (noonRecord ⟨1⟩ ⟨7⟩), .attempt (.start ⟨4⟩ ⟨9⟩ noon), .record (noonRecord ⟨1⟩ ⟨8⟩)] ++
    [.attempt (.start ⟨3⟩ ⟨9⟩ noon)]

theorem answers_of_saves_entangled :
    ∃ s, Holds entangled s ∧ s.attempts.keys = [⟨3⟩, ⟨4⟩] ∧
      noonRecord ⟨1⟩ ⟨7⟩ ∉ s.recordsOf ⟨7⟩ ∧ noonRecord ⟨1⟩ ⟨8⟩ ∈ s.recordsOf ⟨8⟩ ∧
      IsLatest entangled ⟨9⟩ (.start ⟨4⟩ ⟨9⟩ noon) := by
  have held : Holds entangled (inOrder entangled).reversed := holds_reversed _ _
  obtain ⟨-, records, latest, -⟩ := answers_of_saves held
  refine ⟨_, held, by decide +kernel, fun former => ?_, ?_, (latest ⟨9⟩ _).mp (by decide +kernel)⟩
  · exact absurd (((records ⟨7⟩).mem _).mp former) (by decide +kernel)
  · exact ((records ⟨8⟩).mem _).mpr (by decide +kernel)

end Store

end Foreman
