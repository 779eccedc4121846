/-!
Finite tables: a list of pairs with distinct keys, in the order in which the keys were first
inserted. `get?` is the view through which every other operation is described.
-/

namespace Foreman

structure Table (κ : Type u) (ν : Type v) where
  entries : List (κ × ν)
  distinct : (entries.map Prod.fst).Nodup
deriving DecidableEq

namespace Table

variable {κ : Type u} {ν : Type v}

theorem nodup_filter {l : List (κ × ν)} (keep : κ × ν → Bool) (h : (l.map Prod.fst).Nodup) :
    ((l.filter keep).map Prod.fst).Nodup :=
  h.sublist ((List.filter_sublist (p := keep)).map _)

variable [DecidableEq κ]

/-- Replaces the pair with key `k` where it stands, or adds one at the end. -/
def place (k : κ) (v : ν) : List (κ × ν) → List (κ × ν)
  | [] => [(k, v)]
  | (k', v') :: rest => if k' = k then (k, v) :: rest else (k', v') :: place k v rest

def find? (k : κ) : List (κ × ν) → Option ν
  | [] => none
  | (k', v') :: rest => if k' = k then some v' else find? k rest

theorem mem_keys_place {k k' : κ} {v : ν} {l : List (κ × ν)} :
    k' ∈ (place k v l).map Prod.fst ↔ k' = k ∨ k' ∈ l.map Prod.fst := by
  induction l with
  | nil => simp [place]
  | cons p rest ih =>
    obtain ⟨a, b⟩ := p
    by_cases h : a = k
    · simp [place, h]
    · simp only [place, h, if_false, List.map_cons, List.mem_cons, ih]
      constructor
      · rintro (h | h | h) <;> simp [h]
      · rintro (h | h | h) <;> simp [h]

theorem nodup_place {k : κ} {v : ν} {l : List (κ × ν)} (h : (l.map Prod.fst).Nodup) :
    ((place k v l).map Prod.fst).Nodup := by
  induction l with
  | nil => simp [place]
  | cons p rest ih =>
    obtain ⟨a, b⟩ := p
    rw [List.map_cons, List.nodup_cons] at h
    by_cases hk : a = k
    · subst hk
      simpa [place] using h
    · simp only [place, hk, if_false, List.map_cons, List.nodup_cons, mem_keys_place]
      exact ⟨by rintro (e | e) <;> simp_all, ih h.2⟩

def empty : Table κ ν := ⟨[], List.nodup_nil⟩

instance : Inhabited (Table κ ν) := ⟨empty⟩

instance : EmptyCollection (Table κ ν) := ⟨empty⟩

def get? (t : Table κ ν) (k : κ) : Option ν := find? k t.entries

def contains (t : Table κ ν) (k : κ) : Bool := (t.get? k).isSome

def insert (t : Table κ ν) (k : κ) (v : ν) : Table κ ν :=
  ⟨place k v t.entries, nodup_place t.distinct⟩

/-- Keeps the pairs that `keep` accepts. -/
def filter (t : Table κ ν) (keep : κ → ν → Bool) : Table κ ν :=
  ⟨t.entries.filter fun p => keep p.1 p.2, nodup_filter _ t.distinct⟩

def erase (t : Table κ ν) (k : κ) : Table κ ν := t.filter fun k' _ => decide (k' ≠ k)

def size (t : Table κ ν) : Nat := t.entries.length

def isEmpty (t : Table κ ν) : Bool := t.entries.isEmpty

def keys (t : Table κ ν) : List κ := t.entries.map Prod.fst

def values (t : Table κ ν) : List ν := t.entries.map Prod.snd

/-- Later pairs of a key replace earlier ones. -/
def ofList (l : List (κ × ν)) : Table κ ν := l.foldl (fun t p => t.insert p.1 p.2) empty

theorem find?_place {k k' : κ} {v : ν} {l : List (κ × ν)} :
    find? k' (place k v l) = if k = k' then some v else find? k' l := by
  induction l with
  | nil => simp [place, find?]
  | cons p rest ih =>
    obtain ⟨a, b⟩ := p
    by_cases h : a = k
    · subst h
      by_cases h' : a = k' <;> simp [place, find?, h']
    · by_cases h' : a = k'
      · subst h'
        simp [place, find?, h, Ne.symm h]
      · simp [place, find?, h, h', ih]

theorem find?_eq_none {k : κ} {l : List (κ × ν)} : find? k l = none ↔ k ∉ l.map Prod.fst := by
  induction l with
  | nil => simp [find?]
  | cons p rest ih =>
    obtain ⟨a, b⟩ := p
    by_cases h : a = k
    · simp [find?, h]
    · simp [find?, h, ih, Ne.symm h]

theorem find?_eq_some {k : κ} {v : ν} {l : List (κ × ν)} (h : (l.map Prod.fst).Nodup) :
    find? k l = some v ↔ (k, v) ∈ l := by
  induction l with
  | nil => simp [find?]
  | cons p rest ih =>
    obtain ⟨a, b⟩ := p
    rw [List.map_cons, List.nodup_cons] at h
    by_cases ha : a = k
    · subst ha
      have hn (v : ν) : (a, v) ∉ rest := fun hm => h.1 (List.mem_map.mpr ⟨_, hm, rfl⟩)
      simp [find?, hn, eq_comm]
    · simp [find?, ha, ih h.2, Ne.symm ha]

theorem find?_filter {k : κ} {keep : κ × ν → Bool} {l : List (κ × ν)}
    (h : (l.map Prod.fst).Nodup) :
    find? k (l.filter keep) = (find? k l).filter fun v => keep (k, v) := by
  induction l with
  | nil => rfl
  | cons p rest ih =>
    obtain ⟨a, b⟩ := p
    rw [List.map_cons, List.nodup_cons] at h
    by_cases ha : a = k
    · subst ha
      by_cases hk : keep (a, b)
      · simp [hk, find?, Option.filter]
      · have hn : find? a rest = none := find?_eq_none.2 h.1
        rw [List.filter_cons_of_neg (by simpa using hk), ih h.2, hn]
        simp [find?, Option.filter, hk]
    · by_cases hk : keep (a, b)
      · simp [hk, find?, ha, ih h.2]
      · rw [List.filter_cons_of_neg (by simpa using hk), ih h.2]
        simp [find?, ha]

@[simp] theorem get?_empty (k : κ) : (empty : Table κ ν).get? k = none := rfl

theorem get?_insert (t : Table κ ν) (k k' : κ) (v : ν) :
    (t.insert k v).get? k' = if k = k' then some v else t.get? k' := find?_place

theorem get?_insert_self (t : Table κ ν) (k : κ) (v : ν) : (t.insert k v).get? k = some v :=
  (get?_insert ..).trans (if_pos rfl)

theorem get?_insert_of_ne (t : Table κ ν) {k k' : κ} (h : k ≠ k') (v : ν) :
    (t.insert k v).get? k' = t.get? k' :=
  (get?_insert ..).trans (if_neg h)

/-- What is found after an insertion is what was inserted, or was found before under another key. -/
theorem get?_insert_cases {t : Table κ ν} {k k' : κ} {v w : ν}
    (h : (t.insert k v).get? k' = some w) : k = k' ∧ v = w ∨ k ≠ k' ∧ t.get? k' = some w := by
  rw [get?_insert] at h
  split at h
  next same => exact .inl ⟨same, Option.some.inj h⟩
  next other => exact .inr ⟨other, h⟩

theorem get?_filter (t : Table κ ν) (keep : κ → ν → Bool) (k : κ) :
    (t.filter keep).get? k = (t.get? k).filter (keep k) := find?_filter t.distinct

theorem get?_erase (t : Table κ ν) (k k' : κ) :
    (t.erase k).get? k' = if k = k' then none else t.get? k' := by
  rw [erase, get?_filter]
  by_cases h : k = k'
  · subst h
    cases t.get? k <;> simp
  · cases t.get? k' <;> simp [h, Ne.symm h, Option.filter]

theorem get?_eq_some (t : Table κ ν) {k : κ} {v : ν} : t.get? k = some v ↔ (k, v) ∈ t.entries :=
  find?_eq_some t.distinct

theorem mem_values (t : Table κ ν) {v : ν} : v ∈ t.values ↔ ∃ k, t.get? k = some v := by
  simp [values, get?_eq_some]

theorem contains_iff_mem (t : Table κ ν) (k : κ) : t.contains k = true ↔ k ∈ t.keys := by
  have h := @find?_eq_none κ ν _ k t.entries
  simp only [contains, get?, keys]
  cases hf : find? k t.entries <;> simp_all

end Table

end Foreman
