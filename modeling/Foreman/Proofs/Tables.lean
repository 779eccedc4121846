import Foreman.Table
import Mathlib.Data.List.Induction

/-!
What a table holds after the pairs of a list were inserted one by one: for each key the last of its
pairs, and what it held before for the keys without one.
-/

namespace Foreman

namespace Table

variable {κ : Type u} {ν : Type v} {κ' : Type u'} {ν' : Type v'} [DecidableEq κ]

theorem ofList_concat (l : List (κ × ν)) (k : κ) (v : ν) :
    ofList (l ++ [(k, v)]) = (ofList l).insert k v := by
  simp [ofList, List.foldl_append]

theorem get?_ofList_isSome (l : List (κ × ν)) (k : κ) :
    ((ofList l).get? k).isSome = true ↔ k ∈ l.map Prod.fst := by
  induction l using List.reverseRecOn with
  | nil => simp [ofList]
  | append_singleton l p ih =>
      rw [ofList_concat, get?_insert, List.map_append, List.mem_append, ← ih]
      by_cases h : p.1 = k
      · simp [h]
      · simp [h, Ne.symm h]

theorem mem_of_get?_ofList {l : List (κ × ν)} {k : κ} {v : ν} (h : (ofList l).get? k = some v) :
    (k, v) ∈ l := by
  induction l using List.reverseRecOn with
  | nil => cases h
  | append_singleton l p ih =>
      rw [ofList_concat] at h
      obtain ⟨rfl, rfl⟩ | ⟨-, h⟩ := get?_insert_cases h
      · exact List.mem_append_right _ (List.mem_singleton.mpr rfl)
      · exact List.mem_append_left _ (ih h)

/-- The pairs may be inserted under keys and as values that are made from them. -/
theorem get?_foldl_insert [DecidableEq κ'] {f : κ' → κ} (hf : ∀ a b, f a = f b → a = b) (g : ν' → ν)
    (l : List (κ' × ν')) (t : Table κ ν) (k : κ') :
    (l.foldl (fun t p => t.insert (f p.1) (g p.2)) t).get? (f k) =
      (((ofList l).get? k).map g).or (t.get? (f k)) := by
  induction l using List.reverseRecOn with
  | nil => simp [ofList]
  | append_singleton l p ih =>
      rw [List.foldl_append, List.foldl_cons, List.foldl_nil, ofList_concat, get?_insert,
        get?_insert]
      by_cases h : p.1 = k
      · simp [h]
      · rw [if_neg h, if_neg fun he => h (hf _ _ he), ih]

theorem get?_foldl_insert_of_ne {f : κ' → κ} (g : ν' → ν) (l : List (κ' × ν')) (t : Table κ ν)
    {k : κ} (hk : ∀ a, f a ≠ k) :
    (l.foldl (fun t p => t.insert (f p.1) (g p.2)) t).get? k = t.get? k := by
  induction l using List.reverseRecOn with
  | nil => rfl
  | append_singleton l p ih =>
      rw [List.foldl_append, List.foldl_cons, List.foldl_nil, get?_insert_of_ne _ (hk p.1), ih]

/-- A key of the list is found afterwards, whatever was there before. -/
theorem exists_get?_foldl_insert [DecidableEq κ'] {f : κ' → κ} (hf : ∀ a b, f a = f b → a = b)
    (g : ν' → ν) (l : List (κ' × ν')) (t : Table κ ν) {k : κ'} (hk : k ∈ l.map Prod.fst) :
    ∃ v, (l.foldl (fun t p => t.insert (f p.1) (g p.2)) t).get? (f k) = some v := by
  obtain ⟨v, hv⟩ := Option.isSome_iff_exists.mp ((get?_ofList_isSome l k).mpr hk)
  exact ⟨g v, by rw [get?_foldl_insert hf, hv]; rfl⟩

omit [DecidableEq κ] in
theorem ext_entries {t t' : Table κ ν} (h : t.entries = t'.entries) : t = t' := by
  cases t
  cases t'
  cases h
  rfl

theorem erase_eq_self {t : Table κ ν} {k : κ} (h : t.get? k = none) : t.erase k = t := by
  have hk : k ∉ t.keys := by
    rw [← contains_iff_mem, contains, h]
    simp
  apply ext_entries
  refine List.filter_eq_self.mpr fun p hp => ?_
  have hp : p.1 ∈ t.keys := List.mem_map_of_mem hp
  exact decide_eq_true fun he => hk (he ▸ hp)

theorem place_eq_self {k : κ} {v : ν} {l : List (κ × ν)} (h : find? k l = some v) :
    place k v l = l := by
  induction l with
  | nil => cases h
  | cons p rest ih =>
      by_cases hk : p.1 = k
      · obtain rfl : p.2 = v := by simpa [find?, hk] using h
        simp [place, ← hk]
      · rw [place, if_neg hk, ih (by simpa [find?, hk] using h)]

theorem insert_eq_self {t : Table κ ν} {k : κ} {v : ν} (h : t.get? k = some v) :
    t.insert k v = t :=
  ext_entries (place_eq_self h)

theorem place_of_not_mem {k : κ} {v : ν} {l : List (κ × ν)} (h : k ∉ l.map Prod.fst) :
    place k v l = l ++ [(k, v)] := by
  induction l with
  | nil => rfl
  | cons p rest ih =>
      rw [List.map_cons, List.mem_cons, not_or] at h
      rw [place, if_neg (Ne.symm h.1), ih h.2, List.cons_append]

/-- A list of pairs with distinct keys makes the table with these entries. -/
theorem entries_ofList {l : List (κ × ν)} (h : (l.map Prod.fst).Nodup) :
    (ofList l).entries = l := by
  induction l using List.reverseRecOn with
  | nil => rfl
  | append_singleton l p ih =>
      rw [List.map_append, List.nodup_append] at h
      have fresh : p.1 ∉ l.map Prod.fst := fun hp => h.2.2 _ hp _ (by simp) rfl
      rw [ofList_concat]
      show place p.1 p.2 (ofList l).entries = l ++ [p]
      rw [ih h.1, place_of_not_mem fresh]

theorem ofList_entries (t : Table κ ν) : ofList t.entries = t :=
  ext_entries (entries_ofList t.distinct)

theorem isEmpty_eq_false_iff (t : Table κ ν) :
    t.isEmpty = false ↔ ∃ k v, t.get? k = some v := by
  simp only [get?_eq_some, isEmpty, List.isEmpty_eq_false_iff_exists_mem, Prod.exists]

end Table

end Foreman
