import Foreman.Proofs.Json.Reading
import Foreman.Proofs.Tables
import Foreman.Wire.Basic
import Mathlib.Data.List.Forall2
import Mathlib.Data.List.Nodup

/-!
Laws of decoders. A decoder reads a value off a tree if the tree is plain and stands for the value,
and it ensures a property if whatever it decodes has it. Both go through the forms that decoders
are made of, so the laws of a record follow from those of its fields.
-/

namespace Foreman.Json

variable {α β : Type}

section Except

variable {x : Except Fault α} {b : β}

theorem bind_eq_ok {f : α → Except Fault β} :
    (x >>= f) = .ok b ↔ ∃ a, x = .ok a ∧ f a = .ok b := by
  cases x <;> simp [bind, Except.bind]

theorem map_eq_ok {f : α → β} : f <$> x = .ok b ↔ ∃ a, x = .ok a ∧ f a = b := by
  cases x <;> simp

theorem seq_eq_ok {f : Except Fault (α → β)} :
    f <*> x = .ok b ↔ ∃ g a, f = .ok g ∧ x = .ok a ∧ g a = b := by
  cases f <;> cases x <;> simp [Seq.seq, Except.bind, Except.map]

end Except

/-- The tree is plain, and the decoder takes it for the value. -/
structure Decoder.Reads (d : Decoder α) (v : Json) (a : α) : Prop where
  plain : v.isPlain = true
  decodes : d v = .ok a

/-- Whatever is decoded has the property. -/
def Decoder.Ensures (d : Decoder α) (P : α → Prop) : Prop := ∀ v a, d v = .ok a → P a

namespace Decoder

theorem reads_string (s : String) : string.Reads (.string s) s := ⟨rfl, rfl⟩

theorem reads_bool (b : Bool) : bool.Reads (.bool b) b := ⟨rfl, rfl⟩

theorem reads_natBelow {bound n : Nat} (h : n < bound) (small : bound ≤ UInt64.size) :
    (natBelow bound).Reads (.ofNat n) n where
  plain := by
    rw [ofNat, isPlain, decide_eq_true_iff]
    omega
  decodes := if_pos h

theorem reads_reading {read : String → Option α} {s : String} {a : α} (h : read s = some a) :
    (reading read).Reads (.string s) a :=
  ⟨rfl, by simp [reading, h]⟩

theorem reads_nameBeside {isFiller : Json → Bool} {read : String → Option α} {s : String} {a : α}
    (h : read s = some a) : (nameBeside isFiller read).Reads (.string s) a :=
  ⟨rfl, (reads_reading h).decodes⟩

theorem reads_option {d : Decoder α} {encode : α → Json} {o : Option α}
    (h : ∀ a ∈ o, d.Reads (encode a) a) (nonnull : ∀ a, encode a ≠ .null) :
    (option d).Reads (Wire.ofOption encode o) o := by
  cases o with
  | none => exact ⟨rfl, rfl⟩
  | some a =>
      obtain ⟨plain, decodes⟩ := h a rfl
      refine ⟨plain, ?_⟩
      unfold option
      split
      next heq => exact absurd heq (nonnull a)
      next => simp [Wire.ofOption, decodes]

theorem reads_list {d : Decoder α} {encode : α → Json} {l : List α}
    (h : ∀ a ∈ l, d.Reads (encode a) a) : (list d).Reads (Wire.ofList encode l) l := by
  have both : allPlain (l.map encode) = true ∧ items d (l.map encode) = .ok l := by
    induction l with
    | nil => exact ⟨rfl, rfl⟩
    | cons a l ih =>
        obtain ⟨plain, decodes⟩ := h a List.mem_cons_self
        obtain ⟨ihp, ihd⟩ := ih fun b hb => h b (List.mem_cons_of_mem _ hb)
        simp only [List.map_cons, allPlain, items, plain, ihp, decodes, ihd]
        exact ⟨rfl, rfl⟩
  exact ⟨both.1, both.2⟩

theorem reads_dictionary (t : Dictionary) :
    Decoder.Reads Wire.dictionary (Wire.ofDictionary t) t := by
  have both (l : List (String × String)) :
      allPlainFields (l.map fun p => (p.1, .string p.2)) = true ∧
        pairs string (l.map fun p => (p.1, .string p.2)) = .ok l := by
    induction l with
    | nil => exact ⟨rfl, rfl⟩
    | cons p l ih =>
        simp only [List.map_cons, allPlainFields, pairs, ih.1, ih.2]
        exact ⟨rfl, rfl⟩
  refine ⟨(both t.entries).1, ?_⟩
  simp only [Wire.dictionary, Wire.ofDictionary, dictionary, (both t.entries).2]
  exact congrArg Except.ok (Table.ofList_entries t)

theorem ensures_natBelow (bound : Nat) : (natBelow bound).Ensures (· < bound) := by
  intro v a h
  unfold natBelow at h
  split at h
  next n =>
    split at h
    next hn =>
      obtain rfl := Except.ok.inj h
      exact hn
    next => simp at h
  next => simp at h

theorem Ensures.option {d : Decoder α} {P : α → Prop} (h : d.Ensures P) :
    (option d).Ensures fun o => ∀ a ∈ o, P a := by
  intro v o ho a ha
  unfold Decoder.option at ho
  split at ho
  next =>
    obtain rfl := Except.ok.inj ho
    simp at ha
  next =>
    obtain ⟨b, hb, rfl⟩ := map_eq_ok.mp ho
    obtain rfl := Option.some.inj ha
    exact h v b hb

theorem Ensures.list {d : Decoder α} {P : α → Prop} (h : d.Ensures P) :
    (list d).Ensures fun l => ∀ a ∈ l, P a := by
  have each (vs : List Json) (l : List α) (hl : items d vs = .ok l) : ∀ a ∈ l, P a := by
    induction vs generalizing l with
    | nil =>
        obtain rfl := Except.ok.inj hl
        simp
    | cons v vs ih =>
        obtain ⟨a, ha, hl⟩ := bind_eq_ok.mp hl
        obtain ⟨as, has, hl⟩ := bind_eq_ok.mp hl
        obtain rfl := Except.ok.inj hl
        exact List.forall_mem_cons.mpr ⟨h v a ha, ih as has⟩
  intro v l hl
  unfold Decoder.list at hl
  split at hl
  next vs => exact each vs l hl
  next => simp at hl

end Decoder

/-! ### Records -/

namespace Fields

/-- The fields of the record stand in its order in the object, each of them passes its check, and
they make up the record, also where some of those that it can spare are missing. -/
structure Reads (f : Fields α) (fields spare : List (String × Json)) (a : α) : Prop where
  plain : allPlainFields fields = true
  checks : List.Forall₂ (fun m p => m.name = p.1 ∧ m.check p.2 = .ok ()) f.members fields
  known : ∀ p ∈ spare, p.1 ∈ fields.map Prod.fst
  builds : (fields.map Prod.fst).Nodup → ∀ look : String → Option Json,
    (∀ p ∈ fields, look p.1 = some p.2 ∨ look p.1 = none ∧ p ∈ spare) → f.build look = .ok a

/-- The object holds the fields but for some that can be spared, each once and in any order, and
besides only fields of other names, whatever their values are. -/
structure Holds (fields spare given : List (String × Json)) : Prop where
  once : ((given.filter (·.1 ∈ fields.map Prod.fst)).map Prod.fst).Nodup
  known : ∀ p ∈ given, p.1 ∈ fields.map Prod.fst → p ∈ fields
  whole : ∀ p ∈ fields, p ∈ given ∨ p ∈ spare
  others : ∀ p ∈ given, p.1 ∉ fields.map Prod.fst → p.2.isCut = false ∧ p.2 ≠ .flaw .key

/-- Whatever record is made of the fields has the property. -/
def Ensures (f : Fields α) (P : α → Prop) : Prop := ∀ look a, f.build look = .ok a → P a

theorem allPlainFields_append (fs gs : List (String × Json)) :
    allPlainFields (fs ++ gs) = (allPlainFields fs && allPlainFields gs) := by
  induction fs with
  | nil => rfl
  | cons p fs ih => simp [allPlainFields, ih, Bool.and_assoc]

variable {d : Decoder α} {v : Json} {a : α} {P : α → Prop}

theorem check_eq_ok (h : d v = .ok a) : check d v = .ok () := by
  rw [check, h]
  rfl

theorem reads_required (name : String) (h : d.Reads v a) :
    (required name d).Reads [(name, v)] [] a where
  plain := by simp [allPlainFields, h.plain]
  checks := by simp [required, check_eq_ok h.decodes]
  known := by simp
  builds _ look hlook := by
    have here : look name = some v := by simpa using hlook (name, v) List.mem_cons_self
    simp [required, here, h.decodes]

theorem reads_optional {o : Option α} (name : String) (h : d.option.Reads v o) :
    (optional name d).Reads [(name, v)] [(name, .null)] o where
  plain := by simp [allPlainFields, h.plain]
  checks := by simp [optional, check_eq_ok h.decodes]
  known := by simp
  builds _ look hlook := by
    rcases hlook (name, v) List.mem_cons_self with here | ⟨missing, null⟩
    · simp [optional, here, h.decodes]
    · obtain rfl : v = .null := by simpa using null
      obtain rfl := Except.ok.inj h.decodes
      simp [optional, missing]

theorem reads_defaulted {default : α} (name : String) {w : Json} (hw : d w = .ok default)
    (h : d.Reads v a) : (defaulted name d default).Reads [(name, v)] [(name, w)] a where
  plain := by simp [allPlainFields, h.plain]
  checks := by simp [defaulted, check_eq_ok h.decodes]
  known := by simp
  builds _ look hlook := by
    rcases hlook (name, v) List.mem_cons_self with here | ⟨missing, same⟩
    · simp [defaulted, here, h.decodes]
    · obtain rfl : v = w := by simpa using same
      obtain rfl := Except.ok.inj (hw.symm.trans h.decodes)
      simp [defaulted, missing]

theorem Reads.map {f : Fields α} {fields spare : List (String × Json)} (g : α → β)
    (h : f.Reads fields spare a) : (g <$> f).Reads fields spare (g a) where
  plain := h.plain
  checks := h.checks
  known := h.known
  builds distinct look hlook := map_eq_ok.mpr ⟨a, h.builds distinct look hlook, rfl⟩

theorem Reads.seq {f : Fields (α → β)} {x : Fields α} {fs gs ss ts : List (String × Json)}
    {g : α → β} (hf : f.Reads fs ss g) (hx : x.Reads gs ts a) :
    (f <*> x).Reads (fs ++ gs) (ss ++ ts) (g a) where
  plain := by rw [allPlainFields_append, hf.plain, hx.plain]; rfl
  checks := List.rel_append hf.checks hx.checks
  known p hp := by
    rw [List.map_append, List.mem_append]
    exact (List.mem_append.mp hp).imp (hf.known p) (hx.known p)
  builds distinct look hlook := by
    rw [List.map_append, List.nodup_append] at distinct
    obtain ⟨left, right, apart⟩ := distinct
    -- A field of the one part is not spared by the other one, which does not know its name.
    refine seq_eq_ok.mpr ⟨g, a, hf.builds left look fun p hp => ?_,
      hx.builds right look fun p hp => ?_, rfl⟩
    · refine (hlook p (List.mem_append_left _ hp)).imp_right (And.imp_right fun spare => ?_)
      refine (List.mem_append.mp spare).resolve_right fun hs => ?_
      exact apart p.1 (List.mem_map_of_mem hp) p.1 (hx.known p hs) rfl
    · refine (hlook p (List.mem_append_right _ hp)).imp_right (And.imp_right fun spare => ?_)
      refine (List.mem_append.mp spare).resolve_left fun hs => ?_
      exact apart p.1 (hf.known p hs) p.1 (List.mem_map_of_mem hp) rfl

/-- Names tell the fields apart, so each field finds its own member. -/
theorem exists_find?_member {members : List Member} {fields : List (String × Json)}
    (h : List.Forall₂ (fun m p => m.name = p.1 ∧ m.check p.2 = .ok ()) members fields)
    (distinct : (fields.map Prod.fst).Nodup) {p : String × Json} (hp : p ∈ fields) :
    ∃ m, members.find? (·.name = p.1) = some m ∧ m.check p.2 = .ok () := by
  induction h with
  | nil => simp at hp
  | @cons m q members fields hm _ ih =>
      rw [List.map_cons, List.nodup_cons] at distinct
      rcases List.mem_cons.mp hp with rfl | hp
      · exact ⟨m, by simp [hm.1], hm.2⟩
      · have other : m.name ≠ p.1 := fun he =>
          distinct.1 (hm.1 ▸ he ▸ List.mem_map_of_mem hp)
        obtain ⟨m', hm', ok⟩ := ih distinct.2 hp
        exact ⟨m', by simp [other, hm'], ok⟩

theorem find?_member_eq_none {members : List Member} {fields : List (String × Json)}
    (h : List.Forall₂ (fun m p => m.name = p.1 ∧ m.check p.2 = .ok ()) members fields) {k : String}
    (other : k ∉ fields.map Prod.fst) : members.find? (·.name = k) = none := by
  induction h with
  | nil => rfl
  | cons hm _ ih =>
      rw [List.map_cons, List.mem_cons, not_or] at other
      simp [hm.1, Ne.symm other.1, ih other.2]

/-- Two fields of one name are the same. -/
theorem eq_of_name_eq {fields : List (String × Json)} (distinct : (fields.map Prod.fst).Nodup)
    {p q : String × Json} (hp : p ∈ fields) (hq : q ∈ fields) (h : p.1 = q.1) : p = q :=
  List.inj_on_of_nodup_map distinct hp hq h

theorem isPlain_of_mem {fields : List (String × Json)} (plain : allPlainFields fields = true)
    {p : String × Json} (hp : p ∈ fields) : p.2.isPlain = true := by
  induction fields with
  | nil => cases hp
  | cons q fields ih =>
      obtain ⟨hq, rest⟩ := Bool.and_eq_true_iff.mp plain
      rcases List.mem_cons.mp hp with rfl | hp
      · exact hq
      · exact ih rest hp

theorem visit_eq_ok {members : List Member} {fields given : List (String × Json)}
    (h : List.Forall₂ (fun m p => m.name = p.1 ∧ m.check p.2 = .ok ()) members fields)
    (plain : allPlainFields fields = true) (distinct : (fields.map Prod.fst).Nodup)
    (known : ∀ p ∈ given, p.1 ∈ fields.map Prod.fst → p ∈ fields)
    (others : ∀ p ∈ given, p.1 ∉ fields.map Prod.fst → p.2.isCut = false ∧ p.2 ≠ .flaw .key)
    (once : ((given.filter (·.1 ∈ fields.map Prod.fst)).map Prod.fst).Nodup) (seen : List String)
    (fresh : ∀ p ∈ given, p ∈ fields → p.1 ∉ seen) : visit members seen given = .ok () := by
  induction given generalizing seen with
  | nil => rfl
  | cons p given ih =>
      obtain ⟨k, v⟩ := p
      rw [List.forall_mem_cons] at known others fresh
      by_cases hk : k ∈ fields.map Prod.fst
      · have mem : (k, v) ∈ fields := known.1 hk
        obtain ⟨m, hm, ok⟩ := exists_find?_member h distinct mem
        have hv : v.isPlain = true := isPlain_of_mem plain mem
        rw [List.filter_cons_of_pos (by simpa using hk), List.map_cons, List.nodup_cons] at once
        have rest := ih known.2 others.2 once.2 (k :: seen) fun p hp mem' => by
          rw [List.mem_cons, not_or]
          refine ⟨fun he => once.1 (List.mem_map.mpr ⟨p, ?_, he⟩), fresh.2 p hp mem'⟩
          exact List.mem_filter.mpr ⟨hp, by simpa [he] using hk⟩
        unfold visit
        split
        next => simp [isPlain] at hv
        next m' hm' _ =>
          obtain rfl := Option.some.inj (hm.symm.trans hm')
          rw [if_neg (fresh.1 mem)]
          exact bind_eq_ok.mpr ⟨(), ok, rest⟩
        next hn _ => simp [hm] at hn
      · obtain ⟨uncut, key⟩ := others.1 hk
        have hn := find?_member_eq_none h hk
        rw [List.filter_cons_of_neg (by simpa using hk)] at once
        have rest := ih known.2 others.2 once seen fresh.2
        unfold visit
        split
        next => exact absurd rfl key
        next hm _ => simp [hn] at hm
        next => rw [uncut, if_neg Bool.false_ne_true, rest]

theorem visitItems_eq_ok {members : List Member} {fields : List (String × Json)}
    (h : List.Forall₂ (fun m p => m.name = p.1 ∧ m.check p.2 = .ok ()) members fields) :
    visitItems members (fields.map Prod.snd) = .ok () := by
  induction h with
  | nil => rfl
  | cons hm _ ih => exact bind_eq_ok.mpr ⟨(), hm.2, ih⟩

theorem names_eq {members : List Member} {fields : List (String × Json)}
    (h : List.Forall₂ (fun m p => m.name = p.1 ∧ m.check p.2 = .ok ()) members fields) :
    members.map (·.name) = fields.map Prod.fst := by
  induction h with
  | nil => rfl
  | cons hm _ ih => rw [List.map_cons, List.map_cons, hm.1, ih]

theorem lookup_eq_some {given : List (String × Json)} {p : String × Json} (hp : p ∈ given)
    (same : ∀ q ∈ given, q.1 = p.1 → q = p) : given.lookup p.1 = some p.2 := by
  induction given with
  | nil => cases hp
  | cons q given ih =>
      obtain ⟨k, v⟩ := q
      rw [List.forall_mem_cons] at same
      by_cases hk : p.1 = k
      · obtain rfl := same.1 hk.symm
        exact List.lookup_cons_self
      · rw [List.lookup_cons, beq_false_of_ne hk]
        exact ih ((List.mem_cons.mp hp).resolve_left fun he => hk (by rw [he])) same.2

theorem lookup_eq_none {given : List (String × Json)} {p : String × Json} (hp : p ∉ given)
    (same : ∀ q ∈ given, q.1 = p.1 → q = p) : given.lookup p.1 = none :=
  List.lookup_eq_none_iff.mpr fun q hq => bne_iff_ne.mpr fun he => hp (same q hq he.symm ▸ hq)

variable {f : Fields α} {fields spare : List (String × Json)}

/-- A record is read off any object that holds its fields. -/
theorem Reads.decoder_object (h : f.Reads fields spare a) (distinct : (fields.map Prod.fst).Nodup)
    {given : List (String × Json)} (holds : Holds fields spare given) :
    f.decoder (.object given) = .ok a := by
  have visited : visit f.members [] given = .ok () :=
    visit_eq_ok h.checks h.plain distinct holds.known holds.others holds.once [] (by simp)
  refine bind_eq_ok.mpr ⟨(), visited, h.builds distinct _ fun p hp => ?_⟩
  have same : ∀ q ∈ given, q.1 = p.1 → q = p := fun q hq he =>
    eq_of_name_eq distinct (holds.known q hq (he ▸ List.mem_map_of_mem hp)) hp he
  by_cases here : p ∈ given
  · exact .inl (lookup_eq_some here same)
  · exact .inr ⟨lookup_eq_none here same, (holds.whole p hp).resolve_left here⟩

/-- A record is read off the array of the values of its fields. -/
theorem Reads.decoder_array (h : f.Reads fields spare a) (distinct : (fields.map Prod.fst).Nodup) :
    f.decoder (.array (fields.map Prod.snd)) = .ok a := by
  refine bind_eq_ok.mpr ⟨(), visitItems_eq_ok h.checks, h.builds distinct _ fun p hp => .inl ?_⟩
  have whole : (fields.map Prod.fst).zip (fields.map Prod.snd) = fields :=
    (List.zip_of_prod rfl rfl).symm
  rw [names_eq h.checks, whole]
  exact lookup_eq_some hp fun q hq => eq_of_name_eq distinct hq hp

/-- An object holds the fields that it consists of. -/
theorem holds_self (distinct : (fields.map Prod.fst).Nodup) (spare : List (String × Json)) :
    Holds fields spare fields where
  once := distinct.sublist (List.filter_sublist.map _)
  known _ hp _ := hp
  whole _ hp := .inl hp
  others _ hp hn := absurd (List.mem_map_of_mem hp) hn

/-- A record is read off the object of its fields. -/
theorem Reads.decoder (h : f.Reads fields spare a) (distinct : (fields.map Prod.fst).Nodup) :
    f.decoder.Reads (.object fields) a :=
  ⟨h.plain, h.decoder_object distinct (holds_self distinct spare)⟩

/-! ### What records ensure -/

theorem ensures_optional (name : String) (h : d.Ensures P) :
    (optional name d).Ensures fun o => ∀ a ∈ o, P a := by
  intro look o ho
  unfold optional at ho
  dsimp only at ho
  split at ho
  next v _ => exact h.option v o ho
  next =>
    obtain rfl := Except.ok.inj ho
    simp

theorem ensures_defaulted (name : String) {default : α} (h : d.Ensures P) (hdefault : P default) :
    (defaulted name d default).Ensures P := by
  intro look a ha
  unfold defaulted at ha
  dsimp only at ha
  split at ha
  next v _ => exact h v a ha
  next => exact Except.ok.inj ha ▸ hdefault

theorem ensures_map {f : Fields α} {g : α → β} {P : β → Prop} (h : ∀ a, P (g a)) :
    (g <$> f).Ensures P := by
  intro look b hb
  obtain ⟨a, -, rfl⟩ := map_eq_ok.mp hb
  exact h a

theorem Ensures.seq {f : Fields (α → β)} {x : Fields α} {P : β → Prop} {Q : α → Prop}
    (hf : f.Ensures fun g => ∀ a, Q a → P (g a)) (hx : x.Ensures Q) : (f <*> x).Ensures P := by
  intro look b hb
  obtain ⟨g, a, hg, ha, rfl⟩ := seq_eq_ok.mp hb
  exact hf look g hg a (hx look a ha)

/-- A field may hold whatever it likes if the property is not about it. -/
theorem Ensures.pass {f : Fields (α → β)} {x : Fields α} {P : β → Prop}
    (hf : f.Ensures fun g => ∀ a, P (g a)) : (f <*> x).Ensures P :=
  seq (Q := fun _ => True) (fun look g hg a _ => hf look g hg a) fun _ _ _ => trivial

theorem Ensures.decoder {f : Fields α} (h : f.Ensures P) : f.decoder.Ensures P := by
  intro v a ha
  unfold Fields.decoder at ha
  split at ha
  next =>
    obtain ⟨_, -, ha⟩ := bind_eq_ok.mp ha
    exact h _ a ha
  next =>
    obtain ⟨_, -, ha⟩ := bind_eq_ok.mp ha
    exact h _ a ha
  next => simp at ha

/-- What holds a variant with its name holds the variant without it. -/
theorem Holds.untagged {tag name : String} {fields spare given : List (String × Json)}
    (holds : Holds ((tag, .string name) :: fields) spare given) (apart : ∀ p ∈ fields, p.1 ≠ tag) :
    Holds fields spare (given.filter (·.1 ≠ tag)) where
  once := by
    rw [List.filter_filter]
    refine holds.once.sublist ((List.monotone_filter_right _ fun p hp => ?_).map _)
    simp only [Bool.and_eq_true, decide_eq_true_eq, List.map_cons, List.mem_cons] at hp ⊢
    exact .inr hp.1
  known p hp hn := by
    obtain ⟨here, other⟩ := List.mem_filter.mp hp
    refine (List.mem_cons.mp (holds.known p here (List.mem_cons_of_mem _ hn))).resolve_left ?_
    rintro rfl
    simp at other
  whole p hp := (holds.whole p (List.mem_cons_of_mem _ hp)).imp_left fun here =>
    List.mem_filter.mpr ⟨here, by simpa using apart p hp⟩
  others p hp hn := by
    obtain ⟨here, other⟩ := List.mem_filter.mp hp
    refine holds.others p here ?_
    rw [List.map_cons, List.mem_cons, not_or]
    exact ⟨by simpa using other, hn⟩

/-- The name of a variant stands in the object once. -/
theorem Holds.tag {tag name : String} {fields spare given : List (String × Json)}
    (holds : Holds ((tag, .string name) :: fields) spare given) (apart : ∀ p ∈ fields, p.1 ≠ tag)
    (needed : ∀ p ∈ spare, p.1 ≠ tag) : given.filter (·.1 = tag) = [(tag, .string name)] := by
  have same : ∀ p ∈ given.filter (·.1 = tag), p = (tag, .string name) := by
    intro p hp
    obtain ⟨here, named⟩ := List.mem_filter.mp hp
    have named : p.1 = tag := by simpa using named
    refine (List.mem_cons.mp (holds.known p here ?_)).resolve_right fun hp => apart p hp named
    rw [named]
    exact List.mem_cons_self
  have there : (tag, Json.string name) ∈ given.filter (·.1 = tag) := by
    have here := (holds.whole _ List.mem_cons_self).resolve_right fun hp => needed _ hp rfl
    exact List.mem_filter.mpr ⟨here, by simp⟩
  have once : ((given.filter (·.1 = tag)).map Prod.fst).Nodup := by
    refine holds.once.sublist ((List.monotone_filter_right _ fun p hp => ?_).map _)
    simp only [decide_eq_true_eq, List.map_cons, List.mem_cons] at hp ⊢
    exact .inl hp
  cases h : given.filter (·.1 = tag) with
  | nil => simp [h] at there
  | cons p rest =>
      rw [h] at same once
      obtain rfl := same p List.mem_cons_self
      cases rest with
      | nil => rfl
      | cons q rest =>
          obtain rfl := same q (by simp)
          simp at once

end Fields

theorem allSound_values (depth : Nat) (fields : List (String × Json)) :
    allSound depth (fields.map Prod.snd) = allSoundFields depth fields := by
  induction fields with
  | nil => rfl
  | cons p fields ih => rw [List.map_cons, allSound, allSoundFields, ih]

section Tagged

variable {tag name : String} {variant : String → Option (Decoder α)} {f : Fields α}
  {fields spare : List (String × Json)} {a : α}

/-- A variant is read off any object that holds its name and its fields. -/
theorem Fields.Reads.tagged_object (known : variant name = some f.decoder)
    (h : f.Reads fields spare a) (distinct : (fields.map Prod.fst).Nodup) (untagged : ∀ p ∈ fields, p.1 ≠ tag)
    (needed : ∀ p ∈ spare, p.1 ≠ tag) {given : List (String × Json)}
    (holds : Fields.Holds ((tag, .string name) :: fields) spare given)
    (sound : (object given).isSound 127 = true) : tagged tag variant (.object given) = .ok a := by
  simp only [tagged, sound, if_true, holds.tag untagged needed, known]
  exact h.decoder_object distinct (holds.untagged untagged)

/-- A variant is read off the array of its name and the values of its fields. -/
theorem Fields.Reads.tagged_array (known : variant name = some f.decoder)
    (h : f.Reads fields spare a) (distinct : (fields.map Prod.fst).Nodup)
    (sound : (object ((tag, .string name) :: fields)).isSound 127 = true) :
    tagged tag variant (.array (.string name :: fields.map Prod.snd)) = .ok a := by
  have sound' : (array (.string name :: fields.map Prod.snd)).isSound 127 = true := by
    have same := allSound_values 126 ((tag, .string name) :: fields)
    exact same.trans sound
  simp only [tagged, sound', if_true, known]
  exact h.decoder_array distinct

/-- A variant is read off the object of its fields with its name before them. -/
theorem Fields.Reads.tagged (known : variant name = some f.decoder) (h : f.Reads fields spare a)
    (distinct : (((tag, Json.string name) :: fields).map Prod.fst).Nodup)
    (needed : ∀ p ∈ spare, p.1 ≠ tag)
    (sound : (object ((tag, .string name) :: fields)).isSound 127 = true) :
    Decoder.Reads (tagged tag variant) (.object ((tag, .string name) :: fields)) a := by
  have untagged : ∀ p ∈ fields, p.1 ≠ tag := fun p hp he =>
    (List.nodup_cons.mp distinct).1 (List.mem_map.mpr ⟨p, hp, he⟩)
  exact ⟨h.plain, h.tagged_object known (List.nodup_cons.mp distinct).2 untagged needed
    (Fields.holds_self distinct spare) sound⟩

end Tagged

end Foreman.Json
