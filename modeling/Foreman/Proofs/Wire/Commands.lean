import Foreman.Proofs.Wire.Codecs
import Foreman.Wire.Socket

/-!
Commands that name no qualifier: they are the commands that name every one, in the form of an object as
in that of an array.
-/

namespace Foreman

namespace Json

variable {α : Type}

theorem allSoundFields_append (depth : Nat) (fs gs : List (String × Json)) :
    allSoundFields depth (fs ++ gs) = (allSoundFields depth fs && allSoundFields depth gs) := by
  induction fs with
  | nil => simp [allSoundFields]
  | cons p fs ih => simp [allSoundFields, ih, Bool.and_assoc]

/-- A field of the right form at the end of an object that lacks it changes nothing in the check. -/
theorem Fields.visit_concat {members : List Member} {m : Member} {k s : String} {seen : List String}
    {fields : List (String × Json)} (found : members.find? (·.name = k) = some m)
    (ok : m.check (.string s) = .ok ()) (new : k ∉ seen) (lacks : k ∉ fields.map Prod.fst) :
    visit members seen (fields ++ [(k, .string s)]) = visit members seen fields := by
  induction fields generalizing seen with
  | nil =>
      simp [visit, found, new, ok, bind, Except.bind]
  | cons p fields ih =>
      obtain ⟨k', v⟩ := p
      obtain ⟨other, lacks⟩ : k ≠ k' ∧ k ∉ fields.map Prod.fst := by simpa using lacks
      rw [List.cons_append]
      unfold visit
      rw [ih new lacks, ih (by simp [other, new]) lacks]

end Json

namespace Wire

open Json

/-- The field that names every qualifier. -/
def everyQualifier : String × Json := ("qualifier", .string Notification.anyQualifier)

theorem commandFields_build (make : String → String → Socket.Command) {look look' : String → Option Json}
    (topic : look' "topic" = look "topic") (none : look "qualifier" = none)
    (every : look' "qualifier" = some everyQualifier.2) :
    (commandFields make).build look' = (commandFields make).build look := by
  simp [commandFields, Seq.seq, Functor.map, Fields.required, Fields.defaulted, Decoder.string, topic,
    none, every, everyQualifier]

theorem commandFields_object (make : String → String → Socket.Command)
    {fields : List (String × Json)} (lacks : "qualifier" ∉ fields.map Prod.fst) :
    (commandFields make).decoder (.object (fields ++ [everyQualifier])) =
      (commandFields make).decoder (.object fields) := by
  have none : fields.lookup "qualifier" = none := by
    refine List.lookup_eq_none_iff.mpr fun p hp => bne_iff_ne.mpr ?_
    intro he
    exact lacks (he ▸ List.mem_map_of_mem hp)
  have visited : Fields.visit (commandFields make).members [] (fields ++ [everyQualifier]) =
      Fields.visit (commandFields make).members [] fields :=
    Fields.visit_concat (m := ⟨"qualifier", Fields.check Decoder.string, true⟩) rfl rfl (by simp) lacks
  have built : (commandFields make).build (fun k => (fields ++ [everyQualifier]).lookup k) =
      (commandFields make).build fun k => fields.lookup k :=
    commandFields_build make (by simp [List.lookup_append, List.lookup_cons, everyQualifier]) none
      (by simp [List.lookup_append, none, everyQualifier])
  simp only [Fields.decoder, visited, built]

theorem commandFields_array (make : String → String → Socket.Command) (topic : Json) :
    (commandFields make).decoder (.array [topic, everyQualifier.2]) =
      (commandFields make).decoder (.array [topic]) := by
  have members : (commandFields make).members = [⟨"topic", Fields.check Decoder.string, false⟩,
      ⟨"qualifier", Fields.check Decoder.string, true⟩] := rfl
  have ok : Fields.check Decoder.string everyQualifier.2 = .ok () := rfl
  simp only [Fields.decoder, members, Fields.visitItems, ok]
  congr 1

theorem commandVariant_cases (name : String) : commandVariant name = none ∨
    ∃ make, commandVariant name = some (commandFields make).decoder := by
  unfold commandVariant
  split
  · exact .inr ⟨_, rfl⟩
  · exact .inr ⟨_, rfl⟩
  · exact .inl rfl

/-- A command is the same whether every qualifier is named or none. -/
theorem command_object {fields : List (String × Json)} (lacks : "qualifier" ∉ fields.map Prod.fst) :
    command (.object (fields ++ [everyQualifier])) = command (.object fields) := by
  have sound : isSound 127 (.object (fields ++ [everyQualifier])) = isSound 127 (.object fields) := by
    simp [isSound, allSoundFields_append, allSoundFields, everyQualifier]
  have tag : (fields ++ [everyQualifier]).filter (·.1 = "type") = fields.filter (·.1 = "type") := by
    simp [everyQualifier]
  have rest : (fields ++ [everyQualifier]).filter (·.1 ≠ "type") =
      fields.filter (·.1 ≠ "type") ++ [everyQualifier] := by
    simp [everyQualifier]
  have lacks : "qualifier" ∉ (fields.filter (·.1 ≠ "type")).map Prod.fst := fun h =>
    lacks ((List.filter_sublist.map Prod.fst).mem h)
  simp only [command, tagged, sound, tag, rest]
  congr 1
  split
  · next name _ =>
    rcases commandVariant_cases name with hn | ⟨make, hm⟩
    · rw [hn]
    · rw [hm]
      exact commandFields_object make lacks
  · rfl

theorem command_array (kind : String) (topic : Json) :
    command (.array [.string kind, topic, everyQualifier.2]) = command (.array [.string kind, topic]) := by
  have sound : isSound 127 (.array [.string kind, topic, everyQualifier.2]) =
      isSound 127 (.array [.string kind, topic]) := by
    simp [isSound, allSound, everyQualifier]
  simp only [command, tagged, sound]
  congr 1
  rcases commandVariant_cases kind with hn | ⟨make, hm⟩
  · rw [hn]
  · rw [hm]
    exact commandFields_array make topic

end Wire

end Foreman
