import Foreman.Proofs.Release.Errands

/-!
How the account of a push reads, word for word: a heading, then a block for each build with a line for
each of its artifacts that could not be imported. A dash stands for whatever is not known, also for
what a row would say that is not found.
-/

namespace Foreman

namespace Release

/-- The line about an artifact. -/
def artifactLine (found : Option Artifact) (e : ArtifactImportError) : String :=
  let name := (found.map (·.identifier)).getD "-"
  s!"Failed to import {name} [artifactId:{e.artifact.text}]. Error message: {e.message}\n"

/-- The end of the line about a build, which its import alone decides. -/
def importLine (b : BuildImport) : String :=
  let status := match b.status with
    | .successful => "SUCCESSFUL"
    | .failed => "FAILED"
    | .error => "ERROR"
  let buildId := (b.brewBuildId.map Nat.repr).getD "-"
  let url := b.brewBuildUrl.getD "-"
  s!"] import {status}. Brew build id: {buildId}, Brew build url: {url}\n"

/-- The line about a build. -/
def buildLine (found : Option BuildRecord) (b : BuildImport) : String :=
  let name := (found.map (·.configurationName)).getD "-"
  let repository := (found.map (·.scmRepoUrl)).getD "-"
  let revision := (found.bind (·.scmRevision)).getD "-"
  s!"{name} [buildRecordId: {b.record.text}, built from {repository} rev {revision}" ++ importLine b

/-- What is said about a build beyond its line: nothing if it was imported. -/
def faults (s : Store) (b : BuildImport) : String :=
  match b.status with
  | .successful => ""
  | .failed | .error =>
    let message := b.errorMessage.getD "-"
    s!"Error message: {message}" ++
      String.join (b.errors.map fun e => artifactLine (s.artifacts.get? e.artifact) e)

def buildBlock (s : Store) (b : BuildImport) : String :=
  "\n-------------------------------------------------------------------------\n" ++
    buildLine (s.records.get? b.record) b ++ faults s b ++ "\n"

/-- The account of the push that the result adds to the log of its attempt. -/
def description (s : Store) (r : ReleaseResult) : String :=
  (match r.status with
    | .success => "Release push SUCCEEDED\n"
    | .failure | .importError | .setUpError | .systemError => "Release push FAILED\n") ++
    "Import details:\n" ++
    (match r.errorMessage with
    | some message => s!"{message}\n"
    | none => "") ++
    String.join (r.builds.map (buildBlock s))

/-- What the report of a failed push adds to the log of its attempt. -/
def failureNote (payload : Json) : String := s!"IMPORT FAILED\nResult: {payload.text}\n"

/-! ### The account as it is put together -/

theorem toString_text (s : String) : toString s = s := rfl

/-- The line about a build whose record is not found. -/
theorem buildLine_none (b : BuildImport) : buildLine none b =
    s!"- [buildRecordId: {b.record.text}, built from - rev -" ++ importLine b := by
  unfold buildLine
  simp only [Option.map_none, Option.bind_none, Option.getD_none, toString_text, String.reduceAppend,
    String.append_assoc]

/-- The line about an artifact that is not found. -/
theorem artifactLine_none (e : ArtifactImportError) : artifactLine none e =
    s!"Failed to import - [artifactId:{e.artifact.text}]. Error message: {e.message}\n" := by
  unfold artifactLine
  simp only [Option.map_none, Option.getD_none, toString_text, String.reduceAppend]

theorem artifactText_eq (e : ArtifactImportError) (found : Option Artifact) :
    artifactText e found = artifactLine found e := by
  unfold artifactText artifactLine orDash
  simp only [toString_text]

theorem separator_eq :
    separator = "\n-------------------------------------------------------------------------\n" := by
  decide +kernel

theorem buildText_eq (b : BuildImport) (found : Option BuildRecord) :
    buildText b found = separator ++ buildLine found b ++
      if b.status = .successful then "" else "Error message: " ++ b.errorMessage.getD "-" := by
  have number (id : Option Nat) : id.map toString = id.map Nat.repr := rfl
  cases hs : b.status <;>
    simp [buildText, buildLine, importLine, orDash, hs, toString_text, number, String.append_assoc,
      ImportStatus.text]

theorem details_append (s : Store) (ps qs : List Passage) :
    details s (ps ++ qs) = details s ps ++ details s qs := by
  induction ps with
  | nil => simp [details]
  | cons p ps ih => simp [details, ih, String.append_assoc]

theorem details_artifacts (s : Store) (es : List ArtifactImportError) :
    details s (es.map .artifact) =
      String.join (es.map fun e => artifactLine (s.artifacts.get? e.artifact) e) := by
  induction es with
  | nil => rfl
  | cons e es ih =>
      rw [List.map_cons, details, ih, Passage.text, artifactText_eq, List.map_cons, String.join_cons]

theorem details_close (s : Store) : details s [.close] = "\n" := by
  rw [details, details, String.append_empty]
  rfl

theorem details_buildPassages (s : Store) (b : BuildImport) :
    details s (buildPassages b) = buildBlock s b := by
  rw [buildPassages, List.cons_append, details, details_append, details_close, Passage.text,
    buildText_eq, separator_eq]
  unfold buildBlock faults
  cases b.status with
  | successful => simp only [details, if_pos, String.append_empty, String.empty_append]
  | failed | error =>
      simp only [reduceCtorEq, if_false, details_artifacts, toString_text, String.append_assoc]

theorem details_passages (s : Store) (r : ReleaseResult) :
    details s (passages r) = String.join (r.builds.map (buildBlock s)) := by
  rw [passages]
  induction r.builds with
  | nil => rfl
  | cons b bs ih =>
      rw [List.flatMap_cons, details_append, details_buildPassages, ih, List.map_cons,
        String.join_cons]

/-- What the passages are put together to reads as it should. -/
theorem description_eq (s : Store) (r : ReleaseResult) :
    heading r ++ details s (passages r) = description s r := by
  rw [details_passages, description, heading, ReleaseResult.isSuccessful]
  cases r.status <;> cases r.errorMessage <;> simp [toString_text, String.append_assoc]

theorem failureText_eq (payload : Json) : failureText payload = failureNote payload := rfl

end Release

end Foreman
