import Foreman.Json.Printer
import Foreman.Store

/-!
The text that a release result adds to the log of its attempt. What is not known of a build or an
artifact is shown as a dash.
-/

namespace Foreman

def orDash (s : Option String) : String := s.getD "-"

namespace Release

def separator : String := "\n" ++ String.ofList (List.replicate 73 '-') ++ "\n"

/-- A part of the description, with the row that has to be looked up for it. -/
inductive Passage where
  | build (b : BuildImport)
  | artifact (e : ArtifactImportError)
  /-- The end of a build. -/
  | close

def buildPassages (b : BuildImport) : List Passage :=
  .build b ::
    (if b.status = .successful then [] else b.errors.map .artifact) ++ [.close]

def buildText (b : BuildImport) (r : Option BuildRecord) : String :=
  separator ++ orDash (r.map (·.configurationName)) ++ " [buildRecordId: " ++ b.record.text ++
    ", built from " ++ orDash (r.map (·.scmRepoUrl)) ++
    " rev " ++ orDash (r.bind (·.scmRevision)) ++
    "] import " ++ b.status.text ++ ". Brew build id: " ++ orDash (b.brewBuildId.map toString) ++
    ", Brew build url: " ++ orDash b.brewBuildUrl ++ "\n" ++
    (if b.status = .successful then "" else "Error message: " ++ orDash b.errorMessage)

def artifactText (e : ArtifactImportError) (a : Option Artifact) : String :=
  "Failed to import " ++ orDash (a.map (·.identifier)) ++ " [artifactId:" ++ e.artifact.text ++
    "]. Error message: " ++ e.message ++ "\n"

/-- The text of a passage in which lookups find what is given. -/
def Passage.text (records : ResourceId → Option BuildRecord)
    (artifacts : ResourceId → Option Artifact) : Passage → String
  | build b => buildText b (records b.record)
  | artifact e => artifactText e (artifacts e.artifact)
  | close => "\n"

def heading (r : ReleaseResult) : String :=
  "Release push " ++ (if r.isSuccessful then "SUCCEEDED" else "FAILED") ++ "\nImport details:\n" ++
    (match r.errorMessage with
    | some m => m ++ "\n"
    | none => "")

def passages (r : ReleaseResult) : List Passage := r.builds.flatMap buildPassages

def startedText : String := "Release push task started\n"

def refusedText : String := "Release push task creation failed.\nCheck log for more details.\n"

def failureText (payload : Json) : String := "IMPORT FAILED\nResult: " ++ payload.text ++ "\n"

end Release

end Foreman
