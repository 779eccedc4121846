import Foreman.Wire.Basic
import Foreman.Release

/-!
The JSON forms of products and releases.
-/

namespace Foreman.Wire

open Json Json.Decoder

instance : Wire AttemptStatus where
  encode s := .string s.text
  decode := name AttemptStatus.ofText?

instance : Wire ReleaseStatus where
  encode s := .string s.text
  decode := name ReleaseStatus.ofText?

instance : Wire ImportStatus where
  encode s := .string s.text
  decode := name ImportStatus.ofText?

def versionFields : Fields ProductVersion :=
  ProductVersion.mk <$> .required "id" decode <*> .required "version" string <*>
    .optional "current_milestone_id" decode

instance : Wire ProductVersion where
  encode v := .object [
    ("id", encode v.id),
    ("version", .string v.version),
    ("current_milestone_id", ofOption encode v.currentMilestone)]
  decode := versionFields.decoder

def milestoneFields : Fields Milestone :=
  Milestone.mk <$> .required "id" decode <*> .required "version" string <*>
    .required "product_version_id" decode <*> .optional "starting_date" decode <*>
    .optional "end_date" decode

instance : Wire Milestone where
  encode m := .object [
    ("id", encode m.id),
    ("version", .string m.version),
    ("product_version_id", encode m.productVersion),
    ("starting_date", ofOption encode m.startingDate),
    ("end_date", ofOption encode m.endDate)]
  decode := milestoneFields.decoder

def attemptFields : Fields ReleaseAttempt :=
  ReleaseAttempt.mk <$> .required "id" decode <*> .required "milestone_id" decode <*>
    .required "status" decode <*> .required "log" string <*> .required "starting_date" decode <*>
    .optional "end_date" decode

instance : Wire ReleaseAttempt where
  encode a := .object [
    ("id", encode a.id),
    ("milestone_id", encode a.milestone),
    ("status", encode a.status),
    ("log", .string a.log),
    ("starting_date", encode a.startingDate),
    ("end_date", ofOption encode a.endDate)]
  decode := attemptFields.decoder

def artifactFields : Fields Artifact :=
  Artifact.mk <$> .required "id" decode <*> .required "identifier" string

instance : Wire Artifact where
  encode a := .object [("id", encode a.id), ("identifier", .string a.identifier)]
  decode := artifactFields.decoder

def artifactErrorFields : Fields ArtifactImportError :=
  ArtifactImportError.mk <$> .required "artifactId" decode <*> .required "errorMessage" string

instance : Wire ArtifactImportError where
  encode e := .object [("artifactId", encode e.artifact), ("errorMessage", .string e.message)]
  decode := artifactErrorFields.decoder

def importFields : Fields BuildImport :=
  BuildImport.mk <$> .required "buildRecordId" decode <*> .optional "brewBuildId" word <*>
    .optional "brewBuildUrl" string <*> .required "status" decode <*>
    .optional "errorMessage" string <*> .defaulted "errors" (list decode) []

instance : Wire BuildImport where
  encode b := .object [
    ("buildRecordId", encode b.record),
    ("brewBuildId", ofOption ofNat b.brewBuildId),
    ("brewBuildUrl", ofOption .string b.brewBuildUrl),
    ("status", encode b.status),
    ("errorMessage", ofOption .string b.errorMessage),
    ("errors", ofList encode b.errors)]
  decode := importFields.decoder

def releaseResultFields : Fields ReleaseResult :=
  ReleaseResult.mk <$> .required "milestoneId" decode <*> .required "releaseStatus" decode <*>
    .optional "errorMessage" string <*> .defaulted "builds" (list decode) []

instance : Wire ReleaseResult where
  encode r := .object [
    ("milestoneId", encode r.milestone),
    ("releaseStatus", encode r.status),
    ("errorMessage", ofOption .string r.errorMessage),
    ("builds", ofList encode r.builds)]
  decode := releaseResultFields.decoder

end Foreman.Wire
