import Foreman.Wire.Basic

/-!
The JSON forms of builds.
-/

namespace Foreman.Wire

open Json Json.Decoder

def configurationFields : Fields BuildConfiguration :=
  BuildConfiguration.mk <$> .required "id" decode <*> .required "name" string <*>
    .required "scm_repo_url" string <*> .defaulted "scm_revision" (option string) none <*>
    .defaulted "build_script" string "" <*> .defaulted "environment" dictionary Table.empty <*>
    .defaulted "dependencies" (list decode) []

instance : Wire BuildConfiguration where
  encode c := .object [
    ("id", encode c.id),
    ("name", .string c.name),
    ("scm_repo_url", .string c.scmRepoUrl),
    ("scm_revision", ofOption .string c.scmRevision),
    ("build_script", .string c.buildScript),
    ("environment", ofDictionary c.environment),
    ("dependencies", ofList encode c.dependencies)]
  decode := configurationFields.decoder

def jobFields : Fields BuildJob :=
  BuildJob.mk <$> .required "configuration" decode <*> .required "submitted_at" decode <*>
    .optional "callback_url" string

instance : Wire BuildJob where
  encode j := .object [
    ("configuration", encode j.configuration),
    ("submitted_at", encode j.submittedAt),
    ("callback_url", ofOption .string j.callbackUrl)]
  decode := jobFields.decoder

def repositoryFields : Fields RepositoryConfiguration :=
  RepositoryConfiguration.mk <$> .required "repository_id" string <*>
    .required "dependency_url" string <*> .required "deploy_url" string

instance : Wire RepositoryConfiguration where
  encode r := .object [
    ("repository_id", .string r.repositoryId),
    ("dependency_url", .string r.dependencyUrl),
    ("deploy_url", .string r.deployUrl)]
  decode := repositoryFields.decoder

def driverErrorFields : Fields DriverError := DriverError.mk <$> .required "message" string

instance : Wire DriverError where
  encode e := .object [("message", .string e.message)]
  decode := driverErrorFields.decoder

def detailsFields : Fields BuildDetails :=
  BuildDetails.mk <$> .required "job_name" string <*> .optional "build_number" word <*>
    .required "success" bool <*> .required "log" string

instance : Wire BuildDetails where
  encode d := .object [
    ("job_name", .string d.jobName),
    ("build_number", ofOption ofNat d.buildNumber),
    ("success", .bool d.success),
    ("log", .string d.log)]
  decode := detailsFields.decoder

def resultFields : Fields BuildResult :=
  BuildResult.mk <$> .required "identity" decode <*> .required "configuration_name" string <*>
    .required "status" decode <*> .optional "details" decode <*> .optional "error" decode

instance : Wire BuildResult where
  encode r := .object [
    ("identity", encode r.identity),
    ("configuration_name", .string r.configurationName),
    ("status", encode r.status),
    ("details", ofOption encode r.details),
    ("error", ofOption encode r.error)]
  decode := resultFields.decoder

def recordFields : Fields BuildRecord :=
  BuildRecord.mk <$> .required "id" decode <*> .required "configuration_id" decode <*>
    .required "configuration_name" string <*> .required "scm_repo_url" string <*>
    .optional "scm_revision" string <*> .required "status" decode <*>
    .required "submitted_at" decode <*> .required "ended_at" decode <*> .required "log" string <*>
    .required "attributes" dictionary

instance : Wire BuildRecord where
  encode r := .object [
    ("id", encode r.id),
    ("configuration_id", encode r.configurationId),
    ("configuration_name", .string r.configurationName),
    ("scm_repo_url", .string r.scmRepoUrl),
    ("scm_revision", ofOption .string r.scmRevision),
    ("status", encode r.status),
    ("submitted_at", encode r.submittedAt),
    ("ended_at", encode r.endedAt),
    ("log", .string r.log),
    ("attributes", ofDictionary r.attributes)]
  decode := recordFields.decoder

end Foreman.Wire
