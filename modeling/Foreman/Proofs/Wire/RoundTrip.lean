import Foreman.Proofs.Identity
import Foreman.Proofs.Instant
import Foreman.Proofs.Wire.Codecs
import Foreman.Wire.Build
import Foreman.Wire.Message

/-!
Values on the wire. A value that is written is read back from its text, and a value that was read
from a text in any of the accepted forms does not change when it is written and read again.
-/

namespace Foreman

theorem AttemptStatus.ofText?_text (s : AttemptStatus) : AttemptStatus.ofText? s.text = some s := by
  cases s <;> decide

theorem ReleaseStatus.ofText?_text (s : ReleaseStatus) : ReleaseStatus.ofText? s.text = some s := by
  cases s <;> decide

theorem ImportStatus.ofText?_text (s : ImportStatus) : ImportStatus.ofText? s.text = some s := by
  cases s <;> decide

/-! ### Numbers of 64 bits -/

def BuildDetails.Fits (d : BuildDetails) : Prop := ∀ n ∈ d.buildNumber, n < UInt64.size

def BuildResult.Fits (r : BuildResult) : Prop := ∀ d ∈ r.details, d.Fits

def BuildImport.Fits (b : BuildImport) : Prop := ∀ n ∈ b.brewBuildId, n < UInt64.size

def ReleaseResult.Fits (r : ReleaseResult) : Prop := ∀ b ∈ r.builds, b.Fits

namespace Wire

open Json Json.Decoder Json.Fields

/-- The value is read back from the tree that is written for it. -/
def Returns {α : Type} [Wire α] (a : α) : Prop := (decode : Decoder α).Reads (encode a) a

theorem returns_resourceId (id : ResourceId) : Returns id := reads_reading id.ofText?_text

theorem returns_identity (id : BuildIdentity) : Returns id :=
  reads_reading (Option.map_eq_some_iff.mpr ⟨_, id.configuration.ofText?_text, rfl⟩)

theorem returns_instant (t : Instant) : Returns t := reads_reading t.ofText?_text

theorem returns_operation (o : Operation) : Returns o := reads_nameBeside o.ofText?_text

theorem returns_state (s : State) : Returns s := reads_nameBeside s.ofText?_text

theorem returns_attemptStatus (s : AttemptStatus) : Returns s := reads_nameBeside s.ofText?_text

theorem returns_releaseStatus (s : ReleaseStatus) : Returns s := reads_nameBeside s.ofText?_text

theorem returns_importStatus (s : ImportStatus) : Returns s := reads_nameBeside s.ofText?_text

theorem returns_word {n : Nat} (h : n < UInt64.size) : word.Reads (.ofNat n) n :=
  reads_natBelow h le_rfl

theorem reads_taskStatus {operation : Decoder Operation} {state : Decoder State} (s : TaskStatus)
    (ho : operation.Reads (encode s.operation) s.operation)
    (hs : state.Reads (encode s.state) s.state) :
    (taskStatusFields operation state).decoder.Reads (encode s) s := by
  have fields := (reads_required "operation" ho).map TaskStatus.mk
    |>.seq (reads_required "state" hs)
  exact fields.decoder (by simp)

theorem returns_taskStatus (s : TaskStatus) : Returns s :=
  reads_taskStatus s (returns_operation s.operation) (returns_state s.state)

/-- The value is written as the object of its fields, all of which the record knows. -/
def Told {α : Type} [Wire α] (f : Fields α) (spare : List (String × Json)) (a : α) : Prop :=
  ∃ fields, encode a = .object fields ∧ (fields.map Prod.fst).Nodup ∧ f.Reads fields spare a

theorem Told.returns {α : Type} [Wire α] {f : Fields α} {spare : List (String × Json)} {a : α}
    (h : Told f spare a) (same : (decode : Decoder α) = f.decoder) : Returns a := by
  obtain ⟨fields, written, distinct, reads⟩ := h
  rw [Returns, written, same]
  exact reads.decoder distinct

/-! ### Fields that may be null -/

theorem reads_optionalString (o : Option String) :
    (option string).Reads (ofOption .string o) o :=
  reads_option (fun s _ => reads_string s) (by simp)

theorem reads_optionalWord {o : Option Nat} (h : ∀ n ∈ o, n < UInt64.size) :
    (option word).Reads (ofOption ofNat o) o :=
  reads_option (fun n hn => returns_word (h n hn)) (by simp [ofNat])

theorem reads_optionalId (o : Option ResourceId) :
    (option decode).Reads (ofOption encode o) o :=
  reads_option (fun id _ => returns_resourceId id) (by simp [encode])

theorem reads_optionalInstant (o : Option Instant) :
    (option decode).Reads (ofOption encode o) o :=
  reads_option (fun t _ => returns_instant t) (by simp [encode])

/-! ### Builds -/

theorem told_configuration (c : BuildConfiguration) :
    Told configurationFields [("scm_revision", .null), ("build_script", .string ""),
    ("environment", .object []), ("dependencies", .array [])] c := by
  have dependencies : (list decode).Reads (ofList encode c.dependencies) c.dependencies :=
    reads_list fun id _ => returns_resourceId id
  have fields := (reads_required "id" (returns_resourceId c.id)).map BuildConfiguration.mk
    |>.seq (reads_required "name" (reads_string c.name))
    |>.seq (reads_required "scm_repo_url" (reads_string c.scmRepoUrl))
    |>.seq (reads_defaulted "scm_revision" (w := .null) rfl (reads_optionalString c.scmRevision))
    |>.seq (reads_defaulted "build_script" (w := .string "") rfl (reads_string c.buildScript))
    |>.seq (reads_defaulted "environment" (w := .object []) rfl (reads_dictionary c.environment))
    |>.seq (reads_defaulted "dependencies" (w := .array []) rfl dependencies)
  exact ⟨_, rfl, by simp, fields⟩

theorem returns_configuration (c : BuildConfiguration) : Returns c :=
  (told_configuration c).returns rfl

theorem told_job (j : BuildJob) :
    Told jobFields [("callback_url", .null)] j := by
  have fields := (reads_required "configuration" (returns_configuration j.configuration)).map
      BuildJob.mk
    |>.seq (reads_required "submitted_at" (returns_instant j.submittedAt))
    |>.seq (reads_optional "callback_url" (reads_optionalString j.callbackUrl))
  exact ⟨_, rfl, by simp, fields⟩

theorem returns_job (j : BuildJob) : Returns j :=
  (told_job j).returns rfl

theorem returns_driverError (e : DriverError) : Returns e := by
  have fields := (reads_required "message" (reads_string e.message)).map DriverError.mk
  exact fields.decoder (by simp)

theorem told_details {d : BuildDetails} (fits : d.Fits) :
    Told detailsFields [("build_number", .null)] d := by
  have fields := (reads_required "job_name" (reads_string d.jobName)).map BuildDetails.mk
    |>.seq (reads_optional "build_number" (reads_optionalWord fits))
    |>.seq (reads_required "success" (reads_bool d.success))
    |>.seq (reads_required "log" (reads_string d.log))
  exact ⟨_, rfl, by simp, fields⟩

theorem returns_details {d : BuildDetails} (fits : d.Fits) : Returns d :=
  (told_details fits).returns rfl

theorem told_result {r : BuildResult} (fits : r.Fits) :
    Told resultFields [("details", .null), ("error", .null)] r := by
  have details : (option decode).Reads (ofOption encode r.details) r.details :=
    reads_option (fun d hd => returns_details (fits d hd)) (by simp [encode])
  have error : (option decode).Reads (ofOption encode r.error) r.error :=
    reads_option (fun e _ => returns_driverError e) (by simp [encode])
  have fields := (reads_required "identity" (returns_identity r.identity)).map BuildResult.mk
    |>.seq (reads_required "configuration_name" (reads_string r.configurationName))
    |>.seq (reads_required "status" (returns_taskStatus r.status))
    |>.seq (reads_optional "details" details)
    |>.seq (reads_optional "error" error)
  exact ⟨_, rfl, by simp, fields⟩

theorem returns_result {r : BuildResult} (fits : r.Fits) : Returns r :=
  (told_result fits).returns rfl

theorem told_record (r : BuildRecord) :
    Told recordFields [("scm_revision", .null)] r := by
  have fields := (reads_required "id" (returns_resourceId r.id)).map BuildRecord.mk
    |>.seq (reads_required "configuration_id" (returns_resourceId r.configurationId))
    |>.seq (reads_required "configuration_name" (reads_string r.configurationName))
    |>.seq (reads_required "scm_repo_url" (reads_string r.scmRepoUrl))
    |>.seq (reads_optional "scm_revision" (reads_optionalString r.scmRevision))
    |>.seq (reads_required "status" (returns_taskStatus r.status))
    |>.seq (reads_required "submitted_at" (returns_instant r.submittedAt))
    |>.seq (reads_required "ended_at" (returns_instant r.endedAt))
    |>.seq (reads_required "log" (reads_string r.log))
    |>.seq (reads_required "attributes" (reads_dictionary r.attributes))
  exact ⟨_, rfl, by simp, fields⟩

theorem returns_record (r : BuildRecord) : Returns r :=
  (told_record r).returns rfl

/-! ### Releases -/

theorem told_version (v : ProductVersion) :
    Told versionFields [("current_milestone_id", .null)] v := by
  have fields := (reads_required "id" (returns_resourceId v.id)).map ProductVersion.mk
    |>.seq (reads_required "version" (reads_string v.version))
    |>.seq (reads_optional "current_milestone_id" (reads_optionalId v.currentMilestone))
  exact ⟨_, rfl, by simp, fields⟩

theorem returns_version (v : ProductVersion) : Returns v :=
  (told_version v).returns rfl

theorem told_milestone (m : Milestone) :
    Told milestoneFields [("starting_date", .null), ("end_date", .null)] m := by
  have fields := (reads_required "id" (returns_resourceId m.id)).map Milestone.mk
    |>.seq (reads_required "version" (reads_string m.version))
    |>.seq (reads_required "product_version_id" (returns_resourceId m.productVersion))
    |>.seq (reads_optional "starting_date" (reads_optionalInstant m.startingDate))
    |>.seq (reads_optional "end_date" (reads_optionalInstant m.endDate))
  exact ⟨_, rfl, by simp, fields⟩

theorem returns_milestone (m : Milestone) : Returns m :=
  (told_milestone m).returns rfl

theorem told_attempt (a : ReleaseAttempt) :
    Told attemptFields [("end_date", .null)] a := by
  have fields := (reads_required "id" (returns_resourceId a.id)).map ReleaseAttempt.mk
    |>.seq (reads_required "milestone_id" (returns_resourceId a.milestone))
    |>.seq (reads_required "status" (returns_attemptStatus a.status))
    |>.seq (reads_required "log" (reads_string a.log))
    |>.seq (reads_required "starting_date" (returns_instant a.startingDate))
    |>.seq (reads_optional "end_date" (reads_optionalInstant a.endDate))
  exact ⟨_, rfl, by simp, fields⟩

theorem returns_attempt (a : ReleaseAttempt) : Returns a :=
  (told_attempt a).returns rfl

theorem returns_importError (e : ArtifactImportError) : Returns e := by
  have fields := (reads_required "artifactId" (returns_resourceId e.artifact)).map
      ArtifactImportError.mk
    |>.seq (reads_required "errorMessage" (reads_string e.message))
  exact fields.decoder (by simp)

theorem returns_import {b : BuildImport} (fits : b.Fits) : Returns b := by
  have errors : (list decode).Reads (ofList encode b.errors) b.errors :=
    reads_list fun e _ => returns_importError e
  have fields := (reads_required "buildRecordId" (returns_resourceId b.record)).map BuildImport.mk
    |>.seq (reads_optional "brewBuildId" (reads_optionalWord fits))
    |>.seq (reads_optional "brewBuildUrl" (reads_optionalString b.brewBuildUrl))
    |>.seq (reads_required "status" (returns_importStatus b.status))
    |>.seq (reads_optional "errorMessage" (reads_optionalString b.errorMessage))
    |>.seq (reads_defaulted "errors" (w := .array []) rfl errors)
  exact fields.decoder (by simp)

theorem told_releaseResult {r : ReleaseResult} (fits : r.Fits) :
    Told releaseResultFields [("errorMessage", .null), ("builds", .array [])] r := by
  have builds : (list decode).Reads (ofList encode r.builds) r.builds :=
    reads_list fun b hb => returns_import (fits b hb)
  have fields := (reads_required "milestoneId" (returns_resourceId r.milestone)).map
      ReleaseResult.mk
    |>.seq (reads_required "releaseStatus" (returns_releaseStatus r.status))
    |>.seq (reads_optional "errorMessage" (reads_optionalString r.errorMessage))
    |>.seq (reads_defaulted "builds" (w := .array []) rfl builds)
  exact ⟨_, rfl, by simp, fields⟩

theorem returns_releaseResult {r : ReleaseResult} (fits : r.Fits) : Returns r :=
  (told_releaseResult fits).returns rfl

/-! ### Notifications -/

/-- A message is written as the object of the name of its variant and of its fields. -/
theorem told_notification (n : Notification) :
    ∃ (name : String) (f : Fields Notification) (fields : List (String × Json)),
      notificationVariant name = some f.decoder ∧
      encode n = .object (("type", .string name) :: fields) ∧
      ((("type", Json.string name) :: fields).map Prod.fst).Nodup ∧ (encode n).isSound 127 = true ∧
      f.Reads fields [] n := by
  cases n with
  | buildStatusChanged id name status =>
      have kept : keptStatus.Reads (encode status) status :=
        reads_taskStatus status (reads_nameBeside status.operation.ofText?_text)
          (reads_nameBeside status.state.ofText?_text)
      have fields := (reads_required "configuration_id" (returns_resourceId id)).map
          Notification.buildStatusChanged
        |>.seq (reads_required "configuration_name" (reads_string name))
        |>.seq (reads_required "status" kept)
      exact ⟨_, _, _, rfl, rfl, by simp, rfl, fields⟩
  | releaseChanged id status =>
      have kept : keptAttempt.Reads (encode status) status := reads_nameBeside status.ofText?_text
      have fields := (reads_required "milestone_id" (returns_resourceId id)).map
          Notification.releaseChanged
        |>.seq (reads_required "status" kept)
      exact ⟨_, _, _, rfl, rfl, by simp, rfl, fields⟩
  | message text =>
      have fields := (reads_required "text" (reads_string text)).map Notification.message
      exact ⟨_, _, _, rfl, rfl, by simp, rfl, fields⟩

theorem returns_notification (n : Notification) : Returns n := by
  obtain ⟨name, f, fields, known, written, distinct, sound, reads⟩ := told_notification n
  rw [written] at sound
  rw [Returns, written]
  exact reads.tagged known distinct (by simp) sound

/-! ### What is decoded fits -/

theorem ensures_details : (decode : Decoder BuildDetails).Ensures BuildDetails.Fits := by
  have number := ensures_optional "build_number" (ensures_natBelow UInt64.size)
  exact Ensures.decoder (f := detailsFields)
    (.pass (.pass (.seq (ensures_map fun _ _ h _ _ => h) number)))

theorem ensures_result : (decode : Decoder BuildResult).Ensures BuildResult.Fits := by
  have details := ensures_optional "details" ensures_details
  exact Ensures.decoder (f := resultFields)
    (.pass (.seq (.pass (.pass (ensures_map fun _ _ _ _ h _ => h))) details))

theorem ensures_import : (decode : Decoder BuildImport).Ensures BuildImport.Fits := by
  have number := ensures_optional "brewBuildId" (ensures_natBelow UInt64.size)
  exact Ensures.decoder (f := importFields)
    (.pass (.pass (.pass (.pass (.seq (ensures_map fun _ _ h _ _ _ _ => h) number)))))

theorem ensures_releaseResult : (decode : Decoder ReleaseResult).Ensures ReleaseResult.Fits := by
  have none : ∀ b ∈ ([] : List BuildImport), b.Fits := by simp
  have builds := ensures_defaulted "builds" ensures_import.list none
  exact Ensures.decoder (f := releaseResultFields)
    (.seq (.pass (.pass (ensures_map fun _ _ _ _ h => h))) builds)

/-! ### Texts -/

variable {α : Type} [Wire α]

/-- The text that is sent. -/
def toText (a : α) : String := (encode a).text

/-- Reads a text to its end. -/
def ofText (s : String) : Except Json.Fault α :=
  let (v, whole) := Json.read s.toList
  do
    let a ← decode v
    if whole then .ok a else .error .malformed

/-- Values that fit come back from the texts that are written for them; and whatever value a text
stands for, in any form, is the same once it is written and read again. -/
structure RoundTrips (α : Type) [Wire α] (Fits : α → Prop) : Prop where
  back : ∀ a : α, Fits a → ofText (toText a) = .ok a
  again : ∀ (s : String) (a : α), ofText s = .ok a → ofText (toText a) = .ok a

theorem ofText_toText {a : α} (h : Returns a) : ofText (toText a) = .ok a := by
  rw [ofText, toText, read_text h.plain]
  exact bind_eq_ok.mpr ⟨a, h.decodes, rfl⟩

theorem decode_of_ofText {s : String} {a : α} (h : ofText s = .ok a) : ∃ v, decode v = .ok a := by
  obtain ⟨b, hb, h⟩ := bind_eq_ok.mp h
  split at h
  next => exact ⟨_, Except.ok.inj h ▸ hb⟩
  next => simp at h

theorem RoundTrips.of_fits {Fits : α → Prop} (returns : ∀ {a : α}, Fits a → Returns a)
    (ensures : (decode : Decoder α).Ensures Fits) : RoundTrips α Fits where
  back a fits := ofText_toText (returns fits)
  again s a h := by
    obtain ⟨v, hv⟩ := decode_of_ofText h
    exact ofText_toText (returns (ensures v a hv))

theorem RoundTrips.of_all (returns : ∀ a : α, Returns a) : RoundTrips α fun _ => True :=
  .of_fits (fun _ => returns _) fun _ _ _ => trivial

/-- Everything that goes over the wire comes back: times of all years, and dictionaries whatever the
order of their entries is. A number fits if it has at most 64 bits. -/
theorem values_roundTrip :
    RoundTrips BuildConfiguration (fun _ => True) ∧ RoundTrips BuildJob (fun _ => True) ∧
      RoundTrips BuildDetails BuildDetails.Fits ∧ RoundTrips BuildResult BuildResult.Fits ∧
      RoundTrips BuildRecord (fun _ => True) ∧ RoundTrips ReleaseResult ReleaseResult.Fits ∧
      RoundTrips ProductVersion (fun _ => True) ∧ RoundTrips Milestone (fun _ => True) ∧
      RoundTrips ReleaseAttempt (fun _ => True) ∧ RoundTrips Notification (fun _ => True) :=
  ⟨.of_all returns_configuration, .of_all returns_job, .of_fits returns_details ensures_details,
    .of_fits returns_result ensures_result, .of_all returns_record,
    .of_fits returns_releaseResult ensures_releaseResult, .of_all returns_version,
    .of_all returns_milestone, .of_all returns_attempt, .of_all returns_notification⟩

omit [Wire α] in
theorem eq_ok_of_toOption {x : Except Json.Fault α} {a : α} (h : x.toOption = some a) :
    x = .ok a := by
  cases x with
  | error => cases h
  | ok b => exact congrArg Except.ok (Option.some.inj h)

/-- The fields of a version in another order, with others between them and without one. -/
def shuffledVersion : String :=
  "\x7b\"version\":\"1.0\",\"more\":[[]],\"id\":\"00000000000000000000000000000007\"\x7d"

/-- The values of its fields. -/
def listedVersion : String := "[\"00000000000000000000000000000007\",\"1.0\",null]"

/-- A result without the fields that have a default. -/
def shortResult : String :=
  "\x7b\"releaseStatus\":\"SUCCESS\",\"milestoneId\":\"00000000000000000000000000000064\"\x7d"

theorem values_roundTrip_forms : ∃ (v : ProductVersion) (r : ReleaseResult),
    ofText shuffledVersion = .ok v ∧ ofText listedVersion = .ok v ∧ ofText (toText v) = .ok v ∧
      ofText shortResult = .ok r ∧ ofText (toText r) = .ok r := by
  obtain ⟨-, -, -, -, -, results, versions, -⟩ := values_roundTrip
  have shuffled : ofText shuffledVersion = .ok (⟨⟨7⟩, "1.0", none⟩ : ProductVersion) :=
    eq_ok_of_toOption (by decide +kernel)
  have listed : ofText listedVersion = .ok (⟨⟨7⟩, "1.0", none⟩ : ProductVersion) :=
    eq_ok_of_toOption (by decide +kernel)
  have short : ofText shortResult = .ok (⟨⟨100⟩, .success, none, []⟩ : ReleaseResult) :=
    eq_ok_of_toOption (by decide +kernel)
  exact ⟨_, _, shuffled, listed, versions.again _ _ shuffled, short, results.again _ _ short⟩

/-! ### Other forms -/

/-- The objects and the array from which a value is read. Some fields can be spared. -/
structure TakesForms (α : Type) [Wire α] (Fits : α → Prop) (spare : List (String × Json)) :
    Prop where
  object : ∀ (a : α) fields given, Fits a → encode a = .object fields → Holds fields spare given →
    decode (.object given) = .ok a
  array : ∀ (a : α) fields, Fits a → encode a = .object fields →
    decode (.array (fields.map Prod.snd)) = .ok a

theorem TakesForms.of_told {Fits : α → Prop} {f : Fields α} {spare : List (String × Json)}
    (told : ∀ {a : α}, Fits a → Told f spare a) (same : (decode : Decoder α) = f.decoder) :
    TakesForms α Fits spare where
  object a fields given fits written holds := by
    obtain ⟨fields', written', distinct, reads⟩ := told fits
    obtain rfl : fields = fields' := by simpa [written'] using written.symm
    rw [same]
    exact reads.decoder_object distinct holds
  array a fields fits written := by
    obtain ⟨fields', written', distinct, reads⟩ := told fits
    obtain rfl : fields = fields' := by simpa [written'] using written.symm
    rw [same]
    exact reads.decoder_array distinct

/-- Records are taken in any order of their fields, with others between them, without those that are
null or have a default, and as arrays; and messages likewise. -/
theorem values_take_forms :
    TakesForms BuildConfiguration (fun _ => True) [("scm_revision", .null),
        ("build_script", .string ""), ("environment", .object []), ("dependencies", .array [])] ∧
      TakesForms BuildJob (fun _ => True) [("callback_url", .null)] ∧
      TakesForms BuildDetails BuildDetails.Fits [("build_number", .null)] ∧
      TakesForms BuildResult BuildResult.Fits [("details", .null), ("error", .null)] ∧
      TakesForms BuildRecord (fun _ => True) [("scm_revision", .null)] ∧
      TakesForms ReleaseResult ReleaseResult.Fits [("errorMessage", .null), ("builds", .array [])] ∧
      TakesForms ProductVersion (fun _ => True) [("current_milestone_id", .null)] ∧
      TakesForms Milestone (fun _ => True) [("starting_date", .null), ("end_date", .null)] ∧
      TakesForms ReleaseAttempt (fun _ => True) [("end_date", .null)] ∧
      ∀ (n : Notification) fields, encode n = .object fields →
        decode (.array (fields.map Prod.snd)) = .ok n ∧
        ∀ given, Holds fields [] given → (Json.object given).isSound 127 = true →
          decode (.object given) = .ok n := by
  refine ⟨.of_told (fun _ => told_configuration _) rfl, .of_told (fun _ => told_job _) rfl,
    .of_told told_details rfl, .of_told told_result rfl, .of_told (fun _ => told_record _) rfl,
    .of_told told_releaseResult rfl, .of_told (fun _ => told_version _) rfl,
    .of_told (fun _ => told_milestone _) rfl, .of_told (fun _ => told_attempt _) rfl,
    fun n fields written => ?_⟩
  obtain ⟨name, f, fields', known, written', distinct, sound, reads⟩ := told_notification n
  obtain rfl : fields = ("type", .string name) :: fields' := by simpa [written'] using written.symm
  rw [written'] at sound
  have untagged : ∀ p ∈ fields', p.1 ≠ "type" := fun p hp he =>
    (List.nodup_cons.mp distinct).1 (List.mem_map.mpr ⟨p, hp, he⟩)
  exact ⟨reads.tagged_array known (List.nodup_cons.mp distinct).2 sound, fun given holds sound' =>
    reads.tagged_object known (List.nodup_cons.mp distinct).2 untagged (by simp) holds sound'⟩

end Wire

end Foreman
