import Turnstile.Proofs.Wire.Sections

/-!
# Decoding is stable

`Form` names the types that have a JSON form: jobs and their errors, members of sets, details of
faults, policies, backoffs, and the settings with all their sections and choices. Whatever a value
was read from, what is written of it reads as that value again, wherever it is read.
-/

namespace Turnstile

/-- Where a value is read: whether from the text of a document, and which environment the surroundings
name. -/
structure Source where
  document : Bool
  environment : String

/-- The types that have a JSON form. -/
inductive Form : Type → Type
  | job : Form Job
  | workError : Form WorkError
  | runningJob : Form RunningJob
  | setMember : Form SetMember
  | faultDetails : Form FaultDetails
  | releasePoint : Form ReleasePoint
  | dedupPolicy : Form DedupPolicy
  | backoff : Form Backoff
  | settings : Form Settings
  | storeSection : Form StoreBackend
  | storeBackend : Form StoreBackend
  | serverSection : Form ServerSettings
  | runningSection : Form RunningSettings
  | dedupSection : Form DedupPolicy
  | leaseSection : Form LeaseSettings
  | backoffKind : Form BackoffKind
  | livenessSection : Form Liveness
  | telemetrySection : Form TelemetrySettings
  | logSection : Form LogSettings
  | logFormat : Form LogFormat
  | spanEvents : Form SpanEvents
  | metricsSection : Form MetricsSettings

namespace Form

def read? (source : Source) : Form α → Json → Option α
  | job => Job.ofJson?
  | workError => WorkError.ofJson?
  | runningJob => RunningJob.ofJson?
  | setMember => SetMember.ofJson?
  | faultDetails => FaultDetails.ofJson?
  | releasePoint => ReleasePoint.ofJson?
  | dedupPolicy => DedupPolicy.ofJson?
  | backoff => Backoff.readJson? source.document
  | settings => Settings.read? Json.reading source.environment
  | storeSection => Settings.readBackend? Json.reading
  | storeBackend => StoreBackend.ofJson?
  | serverSection => ServerSettings.read? Json.reading
  | runningSection => RunningSettings.read? Json.reading
  | dedupSection => DedupPolicy.readDefault? Json.reading
  | leaseSection => LeaseSettings.read? Json.reading
  | backoffKind => BackoffKind.ofJson?
  | livenessSection => Liveness.read? Json.reading
  | telemetrySection => TelemetrySettings.read? Json.reading source.environment
  | logSection => LogSettings.read? Json.reading
  | logFormat => LogFormat.ofJson?
  | spanEvents => SpanEvents.read? Json.reading
  | metricsSection => MetricsSettings.read? Json.reading

def write : Form α → α → Json
  | job => Job.toJson
  | workError => WorkError.toJson
  | runningJob => RunningJob.toJson
  | setMember => SetMember.toJson
  | faultDetails => FaultDetails.toJson
  | releasePoint => ReleasePoint.toJson
  | dedupPolicy => DedupPolicy.toJson
  | backoff => Backoff.toJson
  | settings => Settings.toJson
  | storeSection => fun b => .obj [("backend", b.toJson)]
  | storeBackend => StoreBackend.toJson
  | serverSection => ServerSettings.toJson
  | runningSection => RunningSettings.toJson
  | dedupSection => DedupPolicy.defaultToJson
  | leaseSection => LeaseSettings.toJson
  | backoffKind => BackoffKind.toJson
  | livenessSection => Liveness.toJson
  | telemetrySection => TelemetrySettings.toJson
  | logSection => LogSettings.toJson
  | logFormat => LogFormat.toJson
  | spanEvents => SpanEvents.toJson
  | metricsSection => MetricsSettings.toJson

/-- What is written of a value that was read from anything reads as that value. -/
theorem read?_write_of_read? {α : Type} (form : Form α) (source source' : Source) {v : Json} {a : α}
    (h : form.read? source v = some a) : form.read? source' (form.write a) = some a := by
  cases form with
  | job => exact Job.reread h
  | workError => exact WorkError.reread h
  | runningJob => exact RunningJob.reread h
  | setMember => exact SetMember.reread h
  | faultDetails => exact FaultDetails.reread h
  | releasePoint => exact ReleasePoint.ofJson?_toJson a
  | dedupPolicy => exact DedupPolicy.reread h
  | backoff => exact Backoff.reread source.document source'.document h
  | settings => exact Settings.reread source.environment source'.environment h
  | storeSection => exact Settings.readBackend?_written a
  | storeBackend => exact StoreBackend.ofJson?_toJson a
  | serverSection => exact ServerSettings.read?_toJson a
  | runningSection => exact RunningSettings.reread h
  | dedupSection => exact DedupPolicy.default_reread h
  | leaseSection => exact LeaseSettings.reread h
  | backoffKind => exact BackoffKind.ofJson?_toJson a
  | livenessSection => exact Liveness.reread h
  | telemetrySection => exact TelemetrySettings.reread source.environment source'.environment h
  | logSection => exact LogSettings.reread h
  | logFormat => exact LogFormat.ofJson?_toJson a
  | spanEvents => exact SpanEvents.read?_toJson a
  | metricsSection => exact MetricsSettings.reread h

/-- A job as a list of its fields, with a time away from UTC and a key of an argument repeated. -/
def listedJob : Json :=
  .arr
    [ .str "mail", .arr [.obj [("to", .int 1), ("to", .int 2)]], .str "j1", .null,
      .str "2024-01-02T03:04:05+02:00" ]

/-- The job that the list stands for. -/
def mailJob : Job :=
  { Job.create "mail" [.obj [("to", .int 2)]] "j1" with scheduledAt := some ⟨1704157445, 0⟩ }

theorem read?_write_mailJob :
    job.read? ⟨true, "production"⟩ listedJob = some mailJob ∧
      job.read? ⟨false, "development"⟩ (job.write mailJob) = some mailJob := by
  have hdue : Json.reading.instant? (.str "2024-01-02T03:04:05+02:00") = some ⟨1704157445, 0⟩ :=
    (Json.instant?_str _).trans (by decide +kernel)
  have hread : job.read? ⟨true, "production"⟩ listedJob = some mailJob := by
    -- All fields but the time are read by computation.
    show (Json.reading.optional? Json.reading.instant? (.str "2024-01-02T03:04:05+02:00")).bind
      (fun due => some { mailJob with scheduledAt := due }) = some mailJob
    rw [Reading.optional?, hdue]
    rfl
  exact ⟨hread, read?_write_of_read? job _ _ hread⟩

end Form

end Turnstile
