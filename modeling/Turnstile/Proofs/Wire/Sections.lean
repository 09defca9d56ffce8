import Turnstile.Proofs.Wire.Records
import Turnstile.Settings.Basic

/-!
# Rereading of settings

Every section reads again as it was read, and so do all together. The environment that the
surroundings name plays no part in that: what is written of settings says where the program runs.
-/

namespace Turnstile

open Json

/-! ### Choices -/

@[simp]
theorem StoreBackend.ofJson?_toJson (b : StoreBackend) :
    reading.ofChoice? labels b.toJson = some b := by
  cases b <;> rfl

@[simp]
theorem BackoffKind.ofJson?_toJson (k : BackoffKind) :
    reading.ofChoice? labels k.toJson = some k := by
  cases k <;> rfl

@[simp]
theorem LogFormat.ofJson?_toJson (f : LogFormat) :
    reading.ofChoice? labels f.toJson = some f := by
  cases f <;> rfl

/-! ### Sections of the engine -/

theorem Settings.readBackend?_written (b : StoreBackend) :
    readBackend? reading (.obj [("backend", b.toJson)]) = some b := by
  simp [readBackend?, fields?_obj, Fields.defaulted?, Fields.get?]

theorem ServerSettings.read?_toJson (s : ServerSettings) : read? reading s.toJson = some s := by
  simp [read?, toJson, fields?_obj, Fields.defaulted?, Fields.get?]

namespace RunningSettings

theorem duration?_default : reading.duration? (spelled default.entryTtl) = some default.entryTtl :=
  duration?_spelled (by decide)

theorem reread : Reread (read? reading) toJson (read? reading) := by
  intro v s h
  simp only [read?, Option.bind_eq_bind, Option.bind_eq_some_iff, Option.pure_def,
    Option.some.injEq] at h
  obtain ⟨fs, -, entryTtl, httl, batchSize, hsize, rfl⟩ := h
  have httl := Fields.reread_defaulted duration_reread duration?_default httl
  have hsize := Fields.reread_defaulted (word_reread 64) (word?_ofNat (by decide)) hsize
  simp [read?, toJson, fields?_obj, Fields.defaulted?, Fields.get?, httl, hsize]

end RunningSettings

theorem DedupPolicy.default_reread :
    Reread (readDefault? reading) defaultToJson (readDefault? reading) := by
  intro v p h
  simp only [readDefault?, Option.bind_eq_bind, Option.bind_eq_some_iff, Option.pure_def,
    Option.some.injEq] at h
  obtain ⟨fs, -, release, -, scheduled, -, ttl, httl, rfl⟩ := h
  have httl := Fields.reread_defaulted duration_reread duration?_defaultTtl httl
  simp [readDefault?, defaultToJson, fields?_obj, Fields.defaulted?, Fields.get?, httl]

namespace LeaseSettings

theorem reread : Reread (read? reading) toJson (read? reading) := by
  intro v s h
  simp only [read?, Option.bind_eq_bind, Option.bind_eq_some_iff, Option.pure_def,
    Option.some.injEq] at h
  obtain ⟨fs, -, ttl, httl, retries, hretries, retryDelay, hdelay, backoff, -, rfl⟩ := h
  have httl := Fields.reread_defaulted duration_reread (duration?_spelled (by decide)) httl
  have hretries := Fields.reread_defaulted (word_reread 32) (word?_ofNat (by decide)) hretries
  have hdelay := Fields.reread_defaulted duration_reread (duration?_spelled (by decide)) hdelay
  simp [read?, toJson, fields?_obj, Fields.defaulted?, Fields.get?, httl, hretries, hdelay]

end LeaseSettings

theorem Liveness.reread : Reread (read? reading) toJson (read? reading) := by
  intro v l h
  simp only [read?, Option.bind_eq_bind, Option.bind_eq_some_iff, Option.pure_def,
    Option.some.injEq] at h
  obtain ⟨fs, -, ttl, httl, rfl⟩ := h
  have httl := Fields.reread_defaulted duration_reread (duration?_spelled (by decide)) httl
  simp [read?, toJson, fields?_obj, Fields.defaulted?, Fields.get?, httl]

/-! ### Logs and metrics -/

theorem SpanEvents.read?_toJson (s : SpanEvents) : read? reading s.toJson = some s := by
  simp [read?, toJson, fields?_obj, Fields.defaulted?, Fields.get?]

theorem LogSettings.reread : Reread (read? reading) toJson (read? reading) := by
  intro v s h
  simp only [read?, Option.bind_eq_bind, Option.bind_eq_some_iff, Option.pure_def,
    Option.some.injEq] at h
  obtain ⟨fs, -, level, -, format, -, moduleLevels, hlevels, location, -, thread, -, target, -,
    spanEvents, -, rfl⟩ := h
  have hlevels : reading.tableOf? reading.text? (textTable moduleLevels) = some moduleLevels :=
    Fields.reread_defaulted (table_reread (.of_forall text?_str)) rfl hlevels
  simp [read?, toJson, fields?_obj, Fields.defaulted?, Fields.get?, hlevels,
    SpanEvents.read?_toJson]

theorem MetricsSettings.reread : Reread (read? reading) toJson (read? reading) := by
  intro v s h
  simp only [read?, Option.bind_eq_bind, Option.bind_eq_some_iff, Option.pure_def,
    Option.some.injEq] at h
  obtain ⟨fs, -, enabled, -, endpoint, -, buckets, hbuckets, labels, hlabels, rfl⟩ := h
  have hbuckets : reading.listOf? reading.double? (ofList .double buckets) = some buckets :=
    Fields.reread_defaulted (list_reread (.of_forall double?_double)) rfl hbuckets
  have hlabels : reading.tableOf? reading.text? (LogSettings.textTable labels) = some labels :=
    Fields.reread_defaulted (table_reread (.of_forall text?_str)) rfl hlabels
  rw [ofList] at hbuckets
  simp [read?, toJson, fields?_obj, Fields.defaulted?, Fields.get?, hbuckets, hlabels]

theorem TelemetrySettings.reread (environment environment' : String) :
    Reread (read? reading environment) toJson (read? reading environment') := by
  intro v s h
  simp only [read?, Option.bind_eq_bind, Option.bind_eq_some_iff, Option.pure_def,
    Option.some.injEq] at h
  obtain ⟨fs, -, name, -, where', -, logging, hlogging, metrics, hmetrics, rfl⟩ := h
  -- The default of a section is what an empty table reads as, and reads again like it.
  have hlogging := Fields.reread_defaulted LogSettings.reread
    (LogSettings.reread (v := .obj []) rfl) hlogging
  have hmetrics := Fields.reread_defaulted MetricsSettings.reread
    (MetricsSettings.reread (v := .obj []) rfl) hmetrics
  simp [read?, toJson, fields?_obj, Fields.defaulted?, Fields.get?, hlogging, hmetrics]

/-! ### All sections -/

theorem Settings.reread (environment environment' : String) :
    Reread (read? reading environment) toJson (read? reading environment') := by
  intro v s h
  simp only [read?, Option.bind_eq_bind, Option.bind_eq_some_iff, Option.pure_def,
    Option.some.injEq] at h
  obtain ⟨fs, -, backend, -, server, -, running, hrunning, dedup, hdedup, lease, hlease, liveness,
    hliveness, telemetry, htelemetry, rfl⟩ := h
  have hrunning := Fields.reread_defaulted RunningSettings.reread
    (RunningSettings.reread (v := .obj []) rfl) hrunning
  have hdedup := Fields.reread_defaulted DedupPolicy.default_reread
    (DedupPolicy.default_reread (v := .obj []) rfl) hdedup
  have hlease := Fields.reread_defaulted LeaseSettings.reread
    (LeaseSettings.reread (v := .obj []) rfl) hlease
  have hliveness := Fields.reread_defaulted Liveness.reread
    (Liveness.reread (v := .obj []) rfl) hliveness
  have htelemetry := Fields.reread_defaulted (TelemetrySettings.reread environment environment')
    (TelemetrySettings.reread environment environment' (v := .obj []) rfl) htelemetry
  simp [read?, toJson, fields?_obj, Fields.defaulted?, Fields.get?, readBackend?_written,
    ServerSettings.read?_toJson, hrunning, hdedup, hlease, hliveness, htelemetry]

end Turnstile
