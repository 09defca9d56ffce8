import Turnstile.Wire.Reading

/-!
# Settings of logs and metrics
-/

namespace Turnstile

/-! ### Logs -/

/-- How log entries are written. -/
inductive LogFormat
  /-- One JSON object an entry. -/
  | json
  /-- Several lines an entry, for people. -/
  | pretty
  /-- One line an entry. -/
  | compact
deriving DecidableEq, Repr, Inhabited

namespace LogFormat

def labels : List (String × LogFormat) := [("json", json), ("pretty", pretty), ("compact", compact)]

def label : LogFormat → String
  | json => "json"
  | pretty => "pretty"
  | compact => "compact"

def toJson (f : LogFormat) : Json := .str f.label

def ofJson? (v : Json) : Option LogFormat := Json.reading.ofChoice? labels v

end LogFormat

/-- Which moments of a span are noted as entries. -/
structure SpanEvents where
  onNew : Bool
  onEnter : Bool
  onExit : Bool
  onClose : Bool
deriving DecidableEq, Inhabited

namespace SpanEvents

def none : SpanEvents := { onNew := false, onEnter := false, onExit := false, onClose := false }

def toJson (s : SpanEvents) : Json :=
  .obj
    [ ("on_new", .bool s.onNew), ("on_enter", .bool s.onEnter), ("on_exit", .bool s.onExit),
      ("on_close", .bool s.onClose) ]

def read? (r : Reading V) (v : V) : Option SpanEvents := do
  let fs ← r.fields? ["on_new", "on_enter", "on_exit", "on_close"] v
  pure
    { onNew := ← fs.defaulted? "on_new" false r.bool?
      onEnter := ← fs.defaulted? "on_enter" false r.bool?
      onExit := ← fs.defaulted? "on_exit" false r.bool?
      onClose := ← fs.defaulted? "on_close" false r.bool? }

end SpanEvents

/-- What is logged, and how. -/
structure LogSettings where
  /-- Filter directives for everything. -/
  level : String
  format : LogFormat
  /-- Levels of single parts of the program. -/
  moduleLevels : List (String × String)
  includeLocation : Bool
  includeThread : Bool
  includeTarget : Bool
  spanEvents : SpanEvents
deriving DecidableEq, Inhabited

namespace LogSettings

def default : LogSettings :=
  { level := "info", format := .json, moduleLevels := [], includeLocation := false,
    includeThread := false, includeTarget := true, spanEvents := SpanEvents.none }

def textTable (entries : List (String × String)) : Json :=
  .obj (entries.map fun (k, v) => (k, .str v))

def toJson (s : LogSettings) : Json :=
  .obj
    [ ("level", .str s.level), ("format", s.format.toJson),
      ("module_levels", textTable s.moduleLevels), ("include_location", .bool s.includeLocation),
      ("include_thread", .bool s.includeThread), ("include_target", .bool s.includeTarget),
      ("span_events", s.spanEvents.toJson) ]

def read? (r : Reading V) (v : V) : Option LogSettings := do
  let fs ← r.fields?
    [ "level", "format", "module_levels", "include_location", "include_thread", "include_target",
      "span_events" ] v
  pure
    { level := ← fs.defaulted? "level" default.level r.text?
      format := ← fs.defaulted? "format" default.format (r.ofChoice? LogFormat.labels)
      moduleLevels := ← fs.defaulted? "module_levels" [] (r.tableOf? r.text?)
      includeLocation := ← fs.defaulted? "include_location" default.includeLocation r.bool?
      includeThread := ← fs.defaulted? "include_thread" default.includeThread r.bool?
      includeTarget := ← fs.defaulted? "include_target" default.includeTarget r.bool?
      spanEvents := ← fs.defaulted? "span_events" SpanEvents.none (SpanEvents.read? r) }

end LogSettings

/-! ### Metrics -/

/-- Whether and how metrics are kept. -/
structure MetricsSettings where
  enabled : Bool
  /-- Where metrics would be served. -/
  endpoint : String
  /-- Upper bounds of the histogram of job durations, in seconds. -/
  durationBuckets : List Double
  /-- Labels on every series. -/
  globalLabels : List (String × String)
deriving DecidableEq, Inhabited

namespace MetricsSettings

/-- From ten milliseconds to a quarter of an hour. -/
def defaultBuckets : List Double :=
  [ Double.ofDecimal false 1 (-2), Double.ofDecimal false 5 (-2), Double.ofDecimal false 1 (-1),
    Double.ofDecimal false 5 (-1), Double.ofNat 1, Double.ofNat 5, Double.ofNat 15, Double.ofNat 60,
    Double.ofNat 300, Double.ofNat 900 ]

def default : MetricsSettings :=
  { enabled := true, endpoint := "0.0.0.0:9090", durationBuckets := defaultBuckets,
    globalLabels := [] }

def toJson (s : MetricsSettings) : Json :=
  .obj
    [ ("enabled", .bool s.enabled), ("endpoint", .str s.endpoint),
      ("duration_buckets", .arr (s.durationBuckets.map .double)),
      ("global_labels", LogSettings.textTable s.globalLabels) ]

def read? (r : Reading V) (v : V) : Option MetricsSettings := do
  let fs ← r.fields? ["enabled", "endpoint", "duration_buckets", "global_labels"] v
  pure
    { enabled := ← fs.defaulted? "enabled" default.enabled r.bool?
      endpoint := ← fs.defaulted? "endpoint" default.endpoint r.text?
      durationBuckets := ← fs.defaulted? "duration_buckets" defaultBuckets (r.listOf? r.double?)
      globalLabels := ← fs.defaulted? "global_labels" [] (r.tableOf? r.text?) }

end MetricsSettings

/-! ### Both -/

structure TelemetrySettings where
  serviceName : String
  /-- Where the program runs, such as `development` or `production`. -/
  environment : String
  logging : LogSettings
  metrics : MetricsSettings
deriving DecidableEq, Inhabited

namespace TelemetrySettings

/-- The environment where nothing names one. -/
def usualEnvironment : String := "development"

/-- The settings where nothing is said; `environment` is what the surroundings name. -/
def default (environment : String) : TelemetrySettings :=
  { serviceName := "jobgate", environment, logging := LogSettings.default,
    metrics := MetricsSettings.default }

def toJson (s : TelemetrySettings) : Json :=
  .obj
    [ ("service_name", .str s.serviceName), ("environment", .str s.environment),
      ("logging", s.logging.toJson), ("metrics", s.metrics.toJson) ]

def read? (r : Reading V) (environment : String) (v : V) : Option TelemetrySettings := do
  let fs ← r.fields? ["service_name", "environment", "logging", "metrics"] v
  pure
    { serviceName := ← fs.defaulted? "service_name" (default environment).serviceName r.text?
      environment := ← fs.defaulted? "environment" environment r.text?
      logging := ← fs.defaulted? "logging" LogSettings.default (LogSettings.read? r)
      metrics := ← fs.defaulted? "metrics" MetricsSettings.default (MetricsSettings.read? r) }

end TelemetrySettings

end Turnstile
