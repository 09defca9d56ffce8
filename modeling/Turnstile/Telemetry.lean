import Turnstile.Journal.Writer
import Turnstile.Metrics.Series

/-!
# Logs and metrics of a process

Telemetry is started once in a process, from settings that are found sound, and is then asked for
what was logged and for the metrics that were kept.
-/

namespace Turnstile

/-- Why telemetry is not started. -/
inductive TelemetryFault
  /-- Metrics are asked for without any bound of the histogram. -/
  | noBounds
  | alreadyStarted
  /-- A directive of the log filter cannot be read. -/
  | unreadableFilter
deriving DecidableEq, Repr

/-- The telemetry of a process. -/
structure Telemetry where
  writer : LogWriter
  /-- How metrics are kept; where they are not, nothing. -/
  metrics : Option MetricsSettings

namespace Telemetry

/-- Starts telemetry in a process, which may have some that runs. -/
def start (running : Option Telemetry) (s : TelemetrySettings) : Except TelemetryFault Telemetry :=
  if s.metrics.enabled && s.metrics.durationBuckets.isEmpty then .error .noBounds
  else
    match LogWriter.ofSettings? s, running with
    | none, _ => .error .unreadableFilter
    | some _, some _ => .error .alreadyStarted
    | some writer, none =>
      .ok { writer, metrics := if s.metrics.enabled then some s.metrics else none }

def keepsMetrics (t : Telemetry) : Bool := t.metrics.isSome

/-- The structured text of whether metrics are kept. -/
def shown (t : Telemetry) : String :=
  Shown.record "MetricsRegistry" [("prometheus_handle", toString t.keepsMetrics)]

/-- The metrics as they are read, one sample a line. -/
def exposition (t : Telemetry) (m : MetricValues) : List String :=
  match t.metrics with
  | none => []
  | some s => m.buckets s.globalLabels s.durationBuckets ++ m.samples s.globalLabels

/-- What is logged up to the shutdown, which is noted itself; the first record comes first. -/
def log (t : Telemetry) (records : List JournalRecord) : List LogLine :=
  t.writer.lines (records ++ [.notice .telemetryShutDown])

end Telemetry

end Turnstile
