import Turnstile.Journal.Shown
import Turnstile.Time.Duration

/-!
# What the engine notes in its log

A `Notice` is something worth logging, with the facts that belong to it. `Notice.entry` is its log
entry: the level, the part of the program that notes it, the message and the fields.
-/

namespace Turnstile

/-- How important a log entry is, the most important first. -/
inductive LogLevel
  | error
  | warn
  | info
  | debug
  | trace
deriving DecidableEq, Repr

namespace LogLevel

/-- Zero for the most important level. -/
def rank : LogLevel → Nat
  | error => 0
  | warn => 1
  | info => 2
  | debug => 3
  | trace => 4

def name : LogLevel → String
  | error => "ERROR"
  | warn => "WARN"
  | info => "INFO"
  | debug => "DEBUG"
  | trace => "TRACE"

end LogLevel

/-- The value of a field of a log entry. -/
inductive FieldValue
  /-- Text that is written as it is. -/
  | plain (text : String)
  /-- Text that is written in quotes where values are told apart from text. -/
  | text (text : String)
  | count (n : Nat)
  | flag (b : Bool)
deriving DecidableEq, Repr

/-- One entry of the log. -/
structure LogEntry where
  level : LogLevel
  /-- The part of the program that notes it. -/
  source : String
  message : String
  /-- A field named `message` takes the place of the message where each name stands once. -/
  fields : List (String × FieldValue)

/-- Something worth logging. -/
inductive Notice
  | deadJobsRemoved (kind : String) (removed : Nat)
  | statusNotWritten (id : String) (fault : Fault)
  | scheduledPromoted (promoted : Nat)
  | statusNotCleared (kind id : String) (fault : Fault)
  | drained (kind : String) (succeeded failed : Nat) (emptied : Bool)
  | noCapacity (kind id : String)
  | notRegistered (kind id : String) (fault : Fault)
  | notCleanedUp (kind : String) (fault : Fault)
  | fannedOut (kind : String) (submitted : Nat)
  | queueSizeUnknown (kind : String) (fault : Fault)
  | runningCountUnknown (kind : String) (fault : Fault)
  | notRemoved (kind id : String) (fault : Fault)
  | keyOwned (kind id : String)
  | duplicateFound (kind id owner : String)
  | checkFailed (kind id : String) (fault : Fault)
  | keyReleased (kind id : String)
  | keyNotReleased (kind id : String) (fault : Fault)
  | lockObtained (key : String) (retried : Bool)
  | lockNotReleased (key : String) (fault : Fault)
  | loopFinished (iterations : Nat)
  | loopTimedOut (iterations : Nat) (timeout : Duration)
  | loopLimitReached (limit : Nat)
  | fault (f : Fault)
  | metricsReady (service endpoint : String)
  | telemetryShutDown
  | storeConnected (url keyspace : String)

namespace Notice

/-! ### The parts of the program -/

def inRunningSets : String := "jobgate_core::jobs::registry"

def inTransport : String := "jobgate_core::jobs::transport"

def inDispatcher : String := "jobgate_core::jobs::executor"

def inWorkers : String := "jobgate_core::jobs::limited_capacity"

def inMarking : String := "jobgate_core::jobs::duplicate::client"

def inReleasing : String := "jobgate_core::jobs::duplicate::server"

def inLocks : String := "jobgate_core::lease::helpers"

def inMaintenance : String := "jobgate_core::maintenance"

def inFaults : String := "jobgate_core::error"

def inTelemetry : String := "jobgate_core::telemetry"

def inMetrics : String := "jobgate_core::telemetry::metrics"

def inServerStore : String := "jobgate_core::store::redis_store"

/-! ### Entries -/

def kindField (kind : String) : String × FieldValue := ("job_kind", .plain kind)

def jobFields (kind id : String) : List (String × FieldValue) :=
  [kindField kind, ("job_id", .plain id)]

def faultField (f : Fault) : String × FieldValue := ("error", .plain f.display)

/-- The entry of a fault that is noted for itself; the more severe it is, the more is shown. -/
def faultEntry (f : Fault) : LogEntry :=
  let common : List (String × FieldValue) :=
    [ ("error_code", .plain f.code.name), ("category", .text f.code.category),
      ("message", .plain f.message) ]
  let internal : String × FieldValue :=
    ("internal_message", .plain (Shown.option Text.quoted f.internal))
  match f.severity with
  | .critical =>
    { level := .error, source := inFaults, message := "CRITICAL ERROR",
      fields := common ++
        [ internal, ("details", .plain (Shown.details f.details)),
          ("source", .plain (Shown.option Shown.cause f.cause)) ] }
  | .high =>
    { level := .error, source := inFaults, message := "High severity error",
      fields := common ++ [internal] }
  | .medium =>
    { level := .warn, source := inFaults, message := "Medium severity error", fields := common }
  | .low =>
    { level := .debug, source := inFaults, message := "Low severity error", fields := common }

/-- The log entry of a notice. -/
def entry : Notice → LogEntry
  | deadJobsRemoved kind removed =>
    { level := .debug, source := inRunningSets, message := "Cleaned up dead running jobs",
      fields := [kindField kind, ("removed", .count removed)] }
  | statusNotWritten id f =>
    { level := .warn, source := inTransport, message := "Failed to write job status",
      fields := [("job_id", .plain id), faultField f] }
  | scheduledPromoted promoted =>
    { level := .debug, source := inTransport, message := "Promoted scheduled jobs",
      fields := [("promoted", .count promoted)] }
  | statusNotCleared kind id f =>
    { level := .warn, source := inDispatcher, message := "Failed to clear job status",
      fields := jobFields kind id ++ [faultField f] }
  | drained kind succeeded failed emptied =>
    { level := .info, source := inDispatcher, message := "Drain finished",
      fields :=
        [ kindField kind, ("succeeded", .count succeeded), ("failed", .count failed),
          ("emptied", .flag emptied) ] }
  | noCapacity kind id =>
    { level := .debug, source := inWorkers, message := "No capacity, skipping",
      fields := jobFields kind id }
  | notRegistered kind id f =>
    { level := .warn, source := inWorkers, message := "Failed to register running job",
      fields := jobFields kind id ++ [faultField f] }
  | notCleanedUp kind f =>
    { level := .warn, source := inWorkers, message := "Failed to clean up running jobs",
      fields := [kindField kind, faultField f] }
  | fannedOut kind submitted =>
    { level := .debug, source := inWorkers, message := "Fanned out limited capacity jobs",
      fields := [kindField kind, ("submitted", .count submitted)] }
  | queueSizeUnknown kind f =>
    { level := .warn, source := inWorkers, message := "Failed to read queue size",
      fields := [kindField kind, faultField f] }
  | runningCountUnknown kind f =>
    { level := .warn, source := inWorkers, message := "Failed to count running jobs",
      fields := [kindField kind, faultField f] }
  | notRemoved kind id f =>
    { level := .warn, source := inWorkers, message := "Failed to remove running job",
      fields := jobFields kind id ++ [faultField f] }
  | keyOwned kind id =>
    { level := .debug, source := inMarking, message := "Job owns its idempotency key",
      fields := jobFields kind id }
  | duplicateFound kind id owner =>
    { level := .info, source := inMarking, message := "Duplicate job",
      fields := jobFields kind id ++ [("duplicate_of", .plain owner)] }
  | checkFailed kind id f =>
    { level := .warn, source := inMarking,
      message := "Deduplication check failed, submitting unmarked",
      fields := jobFields kind id ++ [faultField f] }
  | keyReleased kind id =>
    { level := .debug, source := inReleasing, message := "Released idempotency key",
      fields := jobFields kind id }
  | keyNotReleased kind id f =>
    { level := .warn, source := inReleasing, message := "Failed to release idempotency key",
      fields := jobFields kind id ++ [faultField f] }
  | lockObtained key retried =>
    { level := .debug, source := inLocks, message := "Lock obtained",
      fields := [("lease_key", .plain key), ("retried", .flag retried)] }
  | lockNotReleased key f =>
    { level := .warn, source := inLocks, message := "Failed to release lock, it will expire",
      fields := [("lease_key", .plain key), faultField f] }
  | loopFinished iterations =>
    { level := .debug, source := inMaintenance, message := "Loop finished",
      fields := [("iterations", .count iterations)] }
  | loopTimedOut iterations timeout =>
    { level := .info, source := inMaintenance, message := "Loop stopped at timeout",
      fields := [("iterations", .count iterations), ("timeout", .plain timeout.unitText)] }
  | loopLimitReached limit =>
    { level := .info, source := inMaintenance, message := "Loop stopped at iteration limit",
      fields := [("limit", .count limit)] }
  | fault f => faultEntry f
  | metricsReady service endpoint =>
    { level := .info, source := inMetrics, message := "Metrics initialized",
      fields := [("service_name", .plain service), ("endpoint", .plain endpoint)] }
  | telemetryShutDown =>
    { level := .info, source := inTelemetry, message := "Telemetry shutdown complete", fields := [] }
  | storeConnected url keyspace =>
    { level := .info, source := inServerStore, message := "Redis store connected",
      fields := [("url", .plain url), ("key_prefix", .plain keyspace)] }

end Notice

/-- A stretch of work that log entries lie in. -/
structure LogSpan where
  name : String
  level : LogLevel
  source : String
  fields : List (String × FieldValue)

def LogSpan.runNext (kind : String) : LogSpan :=
  { name := "run_next", level := .info, source := Notice.inDispatcher,
    fields := [("job_kind", .text kind)] }

/-- What is written to the journal: notices, and spans as they begin, are entered and left, and
end. -/
inductive JournalRecord
  | notice (n : Notice)
  | opened (span : LogSpan)
  | entered (span : LogSpan)
  | left (span : LogSpan)
  | closed (span : LogSpan)

end Turnstile
