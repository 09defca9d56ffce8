import Turnstile.Decimal.Shortest
import Turnstile.Fault.Code
import Turnstile.Text.Scan

/-!
# Metrics

A series is a metric name with labels. The engine adds to counters, sets gauges, and observes how
long jobs took; `MetricValues` keeps all three. The names are those of the specification,
section 10.2.
-/

namespace Turnstile

/-- A metric name with labels in the order in which they are written. -/
structure Series where
  name : String
  labels : List (String × String)
deriving DecidableEq, Repr

/-- The outcome of one attempt to take a lease. -/
inductive LeaseAttempt
  | acquired
  | contended
  | exhausted
deriving DecidableEq, Repr

def LeaseAttempt.label : LeaseAttempt → String
  | acquired => "acquired"
  | contended => "contended"
  | exhausted => "exhausted"

/-- An event that the engine counts. -/
inductive Tally
  | fault (code : FaultCode)
  | duplicate (kind : String)
  | leaseAttempt (outcome : LeaseAttempt)
  | capacitySkip (kind : String)
  /-- A job ran to its end, well or not; its time goes into a histogram. -/
  | jobFinished (kind : String) (succeeded : Bool)
deriving DecidableEq, Repr

/-- What a worker reports about itself. -/
inductive Gauge
  | runningJobs
  | maxRunningJobs
  | remainingWork
deriving DecidableEq, Repr

namespace Gauge

def name : Gauge → String
  | runningJobs => "limited_capacity_worker_running_jobs"
  | maxRunningJobs => "limited_capacity_worker_max_running_jobs"
  | remainingWork => "limited_capacity_worker_remaining_work_count"

def all : List Gauge := [runningJobs, maxRunningJobs, remainingWork]

def series (g : Gauge) (worker : String) : Series := { name := g.name, labels := [("worker", worker)] }

end Gauge

namespace Tally

/-- The histogram of job durations. -/
def durationName : String := "jobgate_job_duration_seconds"

def series : Tally → Series
  | fault code =>
    { name := "jobgate_errors_total",
      labels :=
        [("code", code.name), ("category", code.category), ("severity", code.severity.name)] }
  | duplicate kind => { name := "jobgate_duplicate_jobs_total", labels := [("job_kind", kind)] }
  | leaseAttempt outcome =>
    { name := "jobgate_lease_attempts_total", labels := [("outcome", outcome.label)] }
  | capacitySkip kind => { name := "jobgate_capacity_skips_total", labels := [("job_kind", kind)] }
  | jobFinished kind succeeded =>
    { name := durationName,
      labels := [("job_kind", kind), ("outcome", if succeeded then "success" else "failure")] }

def isObservation : Tally → Bool
  | jobFinished .. => true
  | _ => false

end Tally

/-! ### Values -/

def bump [DecidableEq κ] (key : κ) : List (κ × Nat) → List (κ × Nat)
  | [] => [(key, 1)]
  | (k, n) :: rest => if k = key then (k, n + 1) :: rest else (k, n) :: bump key rest

def assign [DecidableEq κ] (key : κ) (value : α) : List (κ × α) → List (κ × α)
  | [] => [(key, value)]
  | (k, v) :: rest => if k = key then (k, value) :: rest else (k, v) :: assign key value rest

def valueAt? [DecidableEq κ] (key : κ) (entries : List (κ × α)) : Option α :=
  (entries.find? fun e => e.1 = key).map (·.2)

/-- The metrics that a recorder holds. -/
structure MetricValues where
  counters : List (Series × Nat)
  gauges : List (Series × Double)
  /-- How many durations each series of the histogram took in. -/
  observations : List (Series × Nat)
deriving Inhabited

namespace MetricValues

def empty : MetricValues := { counters := [], gauges := [], observations := [] }

def add (m : MetricValues) (t : Tally) : MetricValues :=
  if t.isObservation then { m with observations := bump t.series m.observations }
  else { m with counters := bump t.series m.counters }

def setGauge (m : MetricValues) (series : Series) (value : Double) : MetricValues :=
  { m with gauges := assign series value m.gauges }

def count (m : MetricValues) (t : Tally) : Nat :=
  (valueAt? t.series (if t.isObservation then m.observations else m.counters)).getD 0

end MetricValues

/-! ### Exposition -/

/-- A label value inside quotes: quotes and line breaks are escaped, and a backslash that escapes
nothing is doubled. -/
def escapeLabel (escaping : Bool) : List Char → List Char
  | [] => if escaping then ['\\', '\\'] else []
  | '\n' :: rest => '\\' :: 'n' :: escapeLabel escaping rest
  | '"' :: rest => '\\' :: '"' :: escapeLabel false rest
  | '\\' :: rest =>
    if escaping then '\\' :: '\\' :: escapeLabel false rest else escapeLabel true rest
  | c :: rest =>
    if escaping then '\\' :: '\\' :: c :: escapeLabel false rest else c :: escapeLabel false rest

/-- A label name made of letters, digits and underscores only, with no digit in front; any other
character becomes an underscore. -/
def labelName (name : String) : String :=
  let kept (c : Char) : Char := if c.isAlphanum then c else '_'
  match name.toList with
  | [] => ""
  | c :: rest => String.ofList ((if c.isDigit then '_' else kept c) :: rest.map kept)

/-- The labels in braces; nothing if there are none. -/
def labelText (labels : List (String × String)) : String :=
  if labels.isEmpty then ""
  else
    let text (label : String × String) : String :=
      labelName label.1 ++ "=\"" ++ String.ofList (escapeLabel false label.2.toList) ++ "\""
    "\x7b" ++ Text.join "," (labels.map text) ++ "\x7d"

/-- One sample: the series and its value. -/
def sampleLine (name : String) (labels : List (String × String)) (value : String) : String :=
  name ++ labelText labels ++ " " ++ value

/-- The labels of a series after those that all series share. A label of the series takes the place
of a shared one with its name. -/
def Series.labelsAfter (shared : List (String × String)) (s : Series) : List (String × String) :=
  s.labels.foldl (fun labels (name, value) => assign name value labels) shared

namespace MetricValues

/-- The samples of counters and gauges, and the sizes of histograms. -/
def samples (m : MetricValues) (shared : List (String × String)) : List String :=
  m.counters.map (fun (s, n) => sampleLine s.name (s.labelsAfter shared) (toString n)) ++
    m.gauges.map (fun (s, x) =>
      sampleLine s.name (s.labelsAfter shared) (DecimalStyle.plain.render x)) ++
    m.observations.map fun (s, n) =>
      sampleLine (s.name ++ "_count") (s.labelsAfter shared) (toString n)

/-- The upper bounds of histograms as labels, without the last one that takes in everything. -/
def boundLabels (bounds : List Double) : List String := bounds.map DecimalStyle.plain.render

/-- The buckets of histograms: the series of each bounded one, whose size depends on measured times,
and the one that takes in everything with its size. -/
def buckets (m : MetricValues) (shared : List (String × String)) (bounds : List Double) :
    List String :=
  m.observations.flatMap fun (s, n) =>
    let name := s.name ++ "_bucket"
    let labels := s.labelsAfter shared
    (boundLabels bounds).map (fun bound => name ++ labelText (labels ++ [("le", bound)])) ++
      [sampleLine name (labels ++ [("le", "+Inf")]) (toString n)]

end MetricValues

end Turnstile
