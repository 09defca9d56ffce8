import Turnstile.Duplicate.Marking
import Turnstile.Settings.Basic
import Turnstile.Simulation.Machine
import Turnstile.Worker.Basic
import Turnstile.Worker.Dispatcher

/-!
# Wiring of a simulated world

How the parts of the engine are put together over a machine: which of them share the liveness keys,
which probe the running sets ask, and where workers submit and report.
-/

namespace Turnstile

/-- What running sets ask about their members. -/
inductive ProbeChoice
  | nothing
  /-- The liveness keys. -/
  | liveness
  /-- A list of the jobs that are over. -/
  | listed (ended : List String)

/-- The wiring of a world. -/
structure World where
  settings : Settings
  policies : DedupPolicies
  probe : ProbeChoice
  /-- Whether submitted jobs are marked as live. -/
  marksLive : Bool
  /-- Whether the dispatcher clears the liveness of jobs. -/
  clearsLive : Bool
  /-- Whether the dispatcher releases claims. -/
  releases : Bool
  /-- Whether workers report to the recorder of metrics, and not to the sink. -/
  recordsGauges : Bool

namespace World

variable {m : Type → Type} [Monad m] [MonadStateOf Machine m] (w : World)

def localTransport : LocalTransport :=
  { liveness := if w.marksLive then some w.settings.liveness else none }

/-- The transport of the machine's queues. -/
def rawTransport : Transport m := Machine.watched w.localTransport.toTransport

/-- The transport that marks duplicates. -/
def markingTransport : Transport m := w.rawTransport.marking w.policies

def probeOf : Option (Probe m) :=
  match w.probe with
  | .nothing => none
  | .liveness => some w.settings.liveness.probe
  | .listed ended => some (Machine.listedProbe ended)

def runningSet (kind : String) : RunningSet m :=
  { kind, entryTtl := w.settings.running.entryTtl, batchSize := w.settings.running.batchSize,
    probe := w.probeOf }

def setGauge (series : Series) (value : Double) : m Unit :=
  Machine.step fun s => ((), if w.recordsGauges then s.setGauge series value
    else s.setSink series value)

/-- The worker of a kind; `work` does one unit. -/
def worker (kind : String) (marks : Bool) (work : List Json → m WorkEnd) : Worker m :=
  { load :=
      { kind
        maxRunning := Machine.step fun s => ((s.loadOf kind).most, s)
        remaining := Machine.remainingWork kind
        work }
    running := w.runningSet kind
    transport := if marks then w.markingTransport else w.rawTransport
    setGauge := w.setGauge }

/-- The dispatcher with the given handlers. -/
def dispatcher (handlers : List (String × (Job → Task m Unit))) : Dispatcher m :=
  { handlers := Keyed.ofList handlers
    releasing := if w.releases then some w.policies else none
    liveness := if w.clearsLive then some w.settings.liveness else none }

end World

end Turnstile
