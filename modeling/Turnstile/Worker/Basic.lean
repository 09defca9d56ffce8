import Turnstile.Transport.Basic

/-!
# Workers of limited capacity

A workload names a kind of job, how many of them may run at once, how much work is left, and how one
unit of it is done. A worker does one unit for each job and submits the next job while work is left.
How many jobs run is read from the running set, which may be out of date; a store that fails counts
as empty. This is `CapacityLimitedWorker` (specification, section 4.2): `performWithCapacity` is its
fan-out.
-/

namespace Turnstile

/-- How one unit of work ended. -/
inductive WorkEnd
  | succeeded
  | failed (error : WorkError)
  | panicked
deriving Inhabited

/-- Work of one kind. -/
structure Workload (m : Type → Type) where
  kind : String
  /-- How many jobs may run at once; none if it is zero or less. -/
  maxRunning : m Int
  /-- About how many units of work are left. -/
  remaining : List Json → m Nat
  /-- Does one unit. -/
  work : List Json → m WorkEnd

/-- What a worker did with one job. -/
inductive WorkerOutcome
  | skipped
  /-- The work was done; `reEnqueued` tells whether another job was submitted. -/
  | completed (reEnqueued : Bool)
deriving DecidableEq, Inhabited

def WorkerOutcome.toJson : WorkerOutcome → Json
  | .skipped => .str "skipped"
  | .completed again => .obj [("re_enqueued", .bool again)]

/-- A worker for one kind of job. -/
structure Worker (m : Type → Type) where
  load : Workload m
  running : RunningSet m
  transport : Transport m
  /-- Takes the worker's gauges. -/
  setGauge : Series → Double → m Unit

namespace Worker

variable {m : Type → Type}

def kind (w : Worker m) : String := w.load.kind

/-- A count as a signed number of 64 bits. -/
def signed (n : Nat) : Int := Int.bmod n (Nat.pow 2 64)

variable [Monad m] [MonadStore m] [MonadClock m] [MonadJournal m]

/-! ### Capacity -/

/-- The number of jobs that run, or zero if the store does not tell. -/
def runningCount (w : Worker m) : m Nat :=
  Attempt.orNote w.running.count 0 (.runningCountUnknown w.kind)

/-- The number of jobs that wait, or zero if the transport does not tell. -/
def queuedCount (w : Worker m) : m Nat :=
  Attempt.orNote (w.transport.queueSize w.kind) 0 (.queueSizeUnknown w.kind)

/-- How many more jobs may be submitted: those that run and those that wait count. -/
def remainingCapacity (w : Worker m) : m Nat := do
  let queued ← w.queuedCount
  let most ← w.load.maxRunning
  let running ← w.runningCount
  return (most - signed running - signed queued).toNat

/-- Whether another job may start. -/
def hasCapacity (w : Worker m) : m Bool := do
  let most ← w.load.maxRunning
  let running ← w.runningCount
  return 0 < most - signed running

/-! ### Reports -/

/-- Sets the three gauges of the worker. -/
def reportMetrics (w : Worker m) (args : List Json) : m Unit := do
  let running ← w.runningCount
  let remaining ← w.load.remaining args
  w.setGauge (Gauge.runningJobs.series w.kind) (Double.ofNat running)
  let most ← w.load.maxRunning
  w.setGauge (Gauge.maxRunningJobs.series w.kind) (Double.ofInt most)
  w.setGauge (Gauge.remainingWork.series w.kind) (Double.ofNat remaining)

def removeRunning (w : Worker m) (id : String) : m Unit :=
  Attempt.orNote (w.running.remove id) () (.notRemoved w.kind id)

def registerRunning (w : Worker m) (id : String) : m Unit :=
  Attempt.orNote (w.running.register id) () (.notRegistered w.kind id)

def cleanUp (w : Worker m) : m Unit := do
  let _ ← Attempt.orNote w.running.cleanUp 0 (.notCleanedUp w.kind)

/-! ### Jobs -/

variable [MonadFresh m]

/-- Submits one more job unless no work is left. -/
def reEnqueue (w : Worker m) (args : List Json) : Task m Bool := do
  if (← w.load.remaining args) = 0 then return false
  let id ← (MonadFresh.freshJobId : m String)
  let _ ← w.transport.submit (Job.create w.kind args id)
  return true

/-- Does one unit of work for a job, unless too many jobs run already. -/
def perform (w : Worker m) (id : String) (args : List Json) : Task m WorkerOutcome := do
  if ← w.hasCapacity then
    w.registerRunning id
    let result ← w.load.work args
    tally (m := m) (.jobFinished w.kind (result matches .succeeded))
    w.removeRunning id
    w.reportMetrics args
    match result with
    | .succeeded => return .completed (← w.reEnqueue args)
    | .failed e =>
      let f := Fault.workFailed w.kind id e
      tally (m := m) (.fault f.code)
      note (m := m) (.fault f)
      throw (.fault f)
    | .panicked => throw .panic
  else
    note (m := m) (.noCapacity w.kind id)
    tally (m := m) (.capacitySkip w.kind)
    w.removeRunning id
    w.reportMetrics args
    return .skipped

/-- As many new jobs for the same arguments. -/
def copies (w : Worker m) (args : List Json) : Nat → m (List Job)
  | 0 => pure []
  | count + 1 => do
    let id ← MonadFresh.freshJobId
    let rest ← w.copies args count
    return Job.create w.kind args id :: rest

/-- Submits as many jobs as there is work left and capacity for, and answers their number. -/
def performWithCapacity (w : Worker m) (args : List Json) : Task m Nat := do
  w.cleanUp
  w.reportMetrics args
  let remaining ← w.load.remaining args
  let capacity ← w.remainingCapacity
  let count := min remaining capacity
  if count = 0 then return 0
  let jobs ← w.copies args count
  let _ ← w.transport.submitBatch jobs
  note (m := m) (.fannedOut w.kind count)
  return count

def handle (w : Worker m) (job : Job) : Task m Unit := do
  let _ ← w.perform job.id job.args

end Worker

end Turnstile
