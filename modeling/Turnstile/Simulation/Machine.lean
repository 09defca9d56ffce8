import Turnstile.Metrics.Sink
import Turnstile.Simulation.Seam
import Turnstile.Store.Memory
import Turnstile.Transport.Basic

/-!
# A simulated world

A `Machine` holds all that the engine's surroundings are made of: a clock that moves only when told
to, a store and queues in memory, the journal, the metrics, the calls that were made and the
outcomes planned for calls to come. Any state monad over it can run the engine. Waiting takes no
time of the clock; it is added up apart.
-/

namespace Turnstile

/-- The state of a simulated workload. -/
structure Load where
  /-- How many jobs may run at once. -/
  most : Int
  /-- How many units of work are left. -/
  backlog : Nat
deriving Inhabited, DecidableEq

structure Machine where
  clock : Instant
  /-- The time that has been waited. -/
  waited : Duration
  store : MemoryStore
  queue : Queue
  metrics : MetricValues
  sink : GaugeSink
  /-- Records of the journal, the last one first. -/
  journal : List JournalRecord
  /-- The spans that are entered, the innermost first. -/
  spans : List LogSpan
  /-- Calls at the seams, the last one first. -/
  calls : List SeamCall
  /-- Planned outcomes by method. -/
  plans : Keyed (List Plan)
  /-- The workloads by kind. -/
  loads : Keyed Load
  /-- How many names have been given out. -/
  issued : Nat
deriving Inhabited

namespace Machine

def ofClock (clock : Instant) : Machine :=
  { clock, waited := Duration.zero, store := Keyed.empty, queue := Queue.empty,
    metrics := MetricValues.empty, sink := GaugeSink.empty, journal := [], spans := [], calls := [],
    plans := Keyed.empty, loads := Keyed.empty, issued := 0 }

/-! ### Names -/

/-- A supply of names: the id and the token that go with a number. -/
class Names where
  jobIdOf : Nat → String
  tokenOf : Nat → String

export Names (jobIdOf tokenOf)

/-- Thirty-two hexadecimal digits that belong to a number: an odd factor spreads the numbers over
the whole range without letting two of them meet. -/
def nameDigits (n : Nat) : List Char :=
  Text.hexDigits 32 ((n + 1) * 0x9e3779b97f4a7c15f39cc0605cedc835 % Nat.pow 2 128)

/-- The names that are given out here: an id has twenty-four digits, a token has digits in groups of 8,
4, 4, 4 and 12. -/
instance spreadNames : Names where
  jobIdOf n :=
    String.ofList (Text.hexDigits 24 ((n + 1) * 0x9e3779b97f4a7c15f39cc0605 % Nat.pow 2 96))
  tokenOf n :=
    let digits := nameDigits n
    let group (start count : Nat) : String := String.ofList ((digits.drop start).take count)
    Text.join "-" [group 0 8, group 8 4, group 12 4, group 16 4, group 20 12]

/-! ### Steps -/

def addTally (s : Machine) (t : Tally) : Machine := { s with metrics := s.metrics.add t }

def noteCall (s : Machine) (c : SeamCall) : Option Planned × Machine :=
  let (planned, plans) := Plan.next (s.plans.getD c.method [])
  (planned, { s with calls := c :: s.calls, plans := s.plans.insert c.method plans })

def addPlan (s : Machine) (method : String) (p : Plan) : Machine :=
  { s with plans := s.plans.insert method (s.plans.getD method [] ++ [p]) }

def clearPlans (s : Machine) : Machine := { s with plans := Keyed.empty }

def countFault (s : Machine) : Except Fault α → Machine
  | .ok _ => s
  | .error f => s.addTally (.fault f.code)

def callMemory (s : Machine) (c : StoreCall) : Except Fault c.Answer × Machine :=
  let (r, store) := s.store.call s.clock c
  (r, { s with store }.countFault r)

/-- The answer to a store call: what is planned for it, or what the store in memory says. -/
def callStore (s : Machine) (c : StoreCall) : Except Fault c.Answer × Machine :=
  match s.noteCall (.store c) with
  | (some (.answer v), s) => (.ok (c.answerOfJson v), s)
  | (some (.fail f), s) => (.error f, s.addTally (.fault f.code))
  | (none, s) => s.callMemory c

/-- Adds a record to the journal. -/
def addRecord (s : Machine) (r : JournalRecord) : Machine :=
  let spans := match r with
    | .entered span => span :: s.spans
    | .left _ => s.spans.drop 1
    | _ => s.spans
  { s with journal := r :: s.journal, spans }

/-- Lets time pass that the clock does not show. Entered spans are left meanwhile. -/
def wait (s : Machine) (d : Duration) : Machine :=
  let left := s.spans.foldl (fun s span => s.addRecord (.left span)) s
  let later := { left with waited := ⟨s.waited.nanos + d.nanos⟩ }
  s.spans.reverse.foldl (fun s span => s.addRecord (.entered span)) later

def loadOf (s : Machine) (kind : String) : Load := s.loads.getD kind { most := 0, backlog := 0 }

def setLoad (s : Machine) (kind : String) (l : Load) : Machine :=
  { s with loads := s.loads.insert kind l }

def consume (s : Machine) (kind : String) : Machine :=
  let l := s.loadOf kind
  s.setLoad kind { l with backlog := l.backlog - 1 }

def setGauge (s : Machine) (series : Series) (value : Double) : Machine :=
  { s with metrics := s.metrics.setGauge series value }

def setSink (s : Machine) (series : Series) (value : Double) : Machine :=
  { s with sink := s.sink.set series value }

/-! ### The seams over a state monad -/

variable {m : Type → Type} [MonadStateOf Machine m]

def step (f : Machine → α × Machine) : m α := MonadStateOf.modifyGet f

instance instMonadStore : MonadStore m where
  callStore c := step fun s => s.callStore c

instance instMonadClock : MonadClock m where
  now := step fun s => (s.clock, s)

instance instMonadJournal : MonadJournal m where
  record r := step fun s => ((), s.addRecord r)
  tally t := step fun s => ((), s.addTally t)

instance instMonadWait [Monad m] : MonadWait m where
  sleep d := step fun s => ((), s.wait d)
  jitter := pure (Double.zero false)

instance instMonadFresh [Names] : MonadFresh m where
  freshJobId := step fun s => (jobIdOf s.issued, { s with issued := s.issued + 1 })
  freshToken := step fun s => (tokenOf s.issued, { s with issued := s.issued + 1 })

instance instMonadQueue : MonadQueue m where
  modifyQueue f := step fun s =>
    let (a, queue) := f s.queue
    (a, { s with queue })

/-! ### Seams of other parts -/

section

variable [Monad m]

/-- Takes the outcome planned for a call as an attempt; `real` gives it if none is planned. -/
def planned (c : SeamCall) (read : Json → α) (real : Attempt m α) : Attempt m α := do
  let outcome ← (step fun s => s.noteCall c : m (Option Planned))
  match outcome with
  | some (.answer v) => pure (read v)
  | some (.fail f) => raise f
  | none => real

/-- As `planned`, for a task. -/
def plannedTask (c : SeamCall) (read : Json → α) (real : Task m α) : Task m α := do
  let outcome ← (step fun s => s.noteCall c : m (Option Planned))
  match outcome with
  | some (.answer v) => pure (read v)
  | some (.fail f) =>
    let stop : Attempt m α := raise f
    stop
  | none => real

def textsOf (v : Json) : List String := (v.list?.getD []).filterMap Json.text?

/-- A transport whose calls are put on record and may be planned. -/
def watched (t : Transport m) : Transport m :=
  let submit (job : Job) : Task m String :=
    plannedTask (.submit job) (fun v => v.text?.getD "") (t.submit job)
  { submit
    submitBatch := fun jobs => plannedTask (.submitBatch jobs) textsOf (t.submitBatch jobs)
    submitAt := fun due job => submit { job with scheduledAt := some due }
    queueSize := fun kind =>
      planned (.queueSize kind) (fun v => v.nat?.getD 0) (t.queueSize kind) }

/-- A probe that knows which jobs are over. -/
def listedProbe (ended : List String) : Probe m :=
  { completed := fun ids =>
      planned (.completed ids) textsOf (pure (ids.filter fun id => ended.contains id))
    started := fun _ => pure ()
    finished := fun _ => pure () }

/-- The answer of a workload about the work left; a planned failure has no effect. -/
def remainingWork (kind : String) (args : List Json) : m Nat := do
  match ← step fun s => s.noteCall (.remainingWork kind args) with
  | some (.answer v) => return v.nat?.getD 0
  | _ => step fun s => ((s.loadOf kind).backlog, s)

end

end Machine

end Turnstile
