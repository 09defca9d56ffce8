import Turnstile.Duplicate.Releasing
import Turnstile.Fault.Report
import Turnstile.Transport.Basic

/-!
# Dispatching jobs to handlers

The dispatcher takes jobs of a kind off the queues of this process and runs the handler of the kind.
It releases claims around the handler and clears the job's liveness after it. This is `JobExecutor`
(specification, section 4.7).
-/

namespace Turnstile

/-- What one dispatch did. -/
inductive Dispatch
  /-- No job was ready. -/
  | idle
  | succeeded (id : String)
  | failed (id : String) (fault : Fault)
deriving Inhabited

def Dispatch.toJson : Dispatch → Json
  | .idle => .str "idle"
  | .succeeded id => .obj [("succeeded", .str id)]
  | .failed id f => .obj [("failed", .str id), ("with", f.toJson)]

/-- The totals of a run of dispatches. -/
structure DrainReport where
  succeeded : Nat
  failed : Nat
  /-- Whether the queue ran dry before the run was stopped. -/
  emptied : Bool
deriving DecidableEq, Inhabited

def DrainReport.executed (r : DrainReport) : Nat := r.succeeded + r.failed

def DrainReport.toJson (r : DrainReport) : Json :=
  .obj
    [ ("succeeded", Json.ofNat r.succeeded), ("failed", Json.ofNat r.failed),
      ("emptied", .bool r.emptied), ("executed", Json.ofNat r.executed) ]

/-- Handlers by kind, and what is done around them. -/
structure Dispatcher (m : Type → Type) where
  handlers : Keyed (Job → Task m Unit)
  /-- The policies by which claims are released. -/
  releasing : Option DedupPolicies
  /-- The liveness keys that are cleared. -/
  liveness : Option Liveness

namespace Dispatcher

variable {m : Type → Type} [Monad m] [MonadStore m] [MonadClock m] [MonadJournal m] [MonadQueue m]

/-- Runs a handler on a job; the outcome is a value, also after a panic. -/
def execute (d : Dispatcher m) (handler : Job → Task m Unit) (job : Job) : m (Except Halt Unit) :=
  match d.releasing with
  | some policies => policies.around job (handler job).run
  | none => (handler job).run

/-- Clears the liveness of a job that has run. -/
def clearLiveness (d : Dispatcher m) (job : Job) : m Unit :=
  match d.liveness with
  | some _ => Attempt.orNote (Liveness.unset job.id) () (.statusNotCleared job.kind job.id)
  | none => pure ()

/-- What the outcome of a job counts as. A job that has not panicked is cleared. -/
def settle (d : Dispatcher m) (job : Job) : Except Halt Unit → m (Except Halt Dispatch)
  | .error .panic => return .error .panic
  | .ok () => do
    d.clearLiveness job
    return .ok (.succeeded job.id)
  | .error (.fault f) => do
    d.clearLiveness job
    return .ok (.failed job.id f)

/-- Runs a handler on the next ready job of a kind. -/
def dispatchTo (d : Dispatcher m) (handler : Job → Task m Unit) (kind : String) :
    m (Except Halt Dispatch) := do
  match ← dequeue kind with
  | none => return .ok .idle
  | some job => d.settle job (← d.execute handler job)

/-- Runs the next ready job of a kind. -/
def runNextUnspanned (d : Dispatcher m) (kind : String) : Task m Dispatch :=
  match d.handlers.get? kind with
  | none => do
    let stop : Attempt m Dispatch := raise (Fault.unknownKind kind)
    stop
  | some handler => ExceptT.mk (d.dispatchTo handler kind)

/-- Work inside a span of the journal. The span is entered once more when the work is let go. -/
def inSpan (span : LogSpan) (work : m α) : m α := do
  MonadJournal.record (.opened span)
  MonadJournal.record (.entered span)
  let result ← work
  MonadJournal.record (.left span)
  MonadJournal.record (.entered span)
  MonadJournal.record (.left span)
  MonadJournal.record (.closed span)
  return result

def runNext (d : Dispatcher m) (kind : String) : Task m Dispatch :=
  ExceptT.mk (inSpan (LogSpan.runNext kind) (d.runNextUnspanned kind).run)

/-- Runs jobs of a kind until none is ready or `left` more have run. -/
def drainGo (d : Dispatcher m) (kind : String) (report : DrainReport) :
    (left : Nat) → Task m DrainReport
  | 0 => pure report
  | left + 1 => do
    match ← d.runNext kind with
    | .idle => return { report with emptied := true }
    | .succeeded _ => d.drainGo kind { report with succeeded := report.succeeded + 1 } left
    | .failed _ _ => d.drainGo kind { report with failed := report.failed + 1 } left

/-- Runs jobs of a kind until none is ready or `most` have run. -/
def drain (d : Dispatcher m) (kind : String) (most : Nat) : Task m DrainReport := do
  let report ← d.drainGo kind { succeeded := 0, failed := 0, emptied := false } most
  note (m := m) (.drained kind report.succeeded report.failed report.emptied)
  return report

end Dispatcher

end Turnstile
