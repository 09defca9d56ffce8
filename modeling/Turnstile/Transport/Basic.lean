import Turnstile.Job.Liveness
import Turnstile.Transport.Queue

/-!
# Transports

A transport takes in jobs and tells how many of a kind wait. `LocalTransport` keeps them in the
queues of this process, and can mark each submitted job as live. The interface is that of the
specification, section 6.
-/

namespace Turnstile

/-- Where jobs are submitted. -/
structure Transport (m : Type → Type) where
  /-- Takes in a job and gives its id. -/
  submit : Job → Task m String
  /-- Takes in jobs in order. -/
  submitBatch : List Job → Task m (List String)
  /-- Takes in a job that is due at the given time. -/
  submitAt : Instant → Job → Task m String
  /-- The number of jobs of a kind that can be picked up. -/
  queueSize : String → Attempt m Nat

/-- The queues of this process. -/
class MonadQueue (m : Type → Type) where
  modifyQueue : (Queue → α × Queue) → m α

export MonadQueue (modifyQueue)

variable {m : Type → Type}

def getQueue [MonadQueue m] : m Queue := modifyQueue fun q => (q, q)

/-- The transport over the queues of this process. -/
structure LocalTransport where
  /-- Marks submitted jobs as live. -/
  liveness : Option Liveness

namespace LocalTransport

variable [Monad m] [MonadStore m] [MonadClock m] [MonadJournal m] [MonadQueue m]

/-- Marks a job as live; the job goes on its way even if that fails. -/
def markLive (t : LocalTransport) (id : String) : m Unit :=
  match t.liveness with
  | none => pure ()
  | some liveness => Attempt.orNote (liveness.track id) () (.statusNotWritten id)

/-- Takes in one job. -/
def push (t : LocalTransport) (job : Job) : m String := do
  let now' ← now
  t.markLive job.id
  modifyQueue fun q => ((), q.push now' { job with enqueuedAt := some now' })
  return job.id

/-- Takes in jobs one after the other. -/
def pushAll (t : LocalTransport) : List Job → m (List String)
  | [] => pure []
  | job :: rest => do
    let id ← t.push job
    let ids ← t.pushAll rest
    return id :: ids

def toTransport (t : LocalTransport) : Transport m :=
  { submit := fun job => ExceptT.lift (t.push job)
    submitBatch := fun jobs => ExceptT.lift (t.pushAll jobs)
    submitAt := fun due job => ExceptT.lift (t.push { job with scheduledAt := some due })
    queueSize := fun kind => do return (← getQueue (m := m)).size kind }

end LocalTransport

section

variable [Monad m] [MonadClock m] [MonadJournal m] [MonadQueue m]

/-- Moves the jobs that have become due to their ready queues, and counts them. -/
def promoteDue : m Nat := do
  let now' ← now
  let promoted ← modifyQueue fun q => ((q.dueJobs now').length, q.promoteDue now')
  if 0 < promoted then note (.scheduledPromoted promoted)
  return promoted

/-- Takes the next ready job of a kind, after due jobs have been moved. -/
def dequeue (kind : String) : m (Option Job) := do
  let _ ← promoteDue
  modifyQueue fun q => q.pop kind

end

end Turnstile
