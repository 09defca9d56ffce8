import Turnstile.Job.Basic
import Turnstile.Keyed

/-!
# Queues of waiting jobs

Ready jobs wait in one queue for each kind, in the order in which they will be delivered. Jobs that
are not yet due wait in a list of their own, in the order in which they came in. These are the
queues of `InMemoryTransport` (specification, section 4.7).
-/

namespace Turnstile

/-- The jobs that wait. -/
structure Queue where
  ready : Keyed (List Job)
  scheduled : List Job
deriving Inhabited

namespace Queue

def empty : Queue := { ready := Keyed.empty, scheduled := [] }

/-- The ready jobs of a kind in the order of delivery. -/
def readyJobs (q : Queue) (kind : String) : List Job := q.ready.getD kind []

def size (q : Queue) (kind : String) : Nat := (q.readyJobs kind).length

def pushReady (q : Queue) (job : Job) : Queue :=
  { q with ready := q.ready.insert job.kind (q.readyJobs job.kind ++ [job]) }

/-- Takes in a job: until it is due it waits among the scheduled ones. -/
def push (q : Queue) (now : Instant) (job : Job) : Queue :=
  if job.isScheduled now then { q with scheduled := q.scheduled ++ [job] } else q.pushReady job

/-- The scheduled jobs that are due, in the order in which they came in. -/
def dueJobs (q : Queue) (now : Instant) : List Job :=
  q.scheduled.filter fun job => !job.isScheduled now

def promoteDue (q : Queue) (now : Instant) : Queue :=
  (q.dueJobs now).foldl pushReady
    { q with scheduled := q.scheduled.filter fun job => job.isScheduled now }

/-- Takes the first ready job of a kind. -/
def pop (q : Queue) (kind : String) : Option Job × Queue :=
  match q.readyJobs kind with
  | [] => (none, q)
  | job :: rest => (some job, { q with ready := q.ready.insert kind rest })

end Queue

end Turnstile
