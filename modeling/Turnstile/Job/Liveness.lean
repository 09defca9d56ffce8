import Turnstile.Job.Running

/-!
# Liveness of jobs

A key `job_status:{id}` stands for a job that is live. It is written when the job is submitted and
removed when it is over, so that a job without one is over or was lost long ago. This is
`JobStatusTracker` (specification, section 4.6).
-/

namespace Turnstile

/-- The keys of live jobs, and how long each lives. -/
structure Liveness where
  ttl : Duration
deriving DecidableEq

namespace Liveness

variable {m : Type → Type} [Monad m] [MonadStore m]

def key (id : String) : String := "job_status:" ++ id

/-- What the keys hold. -/
def mark : String := "1"

/-- Makes a job live for `ttl` from now on, whether it was live before or not. -/
def set (id : String) (ttl : Duration) : Attempt m Unit := do
  let stored ← callStore (.setIfAbsent (key id) mark ttl)
  if !stored then
    let _ ← callStore (.expireIfEq (key id) mark ttl)

def track (l : Liveness) (id : String) : Attempt m Unit := set id l.ttl

def unset (id : String) : Attempt m Unit := do
  let _ ← callStore (.delete (key id))

def isLive (id : String) : Attempt m Bool := do
  let value ← callStore (.get (key id))
  return value.isSome

/-- Those of the ids whose jobs are not live. -/
def completed : List String → Attempt m (List String)
  | [] => pure []
  | id :: rest => do
    let live ← isLive id
    let more ← completed rest
    return if live then more else id :: more

/-- Makes a job live unless it is; a job that is live keeps the time it has left. -/
def started (l : Liveness) (id : String) : Attempt m Unit := do
  let _ ← callStore (.setIfAbsent (key id) mark l.ttl)

def probe (l : Liveness) : Probe m :=
  { completed := completed, started := l.started, finished := unset }

end Liveness

end Turnstile
