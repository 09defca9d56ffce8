import Turnstile.Engine.Effect
import Turnstile.Job.Basic

/-!
# Running jobs of a kind

A timestamped set at `{kind}:running` holds the ids of the jobs of a kind that run. Its size is only
a hint, since processes may die without taking their ids out. `cleanUp` removes what is too old and
what a probe knows to be over. This is `JobRegistry` (specification, section 4.1).
-/

namespace Turnstile

/-- Tells jobs that are over from jobs that may still run. -/
structure Probe (m : Type → Type) where
  /-- Those of the given ids whose jobs are over. -/
  completed : List String → Attempt m (List String)
  started : String → Attempt m Unit
  finished : String → Attempt m Unit

/-- A job that was registered as running. -/
structure RunningJob where
  id : String
  registeredAt : Instant
deriving DecidableEq, Inhabited

namespace RunningJob

def toJson (job : RunningJob) : Json :=
  .obj [("id", .str job.id), ("registered_at", Json.stamped job.registeredAt)]

def ofJson? (v : Json) : Option RunningJob := do
  let r := Json.reading
  let fs ← r.fields? ["id", "registered_at"] v
  pure
    { id := ← fs.required? "id" r.text?
      registeredAt := ← fs.required? "registered_at" r.instant? }

end RunningJob

/-- The running jobs of one kind. -/
structure RunningSet (m : Type → Type) where
  kind : String
  /-- How long the set lives after a registration, and the age at which a member is too old. -/
  entryTtl : Duration
  /-- The most ids in one call. -/
  batchSize : Nat
  probe : Option (Probe m)

namespace RunningSet

variable {m : Type → Type}

def keyOf (kind : String) : String := kind ++ ":running"

def key (s : RunningSet m) : String := keyOf s.kind

/-- The list cut into pieces of `size` elements, or of one if `size` is zero; the last piece may be
shorter. -/
def batches (size : Nat) (xs : List α) : List (List α) :=
  match xs with
  | [] => []
  | x :: rest => (x :: rest.take (size - 1)) :: batches size (rest.drop (size - 1))
termination_by xs.length
decreasing_by
  simp only [List.length_drop, List.length_cons]
  omega

section Operations

variable [Monad m] [MonadStore m]

def register (s : RunningSet m) (id : String) : Attempt m Unit := do
  let _ ← callStore (.setAdd s.key id s.entryTtl)
  match s.probe with
  | some probe => probe.started id
  | none => pure ()

def remove (s : RunningSet m) (id : String) : Attempt m Unit := do
  let _ ← callStore (.setRemove s.key [id])
  match s.probe with
  | some probe => probe.finished id
  | none => pure ()

def count (s : RunningSet m) : Attempt m Nat := callStore (.setCount s.key)

/-- The registered jobs, the oldest first. -/
def jobs (s : RunningSet m) : Attempt m (List RunningJob) := do
  let members ← callStore (.setMembers s.key)
  return members.map fun member => { id := member.member, registeredAt := member.addedAt }

/-- Whether a member is as old as the set's lifetime. If that reaches back too far, none is. -/
def isStale (s : RunningSet m) (at' : Instant) (member : SetMember) : Bool :=
  match at'.back? s.entryTtl with
  | some cutoff => member.addedAt ≤ cutoff
  | none => false

/-- Those of the ids that a probe knows to be over, batch by batch. -/
def completedAmong (probe : Probe m) : List (List String) → Attempt m (List String)
  | [] => pure []
  | batch :: rest => do
    let done ← probe.completed batch
    let more ← completedAmong probe rest
    return done ++ more

/-- Removes ids batch by batch, and counts those that were there. -/
def removeAll (s : RunningSet m) : List (List String) → Attempt m Nat
  | [] => pure 0
  | batch :: rest => do
    let removed ← callStore (.setRemove s.key batch)
    let more ← s.removeAll rest
    return removed + more

/-- Removes the members that are too old or known to be over, and counts them. -/
def cleanUp [MonadClock m] [MonadJournal m] (s : RunningSet m) : Attempt m Nat := do
  let members ← callStore (.setMembers s.key)
  if members.isEmpty then return 0
  let now' ← (now : m Instant)
  let stale := (members.filter fun member => s.isStale now' member).map (·.member)
  let live := (members.filter fun member => !s.isStale now' member).map (·.member)
  let ended ← match s.probe with
    | some probe => completedAmong probe (batches s.batchSize live)
    | none => pure []
  let removed ← s.removeAll (batches s.batchSize (stale ++ ended))
  if 0 < removed then note (m := m) (.deadJobsRemoved s.kind removed)
  return removed

end Operations

end RunningSet

end Turnstile
