import Turnstile.Json.Basic
import Turnstile.Wire.Reading

/-!
# Jobs

One job as a transport carries it: its kind, its arguments, the identifier of this execution, and
what the engine notes on it. It is the `JobDescriptor` of the specification, section 3.
-/

namespace Turnstile

/-- One job on its way to a handler. -/
structure Job where
  kind : String
  args : List Json
  id : String
  /-- The job that owned the idempotency key when this one was submitted. -/
  duplicateOf : Option String
  /-- When set and in the future, the job is held until then. -/
  scheduledAt : Option Instant
  /-- When the transport took the job in. -/
  enqueuedAt : Option Instant
deriving Inhabited

namespace Job

def create (kind : String) (args : List Json) (id : String) : Job :=
  { kind, args, id, duplicateOf := none, scheduledAt := none, enqueuedAt := none }

/-- Whether the job is due strictly after `now`. -/
def isScheduled (job : Job) (now : Instant) : Bool :=
  match job.scheduledAt with
  | none => false
  | some due => now < due

def isDuplicate (job : Job) : Bool := job.duplicateOf.isSome

/-! ### JSON -/

def toJson (job : Job) : Json :=
  Json.ofFields
    [ ("job_kind", some (.str job.kind)), ("args", some (.arr job.args)),
      ("id", some (.str job.id)), ("duplicate_of", job.duplicateOf.map .str),
      ("scheduled_at", job.scheduledAt.map Json.stamped),
      ("enqueued_at", job.enqueuedAt.map Json.stamped) ]

def ofJson? (v : Json) : Option Job := do
  let r := Json.reading
  let fs ← r.fields? ["job_kind", "args", "id", "duplicate_of", "scheduled_at", "enqueued_at"] v
  pure
    { kind := ← fs.required? "job_kind" r.text?
      args := ← fs.required? "args" (r.listOf? fun v => some v.normalize)
      id := ← fs.required? "id" r.text?
      duplicateOf := ← fs.defaulted? "duplicate_of" none (r.optional? r.text?)
      scheduledAt := ← fs.defaulted? "scheduled_at" none (r.optional? r.instant?)
      enqueuedAt := ← fs.defaulted? "enqueued_at" none (r.optional? r.instant?) }

end Job

end Turnstile
