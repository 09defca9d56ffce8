import Turnstile.Fault.Code
import Turnstile.Job.WorkError

/-!
# Faults

A fault is what an operation of the engine fails with: a code, a short message, optionally an
internal message, details, and the error that lies behind it. The constructors below fix the wording
of each fault that the engine itself raises. It is the `JobgateError` of the specification,
section 7.
-/

namespace Turnstile

/-- Structured details of a fault. -/
structure FaultDetails where
  /-- Entries in ascending order of key. -/
  context : List (String × Json)
  jobKind : Option String
  jobId : Option String
deriving Inhabited

namespace FaultDetails

def empty : FaultDetails := { context := [], jobKind := none, jobId := none }

def withJob (d : FaultDetails) (kind id : String) : FaultDetails :=
  { d with jobKind := some kind, jobId := some id }

def withContext (d : FaultDetails) (key : String) (value : Json) : FaultDetails :=
  { d with context := Json.insertEntry key value d.context }

/-- The fields that are present; no context is the same as an empty one. -/
def toJson (d : FaultDetails) : Json :=
  Json.ofFields
    [ ("context", if d.context.isEmpty then none else some (.obj d.context)),
      ("job_kind", d.jobKind.map .str), ("job_id", d.jobId.map .str) ]

def ofJson? (v : Json) : Option FaultDetails := do
  let r := Json.reading
  let fs ← r.fields? ["context", "job_kind", "job_id"] v
  pure
    { context := ← fs.defaulted? "context" [] (r.tableOf? fun v => some v.normalize)
      jobKind := ← fs.named? "job_kind" (r.optional? r.text?)
      jobId := ← fs.named? "job_id" (r.optional? r.text?) }

end FaultDetails

/-- The parts of the program whose own errors may lie behind a fault. -/
inductive Component
  | json
  | store
  | settings
deriving DecidableEq, Repr

/-- The error behind a fault. -/
inductive FaultCause
  | work (error : WorkError)
  | io (message : String)
  | component (part : Component) (message : String)
deriving Inhabited

namespace FaultCause

/-- The text of the error behind a fault. -/
def display : FaultCause → String
  | work e => e.display
  | io message => message
  | component _ message => message

/-- Whether the wording belongs to another component. -/
def isForeign : FaultCause → Bool
  | component .. => true
  | _ => false

end FaultCause

/-- What an operation fails with. -/
structure Fault where
  code : FaultCode
  message : String
  internal : Option String
  details : FaultDetails
  cause : Option FaultCause
deriving Inhabited

namespace Fault

/-! ### General faults -/

def ofCode (code : FaultCode) (message : String) : Fault :=
  { code, message, internal := none, details := FaultDetails.empty, cause := none }

def withInternal (f : Fault) (internal : String) : Fault := { f with internal := some internal }

def withCause (f : Fault) (cause : FaultCause) : Fault := { f with cause := some cause }

def withDetails (f : Fault) (details : FaultDetails) : Fault := { f with details }

def withContext (f : Fault) (key : String) (value : Json) : Fault :=
  { f with details := f.details.withContext key value }

/-! ### Faults that the engine raises -/

/-- A defect, or a failure of no other kind. -/
def internalError (message : String) : Fault :=
  (ofCode .internalError "An internal error occurred").withInternal message

def invalidInput (message : String) : Fault := ofCode .invalidInput message

/-- Settings that the engine cannot run with. -/
def configuration (message : String) : Fault :=
  (ofCode .configurationError "Invalid configuration").withInternal message

def workFailed (kind id : String) (error : WorkError) : Fault :=
  (((ofCode .workFailure s!"Job {kind} failed").withInternal error.display).withDetails
    (FaultDetails.empty.withJob kind id)).withCause (.work error)

def lockNotAcquired (key : String) (attempts : Nat) : Fault :=
  ((ofCode .lockNotAcquired "Failed to obtain a lock").withContext "lease_key" (.str key)).withContext
    "attempts" (.int attempts)

/-- The store could not be reached. -/
def storeUnavailable (backend message : String) : Fault :=
  ((ofCode .storeUnavailable "Shared store unavailable").withInternal message).withContext "backend"
    (.str backend)

def unknownKind (kind : String) : Fault :=
  ofCode .invalidInput s!"No handler registered for job kind {kind}"

def wrongKindOfValue (key : String) : Fault :=
  (ofCode .storeError "Operation against a key holding the wrong kind of value").withInternal
    s!"WRONGTYPE {key}"

def emptyLeaseKey : Fault := invalidInput "Lease key needs to be specified"

def zeroLoopLimit : Fault := invalidInput "Loop limit must be greater than zero"

/-! ### Faults over errors of components -/

/-- JSON that could not be read. -/
def unreadableJson (message : String) : Fault :=
  ((ofCode .deserializationError "Failed to process JSON").withInternal message).withCause
    (.component .json message)

/-- JSON that could not be written. -/
def unwritableJson (message : String) : Fault :=
  ((ofCode .serializationError "Failed to process JSON").withInternal message).withCause
    (.component .json message)

def io (message : String) : Fault :=
  ((ofCode .internalError "I/O error").withInternal message).withCause (.io message)

/-- Settings that could not be loaded. -/
def unloadableSettings (message : String) : Fault :=
  ((ofCode .configurationError "Failed to load configuration").withInternal message).withCause
    (.component .settings message)

/-- How a conversation with a store server broke down. -/
inductive ServerTrouble
  /-- The connection was refused, dropped or broken. -/
  | disconnected
  | timedOut
  /-- The server answered with an error or with something unexpected. -/
  | refused
deriving DecidableEq, Repr

def ofServer (trouble : ServerTrouble) (message : String) : Fault :=
  let (code, short) := match trouble with
    | .disconnected => (FaultCode.storeUnavailable, "Unable to connect to Redis")
    | .timedOut => (FaultCode.storeUnavailable, "Redis operation timed out")
    | .refused => (FaultCode.storeError, "A Redis error occurred")
  ((ofCode code short).withInternal message).withCause (.component .store message)

/-! ### Reading a fault -/

/-- The code, the message, and the internal message if there is one. -/
def display (f : Fault) : String :=
  match f.internal with
  | none => s!"[{f.code.name}] {f.message}"
  | some internal => s!"[{f.code.name}] {f.message} (internal: {internal})"

def severity (f : Fault) : Severity := f.code.severity

def isRetryable (f : Fault) : Bool := f.code.isRetryable

/-- The job's own error, if that lies behind the fault. -/
def workError? (f : Fault) : Option WorkError :=
  match f.cause with
  | some (.work e) => some e
  | _ => none

def toWorkError (f : Fault) : WorkError :=
  { message := f.display, code := some f.code.name, context := none }

/-! ### Context for missing values and other errors -/

def missing (message : String) : Fault := ofCode .invalidInput message

def missingWithCode (code : FaultCode) : Fault := ofCode code "Value not present"

def ofWorkError (message : String) (e : WorkError) : Fault :=
  (internalError message).withCause (.work e)

def ofWorkErrorWithCode (code : FaultCode) (e : WorkError) : Fault :=
  (ofCode code e.display).withCause (.work e)

end Fault

end Turnstile
