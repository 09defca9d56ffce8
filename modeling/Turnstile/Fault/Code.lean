import Turnstile.Wire.Reading

/-!
# Codes of faults

Every fault carries one of the ten codes of the specification, section 7. The code fixes its number,
its category, how severe it is, and whether a caller may try again.
-/

namespace Turnstile

inductive FaultCode
  | capacityExceeded
  | workFailure
  | lockNotAcquired
  | storeUnavailable
  | storeError
  | serializationError
  | deserializationError
  | invalidInput
  | configurationError
  | internalError
deriving DecidableEq, Repr, Inhabited

/-- How severe a fault is. -/
inductive Severity
  /-- Expected outcomes: skips and bad input. -/
  | low
  /-- Contention or a degraded store. -/
  | medium
  /-- Failures of the work or of the infrastructure. -/
  | high
  /-- Defects of the program. -/
  | critical
deriving DecidableEq, Repr

namespace FaultCode

/-- The number of a code; its hundreds give the category. -/
def number : FaultCode → Nat
  | capacityExceeded => 1000
  | workFailure => 1001
  | lockNotAcquired => 1100
  | storeUnavailable => 2000
  | storeError => 2001
  | serializationError => 2200
  | deserializationError => 2201
  | invalidInput => 4100
  | configurationError => 5000
  | internalError => 9000

/-- Whether a caller may try again. -/
def isRetryable : FaultCode → Bool
  | lockNotAcquired | storeUnavailable | storeError => true
  | _ => false

/-- The category of a code, by its number. -/
def category (c : FaultCode) : String :=
  match c.number / 100 with
  | 10 => "execution"
  | 11 => "coordination"
  | 20 => "store"
  | 22 => "serialization"
  | 41 => "validation"
  | 50 => "configuration"
  | 90 => "internal"
  | _ => "unknown"

def severity : FaultCode → Severity
  | capacityExceeded | invalidInput => .low
  | lockNotAcquired | storeUnavailable => .medium
  | workFailure | storeError | serializationError | deserializationError | configurationError =>
    .high
  | internalError => .critical

/-- The name of a code in messages. -/
def name : FaultCode → String
  | capacityExceeded => "CapacityExceeded"
  | workFailure => "WorkFailure"
  | lockNotAcquired => "LockNotAcquired"
  | storeUnavailable => "StoreUnavailable"
  | storeError => "StoreError"
  | serializationError => "SerializationError"
  | deserializationError => "DeserializationError"
  | invalidInput => "InvalidInput"
  | configurationError => "ConfigurationError"
  | internalError => "InternalError"

/-- The codes by their names in data. -/
def labels : List (String × FaultCode) :=
  [ ("CAPACITY_EXCEEDED", capacityExceeded), ("WORK_FAILURE", workFailure),
    ("LOCK_NOT_ACQUIRED", lockNotAcquired), ("STORE_UNAVAILABLE", storeUnavailable),
    ("STORE_ERROR", storeError), ("SERIALIZATION_ERROR", serializationError),
    ("DESERIALIZATION_ERROR", deserializationError), ("INVALID_INPUT", invalidInput),
    ("CONFIGURATION_ERROR", configurationError), ("INTERNAL_ERROR", internalError) ]

def label (c : FaultCode) : String :=
  ((labels.find? fun entry => entry.2 == c).map (·.1)).getD ""

def toJson (c : FaultCode) : Json := .str c.label

def ofJson? (v : Json) : Option FaultCode := Json.reading.ofChoice? labels v

end FaultCode

namespace Severity

def labels : List (String × Severity) :=
  [("low", low), ("medium", medium), ("high", high), ("critical", critical)]

/-- The name of a severity in data. -/
def label : Severity → String
  | low => "low"
  | medium => "medium"
  | high => "high"
  | critical => "critical"

/-- The name of a severity in metrics. -/
def name : Severity → String
  | low => "Low"
  | medium => "Medium"
  | high => "High"
  | critical => "Critical"

def toJson (s : Severity) : Json := .str s.label

def ofJson? (v : Json) : Option Severity := Json.reading.ofChoice? labels v

end Severity

end Turnstile
