import Turnstile.Json.Basic
import Turnstile.Wire.Reading

/-!
# Errors of work

What a job kind's own work fails with: a message, and optionally a code and a JSON context. It is
the `JobError` of the specification, section 7.
-/

namespace Turnstile

/-- A failure of a job's own work. -/
structure WorkError where
  message : String
  code : Option String
  context : Option Json
deriving Inhabited

namespace WorkError

def ofMessage (message : String) : WorkError := { message, code := none, context := none }

def withCode (e : WorkError) (code : String) : WorkError := { e with code := some code }

def withContext (e : WorkError) (context : Json) : WorkError := { e with context := some context }

/-- The message, and the code if there is one. -/
def display (e : WorkError) : String :=
  match e.code with
  | none => e.message
  | some code => s!"{e.message} (code: {code})"

/-- What stands between a failure and the failure that it is reported over. -/
def chainSeparator : String := ": "

/-- A failure seen through layers of context, the outermost first. -/
def ofChain (outermostFirst : List String) : WorkError :=
  ofMessage (chainSeparator.intercalate outermostFirst)

/-! ### JSON -/

def toJson (e : WorkError) : Json :=
  Json.ofFields
    [ ("message", some (.str e.message)), ("code", e.code.map .str), ("context", e.context) ]

/-- The reader for JSON. A null context reads as no context. -/
def ofJson? (v : Json) : Option WorkError := do
  let r := Json.reading
  let fs ← r.fields? ["message", "code", "context"] v
  pure
    { message := ← fs.required? "message" r.text?
      code := ← fs.defaulted? "code" none (r.optional? r.text?)
      context := ← fs.defaulted? "context" none (r.optional? fun v => some v.normalize) }

end WorkError

end Turnstile
