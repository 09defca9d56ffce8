import Turnstile.Engine.Effect

/-!
# Reports of faults

A fault as an object: code, message, details, the internal message and the text of the fault, and
the error of a job's own work that lies behind it. Where another component's error lies behind the
fault, the internal message and the text are that component's own wording, and are left out.
-/

namespace Turnstile

def Fault.isForeign (f : Fault) : Bool := (f.cause.map FaultCause.isForeign).getD false

/-- The report of a fault. -/
def Fault.toJson (f : Fault) : Json :=
  let own : Option Json → Option Json := fun v => if f.isForeign then none else v
  Json.ofFields
    [ ("error", some (.str f.code.name)), ("message", some (.str f.message)),
      ("internal", own (some (Json.ofOption .str f.internal))),
      ("display", own (some (.str f.display))), ("details", some f.details.toJson),
      ("job_error", f.workError?.map WorkError.toJson) ]

/-- The report of how a task ended without a value. -/
def Halt.toJson : Halt → Json
  | .fault f => f.toJson
  | .panic => .obj [("panic", .bool true)]

end Turnstile
