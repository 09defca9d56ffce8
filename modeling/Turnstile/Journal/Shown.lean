import Turnstile.Fault.Basic
import Turnstile.Json.Printer
import Turnstile.Text.Quoted

/-!
# Values written out for logs

The structured text of the values that log entries show in full: each with the name of its kind and
of its fields.
-/

namespace Turnstile.Shown

open Text

/-- A value that may be missing. -/
def option (f : α → String) : Option α → String
  | none => "None"
  | some a => "Some(" ++ f a ++ ")"

def record (name : String) (fields : List (String × String)) : String :=
  name ++ " \x7b " ++ join ", " (fields.map fun (k, v) => k ++ ": " ++ v) ++ " \x7d"

def table (entries : List (String × String)) : String :=
  "\x7b" ++ join ", " (entries.map fun (k, v) => quoted k ++ ": " ++ v) ++ "\x7d"

mutual

/-- A JSON value with the kind of each part. -/
def json : Json → String
  | .null => "Null"
  | .bool b => "Bool(" ++ toString b ++ ")"
  | .int n => "Number(" ++ toString n ++ ")"
  | .double x => "Number(" ++ Json.numberStyle.render x ++ ")"
  | .str s => "String(" ++ quoted s ++ ")"
  | .arr items => "Array [" ++ jsonItems items ++ "]"
  | .obj entries => "Object \x7b" ++ jsonEntries entries ++ "\x7d"

/-- Elements with commas between them. -/
def jsonItems : List Json → String
  | [] => ""
  | [v] => json v
  | v :: w :: rest => json v ++ ", " ++ jsonItems (w :: rest)

/-- Entries with commas between them. -/
def jsonEntries : List (String × Json) → String
  | [] => ""
  | [(k, v)] => quoted k ++ ": " ++ json v
  | (k, v) :: e :: rest => quoted k ++ ": " ++ json v ++ ", " ++ jsonEntries (e :: rest)

end

def workError (e : WorkError) : String :=
  record "JobError"
    [ ("message", quoted e.message), ("code", option quoted e.code),
      ("context", option json e.context) ]

def details (d : FaultDetails) : String :=
  record "ErrorDetails"
    [ ("context", table (d.context.map fun (k, v) => (k, json v))),
      ("job_kind", option quoted d.jobKind), ("job_id", option quoted d.jobId) ]

def cause : FaultCause → String
  | .work e => workError e
  | .io message => record "Custom" [("kind", "Other"), ("error", quoted message)]
  | .component _ message => message

end Turnstile.Shown
