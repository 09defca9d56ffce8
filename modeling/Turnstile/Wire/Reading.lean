import Turnstile.Json.Basic
import Turnstile.Time.Duration
import Turnstile.Time.Spelled
import Turnstile.Time.Timestamp

/-!
# Reading values into types

A `Reading` says how one representation of values is read: which of its values count as a truth
value, a number, a text, a choice, a record. The types of this library are read through it, so that
a type has one reader for all representations. `Json.reading` is the strict one for JSON.

A record may be written as its fields by name or, where the representation allows it, as the list
of its fields in order. `Fields` are the known fields that a value has.
-/

namespace Turnstile

/-- The known fields of a record. -/
structure Fields (V : Type) where
  /-- The fields that are present, by name. -/
  present : List (String × V)
  /-- Whether the record was written as a list. -/
  positional : Bool

/-- How values of a representation are read. -/
structure Reading (V : Type) where
  isNull : V → Bool
  bool? : V → Option Bool
  text? : V → Option String
  /-- A whole number of at most that many bits. -/
  word? : Nat → V → Option Nat
  double? : V → Option Double
  list? : V → Option (List V)
  /-- A table with arbitrary keys; of a repeated key the last entry. -/
  table? : V → Option (List (String × V))
  /-- The one of the given names that the value chooses. -/
  choice? : List String → V → Option String
  /-- The fields of a record with the given field names. -/
  fields? : List String → V → Option (Fields V)

namespace Reading

variable {V : Type} (r : Reading V)

def duration? (v : V) : Option Duration := do
  let text ← r.text? v
  Spelled.read? text

def instant? (v : V) : Option Instant := do
  let text ← r.text? v
  Timestamp.read? text

def ofChoice? (names : List (String × α)) (v : V) : Option α := do
  let name ← r.choice? (names.map (·.1)) v
  (names.find? fun entry => entry.1 == name).map (·.2)

/-- A value that may be null. -/
def optional? (f : V → Option α) (v : V) : Option (Option α) :=
  if r.isNull v then some none else (f v).map some

def listOf? (f : V → Option α) (v : V) : Option (List α) := do
  let items ← r.list? v
  items.mapM f

def tableOf? (f : V → Option α) (v : V) : Option (List (String × α)) := do
  let entries ← r.table? v
  entries.mapM fun (k, v) => (f v).map fun a => (k, a)

end Reading

namespace Fields

variable {V : Type} (fs : Fields V)

def get? (name : String) : Option V := (fs.present.find? fun entry => entry.1 == name).map (·.2)

/-- A field that must be there. -/
def required? (name : String) (f : V → Option α) : Option α := do
  let v ← fs.get? name
  f v

/-- A field that stands for a default when it is missing. -/
def defaulted? (name : String) (default : α) (f : V → Option α) : Option α :=
  match fs.get? name with
  | none => some default
  | some v => f v

/-- A field that may be missing from a named record, but not from a list. -/
def named? (name : String) (f : V → Option (Option α)) : Option (Option α) :=
  match fs.get? name with
  | none => if fs.positional then none else some none
  | some v => f v

end Fields

/-! ### JSON -/

namespace Json

def nameAmong? (names : List String) (name : String) : Option String :=
  if names.contains name then some name else none

/-- A choice is its name, or an object from its name to null. -/
def choice? (names : List String) : Json → Option String
  | .str name => nameAmong? names name
  | .obj [(name, .null)] => nameAmong? names name
  | _ => none

/-- The fields of an object or of a list: a known field may not be repeated, and a list may not be
longer than the record. -/
def fields? (names : List String) : Json → Option (Fields Json)
  | .obj entries =>
    let known := entries.filter fun entry => names.contains entry.1
    if (known.map (·.1)).Nodup then some { present := known, positional := false } else none
  | .arr items =>
    if items.length ≤ names.length then
      some { present := names.zip items, positional := true }
    else none
  | _ => none

/-- The strict reading of JSON: no kind of value stands for another, except whole numbers for
doubles. -/
def reading : Reading Json where
  isNull := isNull
  bool? := bool?
  text? := text?
  word? width v := do
    let n ← v.nat?
    if n < Nat.pow 2 width then some n else none
  double? := double?
  list? := list?
  table?
    | .obj entries => some (sortEntries entries)
    | _ => none
  choice? := choice?
  fields? := fields?

def ofDuration (d : Duration) : Json := .arr [.int d.seconds, .int d.subsecNanos]

def spelled (d : Duration) : Json := .str (Spelled.render d)

def stamped (t : Instant) : Json := .str (Timestamp.render t)

end Json

end Turnstile
