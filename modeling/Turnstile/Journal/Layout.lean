import Turnstile.Journal.Notice
import Turnstile.Settings.Telemetry

/-!
# How log entries are written

One JSON record an entry, one line an entry, or a paragraph an entry. Times are not written, and
records only mark that they show the place and the thread of an entry, since these belong to a run
and not to what happened in it. The three layouts are those of the specification, section 10.1.
-/

namespace Turnstile

/-- An entry together with the spans around it. -/
structure Sighting where
  entry : LogEntry
  /-- The spans that the entry belongs to, the innermost first. -/
  scope : List LogSpan
  /-- The spans that are entered at the time, the innermost first. -/
  entered : List LogSpan

/-- A piece of the written log. -/
inductive LogLine
  | record (v : Json)
  | text (line : String)

/-! ### Records -/

def FieldValue.toJson : FieldValue → Json
  | plain s => .str s
  | text s => .str s
  | count n => Json.ofNat n
  | flag b => .bool b

namespace Sighting

def fieldEntries (fields : List (String × FieldValue)) : List (String × Json) :=
  fields.map fun (k, v) => (k, v.toJson)

def spanRecord (s : LogSpan) : Json :=
  .obj (fieldEntries s.fields ++ [("name", .str s.name)])

/-- The record of an entry. -/
def record (s : LogSettings) (x : Sighting) : Json :=
  let shown (included : Bool) (v : Json) : Option Json := if included then some v else none
  let fields := ("message", .str x.entry.message) :: fieldEntries x.entry.fields
  Json.ofFields
    [ ("level", some (.str x.entry.level.name)),
      ("fields", some (Json.obj fields).normalize),
      ("target", shown s.includeTarget (.str x.entry.source)),
      ("filename", shown s.includeLocation (.bool true)),
      ("line_number", shown s.includeLocation (.bool true)),
      ("span", x.scope.head?.map spanRecord),
      ("spans", shown (!x.scope.isEmpty) (Json.ofList spanRecord x.entered.reverse)),
      ("threadName", shown s.includeThread (.bool true)),
      ("threadId", shown s.includeThread (.bool true)) ]

/-! ### Text -/

/-- A message without characters that steer a terminal; they are written as escapes. -/
def visible (message : String) : String :=
  let steering : List Nat := [0x07, 0x08, 0x0c, 0x1b, 0x7f]
  String.ofList
    (message.toList.flatMap fun c =>
      if steering.contains c.toNat then ['\\', 'x'] ++ Text.hexDigits 2 c.toNat
      else if 0x80 ≤ c.toNat && c.toNat ≤ 0x9f then
        ['\\', 'u', '\x7b'] ++ Text.hex c.toNat ++ ['\x7d']
      else [c])

/-- The text of a field's value. -/
def valueText : FieldValue → String
  | .plain s => s
  | .text s => Text.quoted s
  | .count n => toString n
  | .flag b => toString b

/-- A field with `mark` between its name and its value; a field named `message` has no name. -/
def fieldText (mark : String) (field : String × FieldValue) : String :=
  let (name, value) := field
  if name = "message" then visible (valueText value) else name ++ mark ++ valueText value

def levelText (l : LogLevel) : String :=
  String.ofList (List.replicate (5 - l.name.length) ' ') ++ l.name ++ " "

def bodyText (mark separator : String) (e : LogEntry) : String :=
  Text.join separator (visible e.message :: e.fields.map (fieldText mark))

/-- The names of the spans around an entry, the outermost first. -/
def scopeNames (x : Sighting) : String :=
  if x.scope.isEmpty then ""
  else String.join (x.scope.reverse.map fun span => span.name ++ ":") ++ " "

/-- An entry on one line. -/
def compact (s : LogSettings) (x : Sighting) : String :=
  let spanFields := x.scope.reverse.filter fun span => !span.fields.isEmpty
  levelText x.entry.level ++
    (if s.includeThread then "main ThreadId(01) " else "") ++
    x.scopeNames ++
    (if s.includeTarget then x.entry.source ++ ": " else "") ++
    bodyText "=" " " x.entry ++
    String.join
      (spanFields.map fun span => " " ++ Text.join " " (span.fields.map (fieldText "=")))

/-- A span on a line of its own. -/
def spanLine (s : LogSettings) (span : LogSpan) : String :=
  "    in " ++ (if s.includeTarget then span.source ++ "::" else "") ++ span.name ++
    (if span.fields.isEmpty then ""
    else " with " ++ Text.join ", " (span.fields.map (fieldText ": ")))

/-- An entry on a line, the thread and the spans around it on lines of their own, and a blank
line. -/
def paragraph (s : LogSettings) (x : Sighting) : List String :=
  let head := "  " ++ levelText x.entry.level ++
    (if s.includeTarget then x.entry.source ++ ":" else "") ++ " " ++ bodyText ": " ", " x.entry
  head :: (if s.includeThread then ["    on main ThreadId(1)"] else []) ++
    x.scope.map (spanLine s) ++ [""]

def linesOf (text : String) : List LogLine :=
  (Text.splitOnChar '\n' text.toList).map fun line => .text (String.ofList line)

/-- An entry in a format. -/
def lines (format : LogFormat) (s : LogSettings) (x : Sighting) : List LogLine :=
  match format with
  | .json => [.record (x.record s)]
  | .compact => linesOf (x.compact s)
  | .pretty => (x.paragraph s).flatMap linesOf

end Sighting

end Turnstile
