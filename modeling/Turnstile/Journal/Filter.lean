import Turnstile.Journal.Notice
import Turnstile.Settings.Telemetry

/-!
# Which log entries are let through

A filter is a list of directives. Each sets a limit for the parts of the program whose names begin
alike; the most specific one that covers a part decides about its entries.
-/

namespace Turnstile

/-- Whether entries of a level are let through by a limit, the least important level that is. Where
there is no level, nothing is let through. -/
def LogLevel.within (limit : Option LogLevel) (level : LogLevel) : Bool :=
  limit.any fun least => level.rank ≤ least.rank

/-! ### Directives -/

/-- A limit for the parts whose names begin with `part`. -/
structure Directive where
  part : String
  limit : Option LogLevel
deriving DecidableEq, Repr

namespace Directive

def limits : List (String × Option LogLevel) :=
  [ ("off", none), ("error", some .error), ("warn", some .warn), ("info", some .info),
    ("debug", some .debug), ("trace", some .trace) ]

/-- The limit that a name in any case or a number stands for. -/
def limitOf? (word : String) : Option (Option LogLevel) :=
  match Text.readUnsigned? 64 word with
  | some n => limits[n]?.map (·.2)
  | none => (limits.find? fun l => l.1 == Text.lowerAscii word).map (·.2)

/-- Whether a directive may begin with a character. Every character beyond ASCII counts as a
letter. -/
def isOpening (c : Char) : Bool :=
  c.isAlphanum || c = '-' || c = ':' || c = '_' || 127 < c.toNat

/-- Reads `limit`, `part=limit` or `part`; what names no limit lets all entries of its part
through. -/
def read? (text : String) : Option Directive :=
  let cs := text.toList
  if !cs.head?.any isOpening || cs.contains '[' || cs.contains ',' then none
  else
    match Text.splitFirst? ['='] cs with
    | some (part, []) => some { part := String.ofList part, limit := some .trace }
    | some (part, word) =>
      (limitOf? (String.ofList word)).map fun limit => { part := String.ofList part, limit }
    | none =>
      match limitOf? text with
      | some limit => some { part := "", limit }
      | none => some { part := text, limit := some .trace }

def covers (d : Directive) (source : String) : Bool :=
  (Text.strip? d.part.toList source.toList).isSome

/-- The one of two directives that cover a part that decides: the more specific one, and of two
alike the later. -/
def decisive (earlier : Option Directive) (later : Directive) : Directive :=
  match earlier with
  | some d => if later.part.length < d.part.length then d else later
  | none => later

end Directive

/-! ### Filters -/

/-- Directives in the order in which they were given. -/
structure LogFilter where
  directives : List Directive
deriving DecidableEq, Repr

namespace LogFilter

/-- Reads directives with commas between them; where there are none, errors alone are let
through. -/
def read? (text : String) : Option LogFilter := do
  let words := (Text.splitOnChar ',' text.toList).filter fun word => !word.isEmpty
  let directives ← words.mapM fun word => Directive.read? (String.ofList word)
  pure ⟨if directives.isEmpty then [{ part := "", limit := some .error }] else directives⟩

/-- The filter that settings ask for; the levels of single parts come last. -/
def ofSettings? (s : LogSettings) : Option LogFilter := do
  let filter ← read? s.level
  let parts ← s.moduleLevels.mapM fun (part, level) => Directive.read? (part ++ "=" ++ level)
  pure ⟨filter.directives ++ parts⟩

def directiveFor (f : LogFilter) (source : String) : Option Directive :=
  (f.directives.filter (·.covers source)).foldl (fun best d => some (Directive.decisive best d)) none

def allows (f : LogFilter) (level : LogLevel) (source : String) : Bool :=
  (f.directiveFor source).any fun d => level.within d.limit

end LogFilter

end Turnstile
