import Turnstile.Journal.Filter
import Turnstile.Journal.Layout

/-!
# Writing the journal

A writer follows the records of a journal, keeps track of the spans that are entered, and writes what
its filter lets through. A span that is not let through leaves no trace.
-/

namespace Turnstile

/-- The format that an environment asks for: people read the logs of development, so records give way
to paragraphs there. -/
def LogFormat.within (environment : String) (f : LogFormat) : LogFormat :=
  if environment = "development" && f = .json then .pretty else f

/-- Settings of logs that have been found sound. -/
structure LogWriter where
  settings : LogSettings
  format : LogFormat
  filter : LogFilter

namespace LogWriter

def ofSettings? (s : TelemetrySettings) : Option LogWriter := do
  let filter ← LogFilter.ofSettings? s.logging
  pure { settings := s.logging, format := s.logging.format.within s.environment, filter }

/-- An entry, if it is let through. -/
def entryLines (w : LogWriter) (entered : List LogSpan) (e : LogEntry) : List LogLine :=
  if w.filter.allows e.level e.source then
    ({ entry := e, scope := entered, entered } : Sighting).lines w.format w.settings
  else []

/-- A moment of a span, if such moments are noted. `around` are the spans around the span. -/
def momentLines (w : LogWriter) (noted : Bool) (moment : String) (span : LogSpan)
    (around entered : List LogSpan) : List LogLine :=
  let entry : LogEntry :=
    { level := span.level, source := span.source, message := moment, fields := [] }
  if noted then
    ({ entry, scope := span :: around, entered } : Sighting).lines w.format w.settings
  else []

/-- What a record writes, and the spans that are entered after it. -/
def step (w : LogWriter) (entered : List LogSpan) (r : JournalRecord) :
    List LogSpan × List LogLine :=
  let noted := w.settings.spanEvents
  let outer := entered.drop 1
  match r with
  | .notice n => (entered, w.entryLines entered n.entry)
  | .opened span => (entered, w.momentLines noted.onNew "new" span entered entered)
  | .entered span =>
    (span :: entered, w.momentLines noted.onEnter "enter" span entered (span :: entered))
  | .left span => (outer, w.momentLines noted.onExit "exit" span outer outer)
  | .closed span => (entered, w.momentLines noted.onClose "close" span entered entered)

/-- Whether a record is followed: notices are, and what happens to a span that is let through. -/
def follows (w : LogWriter) : JournalRecord → Bool
  | .notice _ => true
  | .opened span | .entered span | .left span | .closed span =>
    w.filter.allows span.level span.source

/-- What records write one after the other. -/
def linesFrom (w : LogWriter) (entered : List LogSpan) : List JournalRecord → List LogLine
  | [] => []
  | r :: rest =>
    let (now, written) := w.step entered r
    written ++ w.linesFrom now rest

/-- What a journal writes, its first record first. -/
def lines (w : LogWriter) (records : List JournalRecord) : List LogLine :=
  w.linesFrom [] (records.filter w.follows)

end LogWriter

end Turnstile
