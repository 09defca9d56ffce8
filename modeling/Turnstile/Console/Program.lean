import Turnstile.Console.Session
import Turnstile.Server.Address
import Turnstile.Settings.Loading

/-!
# The console program

A run of the program reads its command line, loads the settings, and runs the command against the
store that they name. It ends with a code: zero if all went well, one if the command failed, two if
the command line does not fit.
-/

namespace Turnstile.Console

/-! ### Command lines -/

def programName : String := "jobgate"

def programVersion : String := "0.1.0"

def versionSwitch : Switch := { name := "version", short := some 'V', kind := .version }

/-- The options that all commands share. -/
def commonSwitches : List Switch :=
  [ { name := "output", short := some 'o', kind := .value Command.formatText },
    { name := "config", short := some 'c', kind := .value Command.pathText },
    { name := "verbose", short := some 'v', kind := .flag },
    { name := "no-color", short := none, kind := .flag }, versionSwitch ]

def programGrammar : Grammar := Command.group commonSwitches (Command.commands commonSwitches)

/-- The variable that names the file of settings. -/
def pathVariable : String := "JOBGATE_CONFIG"

/-- What a command line asks for. -/
structure Request where
  command : Command
  format : Format
  /-- The file of settings. -/
  path : Option String

/-- What words ask for; a variable may name the file of settings. -/
def Request.parse (words : List String) (vars : Variables) : Except Misuse Request := do
  let line ← programGrammar.parse words
  let path := (line.value? "config").or (vars.get? pathVariable)
  if path = some "" then throw .valueMissing
  let command ← (Command.ofLine? line).elim (throw .commandMissing) pure
  return { command, format := ((line.value? "output").bind Format.ofText?).getD .table, path }

/-! ### Files of settings -/

/-- The directory for settings of programs. -/
def settingsHome? (vars : Variables) : Option String :=
  match vars.get? "XDG_CONFIG_HOME" with
  | some dir => if dir.toList.head? = some '/' then some dir else ofHome
  | none => ofHome
where
  ofHome : Option String := (vars.get? "HOME").map (· ++ "/.config")

/-- The usual file of settings, if it is there. -/
def usualPath? (s : Surroundings) : Option String := do
  let dir ← settingsHome? s.vars
  let path := dir ++ "/" ++ programName ++ "/config.toml"
  if (s.file? path).isSome then some path else none

/-- The files that the program may read for a request. -/
def filesOf (path : Option String) (vars : Variables) : List String :=
  let usual := ((settingsHome? vars).map (· ++ "/" ++ programName ++ "/config.toml")).toList
  let named := match path with
    | some path => (Settings.candidates path).map (·.1)
    | none => []
  Surroundings.variablesFile :: usual ++ named

/-- Loads the settings. -/
def loadSettings (path : Option String) (s : Surroundings) : Except Trouble Settings :=
  (Settings.load path s).mapError fun f =>
    match path with
    | some path => .message s!"Failed to load {path}" (some f)
    | none => .message "Failed to load configuration from environment" (some f)

/-! ### Runs -/

/-- How a run ended. -/
structure Ending where
  code : Nat
  printed : Printed
deriving Inhabited

/-- The ending for a command line that does not fit, or that asks for a fixed text. -/
def Ending.ofMisuse : Misuse → Ending
  | .helpWanted => { code := 0, printed := { out := "", err := "" } }
  | .versionWanted path =>
    let name := Text.join "-" (programName :: path)
    { code := 0, printed := { out := s!"{name} {programVersion}\n", err := "" } }
  | _ => { code := 2, printed := { out := "", err := "" } }

/-- The ending of a session. -/
def Ending.ofSession : Except Trouble Unit × Printed → Ending
  | (.ok (), printed) => { code := 0, printed }
  | (.error t, printed) =>
    { code := 1, printed := { printed with err := printed.err ++ "[ERROR] " ++ t.text ++ "\n" } }

/-- The failure to reach a store server: the program itself is on no network. -/
def unreachable (settings : Settings) : Trouble :=
  .message s!"Failed to connect to the {settings.backend.name} store"
    (some (Server.connectOffline settings.server))

variable {m : Type → Type} [Monad m] [MonadStore m] [MonadClock m] [MonadJournal m] [MonadFresh m]

/-- Serves a request with the store of this process. -/
def serve (r : Request) (s : Surroundings) : Session m Unit := do
  let path := r.path.or (usualPath? s)
  match loadSettings path s with
  | .error t => throw t
  | .ok settings =>
    if settings.backend = .redis ∧ r.command.needsStore then throw (unreachable settings)
    else execute settings path r.format r.command

/-- Runs the program. -/
def run (words : List String) (s : Surroundings) : m Ending := do
  match Request.parse words s.vars with
  | .error misuse => return Ending.ofMisuse misuse
  | .ok request => return Ending.ofSession (← (serve request s : Session m Unit).perform)

end Turnstile.Console
