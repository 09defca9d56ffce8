import Turnstile.Ini
import Turnstile.Json.Parser
import Turnstile.Settings.Basic
import Turnstile.Settings.Layers
import Turnstile.Settings.Lenient
import Turnstile.Settings.Variables
import Turnstile.Toml.Parser
import Turnstile.Yaml.Parser

/-!
# Loading settings

Settings come from a file, if one is named, with the variables of the environment over it. The text
in `.env` lists further variables. Settings that cannot be read, or that the engine cannot run with,
are a fault. Files and variables are those of the specification, section 10.3.
-/

namespace Turnstile

/-- What surrounds the program: the texts of files by path, and variables. -/
structure Surroundings where
  files : List (String × String)
  vars : Variables

namespace Surroundings

/-- The parts of a path; those that stay at the same place are left out. -/
def pathParts (path : String) : List (List Char) :=
  (Text.splitOnChar '/' path.toList).filter fun part => !part.isEmpty && part != ['.']

def samePath (a b : String) : Bool :=
  pathParts a == pathParts b && (a.toList.head? == some '/') == (b.toList.head? == some '/')

def file? (s : Surroundings) (path : String) : Option String :=
  (s.files.find? fun f => samePath f.1 path).map (·.2)

/-- The file that may list further variables. -/
def variablesFile : String := ".env"

/-- The variables together with those that the file of variables lists. -/
def allVariables (s : Surroundings) : Variables :=
  match s.file? variablesFile with
  | some text => s.vars.addListed text
  | none => s.vars

end Surroundings

/-- How a file of settings is written. -/
inductive FileFormat
  | toml
  | json
  | yaml
  | ini
deriving DecidableEq, Repr

namespace FileFormat

/-- The formats by the ends of file names, in the order in which they are tried. -/
def extensions : List (String × FileFormat) :=
  [("toml", toml), ("json", json), ("yaml", yaml), ("yml", yaml), ("ini", ini)]

/-- What follows the last point of a file name that does not begin with it. -/
def extensionOf? (path : String) : Option String :=
  let name := ((Text.splitOnChar '/' path.toList).getLast?).getD []
  match (Text.splitOnChar '.' name).reverse with
  | last :: before :: more => if before.isEmpty && more.isEmpty then none else some (String.ofList last)
  | _ => none

def ofPath? (path : String) : Option FileFormat := do
  let extension ← extensionOf? path
  (extensions.find? fun e => e.1 == extension).map (·.2)

mutual

/-- The value with doubles in place of whole numbers that do not fit in 64 bits with a sign. -/
def narrow : Json → Json
  | .int n => if n < Nat.pow 2 63 then .int n else .double (Double.ofInt n)
  | .arr items => .arr (narrowItems items)
  | .obj entries => .obj (narrowEntries entries)
  | v => v

/-- Every element narrowed. -/
def narrowItems : List Json → List Json
  | [] => []
  | v :: rest => narrow v :: narrowItems rest

def narrowEntries : List (String × Json) → List (String × Json)
  | [] => []
  | (k, v) :: rest => (k, narrow v) :: narrowEntries rest

end

/-- The entries of a text whose value is a table. -/
def read? (format : FileFormat) (text : String) : Option (List (String × Json)) :=
  let v := match format with
    | toml => Toml.read? text
    | json => (Json.read? text).map narrow
    | yaml => Yaml.read? text
    | ini => Ini.read? text
  match v with
  | some (.obj entries) => some entries
  | _ => none

end FileFormat

namespace Settings

/-- The variable that names the environment. -/
def environmentName : String := "JOBGATE_ENVIRONMENT"

def environmentOf (vars : Variables) : String :=
  (vars.get? environmentName).getD TelemetrySettings.usualEnvironment

def ofLayers? (vars : Variables) (file : List (String × Json)) : Option Settings :=
  let merged := Layers.add (Layers.add (.obj []) file) vars.settings
  Settings.read? Lenient.reading (environmentOf vars) merged

/-- The files that may stand for a path, with their formats: the file of that very name, and where
there is none, the files whose names have the ending of a format more. -/
def candidates (path : String) : List (String × Option FileFormat) :=
  (path, FileFormat.ofPath? path) ::
    FileFormat.extensions.map fun (e, format) => (path ++ "." ++ e, some format)

/-- The entries of the first candidate that is there. -/
def fileEntries? (s : Surroundings) (path : String) : Option (List (String × Json)) := do
  let (text, format) ← (candidates path).findSome? fun (name, format) =>
    (s.file? name).map fun text => (text, format)
  (← format).read? text

/-- The settings of the file at a path, if one is given, and of the variables. -/
def load (path : Option String) (s : Surroundings) : Except Fault Settings :=
  let file := match path with
    | some path => fileEntries? s path
    | none => some []
  match file.bind (ofLayers? s.allVariables) with
  | none => .error (Fault.unloadableSettings "unreadable settings")
  | some settings => settings.check.map fun () => settings

end Settings

end Turnstile
