import Turnstile.Console.Program
import Turnstile.Simulation.Machine

/-!
# Command line

Reads the words, the variables and the files that the program may need, runs it with a store of its
own, and prints what it printed.
-/

namespace Turnstile

/-- The variables that the program looks at by name. -/
def watchedVariables : List String :=
  let sections : List (String × List String) :=
    [ ("STORE", ["BACKEND"]), ("REDIS", ["URL", "KEY_PREFIX"]),
      ("REGISTRY", ["ENTRY_TTL", "CLEAN_UP_BATCH_SIZE"]),
      ("DEDUP", ["DEFAULT_STRATEGY", "INCLUDING_SCHEDULED", "TTL"]),
      ("LEASE", ["TTL", "RETRIES", "RETRY_DELAY", "BACKOFF"]), ("STATUS", ["TTL"]),
      ("TELEMETRY",
        [ "SERVICE_NAME", "ENVIRONMENT", "LOGGING__LEVEL", "LOGGING__FORMAT", "METRICS__ENABLED",
          "METRICS__ENDPOINT" ]) ]
  ["HOME", "XDG_CONFIG_HOME", Console.pathVariable, Settings.environmentName] ++
    sections.flatMap fun (part, names) => names.map fun name => s!"JOBGATE__{part}__{name}"

/-- The variables that are set. -/
def readVariables : IO Variables :=
  watchedVariables.filterMapM fun name => do
    return (← IO.getEnv name).map fun value => (name, value)

def readText? (path : String) : IO (Option String) := do
  try return some (← IO.FS.readFile path)
  catch _ => return none

def readFiles (paths : List String) : IO (List (String × String)) :=
  paths.filterMapM fun path => do
    return (← readText? path).map fun text => (path, text)

end Turnstile

open Turnstile

def main (words : List String) : IO UInt32 := do
  let vars ← readVariables
  let path := match Console.Request.parse words vars with
    | .ok request => request.path
    | .error _ => none
  let files ← readFiles (Console.filesOf path vars)
  let run : StateM Machine Console.Ending := Console.run words { files, vars }
  let ending := (run.run (Machine.ofClock Instant.epoch)).1
  IO.print ending.printed.out
  IO.eprint ending.printed.err
  return UInt32.ofNat ending.code
