import Turnstile.Console.Grammar

/-!
# Commands of the console

What an operator can ask for, and how it is written on the command line. The commands are those of
the specification, section 10.5.
-/

namespace Turnstile.Console

/-- How results are shown. -/
inductive Format
  | table
  | json
  | yaml
deriving DecidableEq, Repr, Inhabited

def Format.ofText? : String → Option Format
  | "table" => some table
  | "json" => some json
  | "yaml" => some yaml
  | _ => none

/-- Something an operator asks for. -/
inductive Command
  /-- The running jobs of a kind, the oldest first, at most so many. -/
  | listRunning (kind : String) (limit : Nat)
  | countRunning (kind : String)
  /-- Removes running jobs that are over. -/
  | pruneRunning (kind : String)
  /-- Whether a job is live. -/
  | jobStatus (id : String)
  | showLease (key : String)
  /-- Releases a lease for the token that holds it, or by force. -/
  | releaseLease (key : String) (token : Option String) (force : Bool)
  /-- The idempotency key of a submission and its owner; arguments are JSON texts. -/
  | showClaim (kind : String) (args : List String)
  | clearClaim (kind : String) (args : List String)
  | showSettings
  | showSettingsPath
  | checkSettings
deriving DecidableEq, Repr, Inhabited

/-! ### Grammars -/

namespace Command

def helpSwitch : Switch := { name := "help", short := some 'h', kind := .help }

def leaf (required : Nat) (more : Bool) (options : List Switch) (conflicts : List (String × String)) :
    Grammar :=
  .mk (options ++ [helpSwitch]) conflicts { required, more } []

def group (options : List Switch) (commands : List (String × Grammar)) : Grammar :=
  .mk (options ++ [helpSwitch]) [] { required := 0, more := false } commands

def anyText (_ : String) : Except Misuse Unit := .ok ()

def countText (text : String) : Except Misuse Unit :=
  if (Text.readUnsigned? 64 text).isSome then .ok () else .error .valueUnreadable

def formatText (text : String) : Except Misuse Unit :=
  if (Format.ofText? text).isSome then .ok () else .error .valueMissing

def pathText (text : String) : Except Misuse Unit :=
  if text.isEmpty then .error .valueMissing else .ok ()

def runningGrammar (common : List Switch) : Grammar :=
  let limit : Switch := { name := "limit", short := some 'l', kind := .value countText }
  group common
    [ ("list", leaf 1 false (limit :: common) []), ("count", leaf 1 false common []),
      ("prune", leaf 1 false common []), ("status", leaf 1 false common []) ]

def leaseGrammar (common : List Switch) : Grammar :=
  let token : Switch := { name := "token", short := some 't', kind := .value anyText }
  let force : Switch := { name := "force", short := some 'f', kind := .flag }
  group common
    [ ("show", leaf 1 false common []),
      ("release", leaf 1 false (token :: force :: common) [("token", "force")]) ]

def dedupGrammar (common : List Switch) : Grammar :=
  group common [("key", leaf 1 true common []), ("clear", leaf 1 true common [])]

def settingsGrammar (common : List Switch) : Grammar :=
  group common
    [ ("show", leaf 0 false common []), ("path", leaf 0 false common []),
      ("check", leaf 0 false common []) ]

/-- All commands; `common` are options that each of them has. -/
def commands (common : List Switch) : List (String × Grammar) :=
  [ ("running", runningGrammar common), ("lease", leaseGrammar common), ("dedup", dedupGrammar common),
    ("config", settingsGrammar common) ]

/-- The grammar of a command by itself, without options of the program. -/
def grammar : Grammar := group [] (commands [])

/-! ### Meaning -/

/-- How many running jobs are listed where nothing is said. -/
def usualLimit : Nat := 50

/-- The command that a line asks for. -/
def ofLine? (l : Line) : Option Command :=
  match l.path, l.words with
  | ["running", "list"], [kind] =>
    some (listRunning kind (((l.value? "limit").bind (Text.readUnsigned? 64)).getD usualLimit))
  | ["running", "count"], [kind] => some (countRunning kind)
  | ["running", "prune"], [kind] => some (pruneRunning kind)
  | ["running", "status"], [id] => some (jobStatus id)
  | ["lease", "show"], [key] => some (showLease key)
  | ["lease", "release"], [key] => some (releaseLease key (l.value? "token") (l.has "force"))
  | ["dedup", "key"], kind :: args => some (showClaim kind args)
  | ["dedup", "clear"], kind :: args => some (clearClaim kind args)
  | ["config", "show"], _ => some showSettings
  | ["config", "path"], _ => some showSettingsPath
  | ["config", "check"], _ => some checkSettings
  | _, _ => none

def parse (words : List String) : Except Misuse Command := do
  let line ← grammar.parse words
  (ofLine? line).elim (throw .commandMissing) pure

end Command

end Turnstile.Console
