import Turnstile.Text.Scan

/-!
# Command-line grammars

A grammar is a tree of commands. Each command has options, and either commands below it or positional
words. `Grammar.parse` reads a command line by it, and says what is wrong with a line that it does
not fit: the first thing that is wrong from left to right, then what is missing.

An option may stand anywhere after the command that has it. Its value follows as the next word or
directly, after an equals sign if the name is long. After the word `--` everything is positional.
-/

namespace Turnstile.Console

/-- Why a command line does not fit a grammar, or is answered with a fixed text. -/
inductive Misuse
  | helpWanted
  | versionWanted (path : List String)
  | commandMissing
  | commandUnknown
  | wordMissing
  | wordUnknown
  | conflict
  /-- An option without its value, or with a value that it does not have. -/
  | valueMissing
  /-- A value for an option that takes none. -/
  | valueUnwanted
  /-- A value that does not read as what it should be. -/
  | valueUnreadable
deriving DecidableEq, Repr, Inhabited

/-- What an option does. -/
inductive SwitchKind
  | flag
  /-- Takes a value that passes a test. -/
  | value (test : String → Except Misuse Unit)
  | help
  | version

structure Switch where
  name : String
  short : Option Char
  kind : SwitchKind

/-- How the positional words of a command are filled. -/
structure Positionals where
  /-- The number of words that must be there. -/
  required : Nat
  /-- Whether any number of words may follow, also words that look like options. -/
  more : Bool

/-- The grammar of a command. -/
inductive Grammar
  | mk (options : List Switch) (conflicts : List (String × String)) (positionals : Positionals)
    (commands : List (String × Grammar))

namespace Grammar

def options : Grammar → List Switch
  | mk options _ _ _ => options

def conflicts : Grammar → List (String × String)
  | mk _ conflicts _ _ => conflicts

def positionals : Grammar → Positionals
  | mk _ _ positionals _ => positionals

def commands : Grammar → List (String × Grammar)
  | mk _ _ _ commands => commands

def command? (g : Grammar) (name : String) : Option Grammar :=
  (g.commands.find? fun c => c.1 == name).map (·.2)

def long? (g : Grammar) (name : String) : Option Switch := g.options.find? fun o => o.name == name

def short? (g : Grammar) (c : Char) : Option Switch :=
  g.options.find? fun o => o.short == some c

end Grammar

/-- A command line that fits. -/
structure Line where
  /-- The commands from the outermost to the innermost. -/
  path : List String
  /-- The options with their values, those of inner commands after those of outer ones. -/
  options : List (String × String)
  words : List String
deriving Inhabited

namespace Line

/-- The value of an option; the innermost command's counts. -/
def value? (l : Line) (name : String) : Option String :=
  (l.options.reverse.find? fun o => o.1 == name).map (·.2)

def has (l : Line) (name : String) : Bool := (l.value? name).isSome

end Line

/-! ### Reading one command -/

/-- What has been read of one command. -/
structure Reader where
  /-- The command and those above it, the innermost last. -/
  path : List String
  found : List (String × String)
  words : List String
  /-- An option whose value comes next or has just come. -/
  pending : Option (Switch × Option String)
  /-- Whether only positional words follow. -/
  closed : Bool

namespace Reader

def start (path : List String) : Reader :=
  { path, found := [], words := [], pending := none, closed := false }

/-- Adds an option; it may stand only once in a command. -/
def add (r : Reader) (o : Switch) (value : String) : Except Misuse Reader := do
  if r.found.any fun f => f.1 == o.name then throw .conflict
  match o.kind with
  | .value test => test value
  | _ => pure ()
  return { r with found := r.found ++ [(o.name, value)] }

/-- Adds the option that is pending. -/
def settle (r : Reader) : Except Misuse Reader :=
  match r.pending with
  | none => return r
  | some (_, none) => throw .valueMissing
  | some (o, some value) => { r with pending := none }.add o value

/-- Takes an option in; `attached` is a value that stands in the same word. -/
def take (r : Reader) (o : Switch) (attached : Option String) : Except Misuse Reader := do
  match o.kind, attached with
  | .value _, none => return { (← r.settle) with pending := some (o, none) }
  | .value _, some value => (← r.settle).add o value
  | _, some _ => throw .valueUnwanted
  | .help, none =>
    let _ ← r.settle
    throw .helpWanted
  | .version, none =>
    let _ ← r.settle
    throw (.versionWanted r.path)
  | .flag, none => (← r.settle).add o ""

/-- Takes in a word of short options, such as `-vo json` without its dash. -/
def takeShorts (g : Grammar) (r : Reader) : List Char → Except Misuse Reader
  | [] => return r
  | c :: rest =>
    match g.short? c with
    | none => throw .wordUnknown
    | some o =>
      match o.kind, rest with
      | .value _, [] => r.take o none
      | .value _, '=' :: value => r.take o (some (String.ofList value))
      | .value _, value => r.take o (some (String.ofList value))
      | _, rest => do takeShorts g (← r.take o none) rest

/-- Takes in a long option without its dashes. -/
def takeLong (g : Grammar) (r : Reader) (cs : List Char) : Except Misuse Reader :=
  let (name, attached) := match Text.splitFirst? ['='] cs with
    | some (name, value) => (name, some (String.ofList value))
    | none => (cs, none)
  match g.long? (String.ofList name) with
  | some o => r.take o attached
  | none => throw .wordUnknown

/-- Whether the next positional word may look like an option. -/
def takesAny (g : Grammar) (r : Reader) : Bool :=
  g.positionals.more && g.positionals.required ≤ r.words.length

def isTakingAny (g : Grammar) (r : Reader) : Bool :=
  g.positionals.more && g.positionals.required < r.words.length && r.pending.isNone

/-- Whether a word is read as options. -/
def looksLikeOption (g : Grammar) (r : Reader) (word : List Char) : Bool :=
  match word with
  | '-' :: '-' :: name =>
    if r.isTakingAny g then false
    else
      let known := (g.long? (String.ofList (name.takeWhile (· != '=')))).isSome
      known || !r.takesAny g
  | '-' :: c :: cs =>
    if r.isTakingAny g then false
    else !r.takesAny g || (c :: cs).all fun c => (g.short? c).isSome
  | _ => false

/-- What is wrong with a word for which there is no place. -/
def misplaced (g : Grammar) (r : Reader) (word : String) : Misuse :=
  if r.closed && (g.command? word).isSome then .wordUnknown
  else if !g.commands.isEmpty && !g.positionals.more && g.positionals.required = 0 then
    .commandUnknown
  else .wordUnknown

/-- Takes in a positional word. -/
def takeWord (g : Grammar) (r : Reader) (word : String) : Except Misuse Reader :=
  if r.words.length < g.positionals.required || g.positionals.more then do
    let r ← r.settle
    return { r with words := r.words ++ [word] }
  else throw (r.misplaced g word)

/-- Takes in a word that names no command. -/
def takeAny (g : Grammar) (r : Reader) (word : String) : Except Misuse Reader :=
  if r.closed then r.takeWord g word
  else if word == "--" then
    if r.isTakingAny g then r.takeWord g word else return { r with closed := true }
  else if r.looksLikeOption g word.toList then
    match word.toList with
    | '-' :: '-' :: name => takeLong g r name
    | _ :: shorts => takeShorts g r shorts
    | [] => return r
  else
    match r.pending with
    | some (o, none) => return { r with pending := some (o, some word) }
    | _ => r.takeWord g word

/-- The line that ends here. -/
def finish (g : Grammar) (r : Reader) : Except Misuse Line := do
  let r ← r.settle
  let has (name : String) : Bool := r.found.any fun f => f.1 == name
  if !g.commands.isEmpty then throw .commandMissing
  if g.conflicts.any fun (a, b) => has a && has b then throw .conflict
  if r.words.length < g.positionals.required then throw .wordMissing
  return { path := r.path, options := r.found, words := r.words }

end Reader

/-! ### Reading command lines -/

/-- The command whose help is wanted: help, or a mistake in its name. -/
def Grammar.help (g : Grammar) : List String → Misuse
  | [] => .helpWanted
  | name :: rest =>
    match g.command? name with
    | some inner => inner.help rest
    | none => if name == "help" && !g.commands.isEmpty then .helpWanted else .commandUnknown

/-- Reads words by a grammar, going on from what has been read. -/
def Grammar.parseFrom (g : Grammar) (r : Reader) : List String → Except Misuse Line
  | [] => r.finish g
  | word :: rest => do
    let isFree := !r.closed && !(r.pending matches some (_, none)) && !r.isTakingAny g
    if isFree && word == "help" && !g.commands.isEmpty then throw (g.help rest)
    match if isFree then g.command? word else none with
    | some inner =>
      let line ← inner.parseFrom (Reader.start (r.path ++ [word])) rest
      let r ← r.settle
      return { line with options := r.found ++ line.options }
    | none => g.parseFrom (← r.takeAny g word) rest

def Grammar.parse (g : Grammar) (words : List String) : Except Misuse Line :=
  g.parseFrom (Reader.start []) words

end Turnstile.Console
