import Turnstile.Decimal.Reading
import Turnstile.Json.Basic
import Turnstile.Text.Blank
import Turnstile.Text.Lowercase

/-!
# Variables of the environment

A variable whose name begins with `JOBGATE__`, in letters of either case, sets a value of the
settings: in the rest of the name two underscores divide the parts of a path. Its text is read as a
truth value or a number if it is one.

Variables may also be listed in a text of lines `name=value`. `Variables.addListed` reads such a text
up to its first mistake, and variables that are there already win over those of the text.
-/

namespace Turnstile

abbrev Variables := List (String × String)

namespace Variables

def get? (vars : Variables) (name : String) : Option String :=
  (vars.find? fun e => e.1 == name).map (·.2)

/-! ### Settings in variables -/

/-- The value that a variable's text stands for. -/
def valueOf (text : String) : Json :=
  let word := Text.lowerAscii text
  if word == "true" then .bool true
  else if word == "false" then .bool false
  else
    match Text.readSigned? 64 text with
    | some n => .int n
    | none =>
      match Double.read? text with
      | some x => .double x
      | none => .str text

/-- The text with points in place of pairs of underscores. -/
def pointed : List Char → List Char
  | '_' :: '_' :: r => '.' :: pointed r
  | c :: r => c :: pointed r
  | [] => []

/-- What the names of settings begin with, in lowercase. -/
def mark : List Char := "jobgate__".toList

/-- The settings that variables give, by path. -/
def settings (vars : Variables) : List (String × Json) :=
  vars.filterMap fun (name, text) =>
    (Text.strip? mark (Text.lower name).toList).map fun path =>
      (String.ofList (pointed path), valueOf text)

/-! ### Lists of variables -/

/-- Where a reader is among the quotes and blanks of a line. -/
inductive Place
  | plain
  | escaped
  | inSingle
  | escapedInSingle
  | inDouble
  | escapedInDouble
  | blank
  | comment
deriving DecidableEq

def Place.atMark (c : Char) : Place :=
  if c = '\\' then .escaped
  else if c = '"' then .inDouble
  else if c = '\'' then .inSingle
  else .plain

/-- The place after one more character. -/
def Place.next (c : Char) : Place → Place
  | .plain => if Text.isBlank c && c != '\n' && c != '\r' then .blank else .atMark c
  | .blank => if c = '#' then .comment else .atMark c
  | .escaped => .plain
  | .inSingle => if c = '\\' then .escapedInSingle else if c = '\'' then .plain else .inSingle
  | .escapedInSingle => .inSingle
  | .inDouble => if c = '\\' then .escapedInDouble else if c = '"' then .plain else .inDouble
  | .escapedInDouble => .inDouble
  | .comment => .comment

/-- The first entry of a text and the text after it: a line, or several that quotes hold together; a
comment at its end is cut off. There is none if the text ends inside quotes. `line` holds what was
read of the entry, last character first. -/
def entryGo (line : List Char) (place : Place) : List Char → Option (List Char × List Char)
  | [] => if place = .plain ∨ place = .comment then some (line.reverse, []) else none
  | c :: r =>
    if place = .comment then
      if c = '\n' then some (line.reverse, r) else entryGo line .comment r
    else
      let place := place.next c
      if place = .comment then entryGo line .comment r
      else if c = '\n' && place = .plain then some (line.reverse, r)
      else entryGo (c :: line) place r

/-- The value of a variable by a name: one that is set, or one that was listed before. -/
def lookUp (known listed : Variables) (name : String) : String :=
  ((get? known name).or (get? listed name)).getD ""

/-- What is read of a variable's value. -/
inductive Mode
  | plain
  | escaped (quoted : Bool)
  | inSingle
  | inDouble
  /-- A name after a dollar sign, last character first. -/
  | name (quoted : Bool) (acc : List Char)
  /-- A name in braces after a dollar sign, last character first. -/
  | bracedName (quoted : Bool) (acc : List Char)
  /-- Only blanks and a comment may follow. -/
  | ending
deriving DecidableEq

def Mode.ofQuoted (quoted : Bool) : Mode := if quoted then .inDouble else .plain

def isEscapable (c : Char) : Bool := "\\'\"$ ".toList.contains c

/-- The value of a variable, last character first; `find` gives the values of names. -/
def valueGo (find : String → String) (acc : List Char) (mode : Mode) : List Char → Option (List Char)
  | [] =>
    match mode with
    | .inSingle | .inDouble | .bracedName .. | .escaped true | .name true _ => none
    | .name false name => some ((find (String.ofList name.reverse)).toList.reverse ++ acc)
    | _ => some acc
  | c :: r =>
    match mode with
    | .ending =>
      if c = ' ' ∨ c = '\t' then valueGo find acc .ending r
      else if c = '#' then some acc
      else none
    | .escaped quoted =>
      if c = 'n' then valueGo find ('\n' :: acc) (.ofQuoted quoted) r
      else if isEscapable c then valueGo find (c :: acc) (.ofQuoted quoted) r
      else none
    | .inSingle =>
      if c = '\'' then valueGo find acc .plain r else valueGo find (c :: acc) .inSingle r
    | .name quoted name =>
      if c.isAlphanum then valueGo find acc (.name quoted (c :: name)) r
      else if c = '\x7b' ∧ name.isEmpty then valueGo find acc (.bracedName quoted []) r
      else
        let acc := (find (String.ofList name.reverse)).toList.reverse ++ acc
        if c = '$' then valueGo find acc (.name quoted []) r
        else valueGo find (c :: acc) (.ofQuoted quoted) r
    | .bracedName quoted name =>
      if c = '\x7d' then
        valueGo find ((find (String.ofList name.reverse)).toList.reverse ++ acc) (.ofQuoted quoted) r
      else valueGo find acc (.bracedName quoted (c :: name)) r
    | .inDouble =>
      if c = '$' then valueGo find acc (.name true []) r
      else if c = '"' then valueGo find acc .plain r
      else if c = '\\' then valueGo find acc (.escaped true) r
      else valueGo find (c :: acc) .inDouble r
    | .plain =>
      if c = '$' then valueGo find acc (.name false []) r
      else if c = '\'' then valueGo find acc .inSingle r
      else if c = '"' then valueGo find acc .inDouble r
      else if c = '\\' then valueGo find acc (.escaped false) r
      else if c = ' ' ∨ c = '\t' then valueGo find acc .ending r
      else valueGo find (c :: acc) .plain r

/-- A name at the front of a text. -/
def name? (cs : List Char) : Option (String × List Char) :=
  match cs with
  | c :: _ =>
    if c.isAlpha || c == '_' then
      let (name, rest) := cs.span fun c => c.isAlphanum || c == '_' || c == '.'
      some (String.ofList name, Text.trimStart rest)
    else none
  | [] => none

/-- The name and the value of an entry; none if the entry is blank or a comment. -/
def assignment? (find : String → String) (entry : List Char) : Option (Option (String × String)) :=
  match Text.trim entry with
  | [] => some none
  | '#' :: _ => some none
  | cs => do
    let (name, rest) ← name? cs
    let (name, rest) ←
      match rest with
      | '=' :: r => some (name, r)
      | rest => do
        guard (name == "export")
        let (name, rest) ← name? rest
        let rest ← Text.strip? ['='] rest
        some (name, rest)
    match Text.trimStart rest with
    | [] => some (some (name, ""))
    | '#' :: _ => some (some (name, ""))
    | cs => do
      let value ← valueGo find [] .plain cs
      some (some (name, String.ofList value.reverse))

/-- The variables that a text lists, up to its first mistake; the fuel bounds the entries. -/
def listedGo (known listed : Variables) (cs : List Char) : Nat → Variables
  | 0 => listed
  | fuel + 1 =>
    if cs.isEmpty then listed
    else if (Text.trimStart (cs.takeWhile (· != '\n'))).head? = some '#' then
      listedGo known listed ((cs.dropWhile (· != '\n')).drop 1) fuel
    else
      match entryGo [] .plain cs with
      | none => listed
      | some (entry, rest) =>
        match assignment? (lookUp known listed) entry with
        | none => listed
        | some none => listedGo known listed rest fuel
        | some (some v) => listedGo known (listed ++ [v]) rest fuel

/-- Adds the variables that a text lists and that are not there yet; of a name that is listed twice
the first counts. -/
def addListed (vars : Variables) (text : String) : Variables :=
  let cs := text.toList
  let cs := if cs.head? = some (Char.ofNat 0xFEFF) then cs.drop 1 else cs
  (listedGo vars [] cs (cs.length + 1)).foldl
    (fun vars (name, value) => if (get? vars name).isSome then vars else vars ++ [(name, value)])
    vars

end Variables

end Turnstile
