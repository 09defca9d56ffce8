import Turnstile.Text.Blank
import Turnstile.Text.Scan
import Turnstile.Time.Duration

/-!
# Spelled-out durations

Durations as amounts with units, such as `1h 30m` or `2months 3days`. A year is 365.25 days and a
month 30.44 days, whole seconds both. `render` writes the parts from the largest unit down;
`read?` accepts any order, repeated units, fractions that come out even, and blanks between digits.
-/

namespace Turnstile.Spelled

open Text

/-! ### Units -/

inductive TimeUnit
  | nanosecond
  | microsecond
  | millisecond
  | second
  | minute
  | hour
  | day
  | week
  | month
  | year
deriving DecidableEq, Repr

namespace TimeUnit

/-- The length of one unit in nanoseconds. -/
def size : TimeUnit → Nat
  | nanosecond => 1
  | microsecond => 1000
  | millisecond => 1000000
  | second => 1000000000
  | minute => 60 * 1000000000
  | hour => 3600 * 1000000000
  | day => 86400 * 1000000000
  | week => 604800 * 1000000000
  | month => 2630016 * 1000000000
  | year => 31557600 * 1000000000

/-- The words for each unit. -/
def words : List (TimeUnit × List String) :=
  [ (nanosecond, ["nanos", "nsec", "ns"]),
    (microsecond, ["usec", "us", "µs"]),
    (millisecond, ["millis", "msec", "ms"]),
    (second, ["seconds", "second", "secs", "sec", "s"]),
    (minute, ["minutes", "minute", "min", "mins", "m"]),
    (hour, ["hours", "hour", "hr", "hrs", "h"]),
    (day, ["days", "day", "d"]),
    (week, ["weeks", "week", "wk", "wks", "w"]),
    (month, ["months", "month", "M"]),
    (year, ["years", "year", "yr", "yrs", "y"]) ]

def ofWord? (word : String) : Option TimeUnit :=
  (words.find? fun entry => entry.2.contains word).map (·.1)

/-- Whether amounts are counted in nanoseconds rather than in whole seconds. -/
def isSubsecond : TimeUnit → Bool
  | nanosecond | microsecond | millisecond => true
  | _ => false

/-- Whether a fraction of the unit is resolved to nanoseconds; of an hour or more it is resolved to
whole seconds. -/
def hasFineFraction : TimeUnit → Bool
  | microsecond | millisecond | second | minute => true
  | _ => false

end TimeUnit

/-! ### Writing -/

/-- `count` and the unit's short word, or nothing if there is none of it. -/
def part (count : Nat) (word : String) : List String :=
  if count = 0 then [] else [toString count ++ word]

/-- As `part`, with an `s` after a count above one. -/
def pluralPart (count : Nat) (word : String) : List String :=
  part count (if 1 < count then word ++ "s" else word)

/-- The parts of a duration that are not zero, from years down. -/
def render (d : Duration) : String :=
  let seconds := d.seconds
  let nanos := d.subsecNanos
  let ofYear := seconds % 31557600
  let ofMonth := ofYear % 2630016
  let ofDay := ofMonth % 86400
  if d.isZero then "0s"
  else
    join " "
      (pluralPart (seconds / 31557600) "year" ++ pluralPart (ofYear / 2630016) "month" ++
        pluralPart (ofMonth / 86400) "day" ++ part (ofDay / 3600) "h" ++
        part (ofDay % 3600 / 60) "m" ++ part (ofDay % 60) "s" ++ part (nanos / 1000000) "ms" ++
        part (nanos / 1000 % 1000) "us" ++ part (nanos % 1000) "ns")

/-! ### Reading -/

/-- One amount: whole units, and the digits after a point. -/
structure Amount where
  whole : Nat
  fraction : Option (List Char)
  unit : TimeUnit

/-- A number that fits in 64 bits. -/
def word? (n : Nat) : Option Nat := if n < Nat.pow 2 64 then some n else none

/-- Adds seconds and nanoseconds to a duration; neither count may leave 64 bits on the way. -/
def add? (total : Duration) (seconds nanos : Nat) : Option Duration := do
  let nanos ← word? (total.subsecNanos + nanos)
  let seconds ← word? (seconds + nanos / 1000000000)
  let seconds ← word? (total.seconds + seconds)
  pure ⟨seconds * 1000000000 + nanos % 1000000000⟩

def Amount.wholePart? (a : Amount) : Option (Nat × Nat) := do
  if a.unit.isSubsecond then pure (0, ← word? (a.whole * a.unit.size))
  else pure (← word? (a.whole * (a.unit.size / 1000000000)), 0)

/-- The fraction of an amount as seconds and nanoseconds; it must come out even. -/
def Amount.fractionPart? (a : Amount) : Option (Nat × Nat) := do
  match a.fraction with
  | none => pure (0, 0)
  | some digits =>
    guard (a.unit ≠ .nanosecond)
    let numerator ← word? (natOfDigits digits)
    let denominator ← word? (Nat.pow 10 digits.length)
    let scale := if a.unit.hasFineFraction then a.unit.size else a.unit.size / 1000000000
    let scaled ← word? (numerator * scale)
    guard (scaled % denominator = 0)
    if a.unit.hasFineFraction then pure (0, scaled / denominator)
    else pure (scaled / denominator, 0)

/-- The duration with one more amount. -/
def Amount.addTo? (a : Amount) (total : Duration) : Option Duration := do
  let (seconds, nanos) ← a.wholePart?
  let total ← add? total seconds nanos
  match a.fraction with
  | none => pure total
  | some _ =>
    let (seconds, nanos) ← a.fractionPart?
    add? total seconds nanos

def isUnitChar (c : Char) : Bool :=
  ('a' ≤ c && c ≤ 'z') || ('A' ≤ c && c ≤ 'Z') || c == 'µ'

/-- Digits, with blanks among them, and the rest. -/
def looseDigits : List Char → List Char × List Char
  | [] => ([], [])
  | c :: r =>
    if isDigit c then
      let (digits, rest) := looseDigits r
      (c :: digits, rest)
    else if isBlank c then looseDigits r
    else ([], c :: r)

/-- The digits after a point, if there is one. -/
def fraction? : List Char → Option (Option (List Char) × List Char)
  | '.' :: r =>
    let (digits, rest) := looseDigits r
    if digits.isEmpty then none else some (some digits, rest)
  | rest => some (none, rest)

/-- One amount at the front of the text, and the rest. -/
def amount? (cs : List Char) : Option (Amount × List Char) := do
  let cs := trimStart cs
  guard ((cs.head?.map isDigit).getD false)
  let (digits, rest) := looseDigits cs
  let whole ← word? (natOfDigits digits)
  let (fraction, rest) ← fraction? rest
  let (word, rest) := rest.span isUnitChar
  let unit ← TimeUnit.ofWord? (String.ofList word)
  guard ((rest.head?.map fun c => isDigit c || isBlank c).getD true)
  pure ({ whole, fraction, unit }, rest)

/-- Adds up the amounts; the fuel bounds their number. -/
def readGo (total : Duration) (cs : List Char) : Nat → Option Duration
  | 0 => none
  | fuel + 1 => do
    let (a, rest) ← amount? cs
    let total ← a.addTo? total
    if (trimStart rest).isEmpty then pure total else readGo total rest fuel

def read? (text : String) : Option Duration :=
  if text = "0" then some Duration.zero else readGo Duration.zero text.toList (text.length + 1)

end Turnstile.Spelled
