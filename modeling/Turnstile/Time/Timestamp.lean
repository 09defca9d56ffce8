import Turnstile.Text.Blank
import Turnstile.Text.Scan
import Turnstile.Time.Calendar
import Turnstile.Time.Instant

/-!
# Timestamps

The text of an instant in the style of RFC 3339. `render` writes UTC with the fewest of 0, 3, 6 or 9
fractional digits that are exact. `read?` is more lenient: fields may lack leading zeros, blanks may
stand around them, the date and the time may be separated by a blank, and any offset is accepted.
-/

namespace Turnstile.Timestamp

open Text

/-! ### Writing -/

/-- Four digits for the years 0 to 9999, otherwise a sign and at least four digits. -/
def yearText (y : Int) : String :=
  if 0 ≤ y ∧ y ≤ 9999 then padZeros 4 y.toNat
  else (if y < 0 then "-" else "+") ++ padZeros 4 y.natAbs

/-- The fraction of a second in 0, 3, 6 or 9 digits. -/
def fractionText (nano : Nat) : String :=
  if nano = 0 then ""
  else if nano % 1000000 = 0 then "." ++ padZeros 3 (nano / 1000000)
  else if nano % 1000 = 0 then "." ++ padZeros 6 (nano / 1000)
  else "." ++ padZeros 9 nano

/-- The instant in UTC, followed by the given mark for the offset. -/
def renderWith (offset : String) (t : Instant) : String :=
  let day := t.second / 86400
  let second := (t.second % 86400).toNat
  let date := Calendar.dateOfDays day
  let extra := if t.isLeap then 1 else 0
  let nano := if t.isLeap then t.nano - 1000000000 else t.nano
  yearText date.year ++ "-" ++ padZeros 2 date.month ++ "-" ++ padZeros 2 date.day ++ "T" ++
    padZeros 2 (second / 3600) ++ ":" ++ padZeros 2 (second % 3600 / 60) ++ ":" ++
    padZeros 2 (second % 60 + extra) ++ fractionText nano ++ offset

def render (t : Instant) : String := renderWith "Z" t

def renderNumericOffset (t : Instant) : String := renderWith "+00:00" t

/-! ### Reading -/

/-- A number of one to `width` digits after optional blanks. -/
def number? (width : Nat) (cs : List Char) : Option (Nat × List Char) :=
  let cs := trimStart cs
  let digits := (cs.take width).takeWhile isDigit
  if digits.isEmpty then none else some (natOfDigits digits, cs.drop digits.length)

/-- A year: at most four digits, or any number of digits after a sign. -/
def year? (cs : List Char) : Option (Int × List Char) :=
  match trimStart cs with
  | '-' :: r =>
    let (digits, rest) := spanDigits r
    if digits.isEmpty then none else some (-(natOfDigits digits : Int), rest)
  | '+' :: r =>
    let (digits, rest) := spanDigits r
    if digits.isEmpty then none else some ((natOfDigits digits : Int), rest)
  | cs => (number? 4 cs).map fun (n, rest) => ((n : Int), rest)

/-- A given character after optional blanks. -/
def mark? (c : Char) (cs : List Char) : Option (List Char) :=
  match trimStart cs with
  | d :: r => if c = d then some r else none
  | [] => none

/-- An optional fraction of a second in nanoseconds; digits after the ninth are dropped. -/
def fraction? : List Char → Option (Nat × List Char)
  | '.' :: r =>
    let (digits, rest) := spanDigits r
    if digits.isEmpty then none
    else
      let nine := digits.take 9
      some (natOfDigits nine * Nat.pow 10 (9 - nine.length), rest)
  | cs => some (0, cs)

/-- Hours and minutes of an offset, in seconds. -/
def offsetSize? : List Char → Option (Int × List Char)
  | a :: b :: r =>
    if isDigit a && isDigit b then
      match r.dropWhile (fun c => c == ':' || isBlank c) with
      | c :: d :: rest =>
        if isDigit c && isDigit d && digitValue c ≤ 5 then
          let hours := 10 * digitValue a + digitValue b
          let minutes := 10 * digitValue c + digitValue d
          some (((hours * 3600 + minutes * 60 : Nat) : Int), rest)
        else none
      | _ => none
    else none
  | _ => none

/-- An offset from UTC in seconds. -/
def offset? (cs : List Char) : Option (Int × List Char) :=
  match cs with
  | 'Z' :: r => some (0, r)
  | 'z' :: r => some (0, r)
  | '+' :: r => offsetSize? r
  | '-' :: r => (offsetSize? r).map fun (n, rest) => (-n, rest)
  | '−' :: r => (offsetSize? r).map fun (n, rest) => (-n, rest)
  | u :: t :: c :: r =>
    if u.toUpper = 'U' ∧ t.toUpper = 'T' ∧ c.toUpper = 'C' then some (0, r) else none
  | _ => none

def date? (cs : List Char) : Option (Calendar.Date × List Char) := do
  let (year, cs) ← year? cs
  let cs ← mark? '-' cs
  let (month, cs) ← number? 2 cs
  let cs ← mark? '-' cs
  let (day, cs) ← number? 2 cs
  some ({ year, month, day }, cs)

/-- The character between a date and a time of day. -/
def separator? : List Char → Option (List Char)
  | 'T' :: r => some r
  | 't' :: r => some r
  | ' ' :: r => some r
  | _ => none

/-- A time of day as it is written; the sixtieth second is a leap second. -/
structure TimeOfDay where
  hour : Nat
  minute : Nat
  second : Nat
  nano : Nat

def timeOfDay? (cs : List Char) : Option (TimeOfDay × List Char) := do
  let (hour, cs) ← number? 2 cs
  let cs ← mark? ':' cs
  let (minute, cs) ← number? 2 cs
  let cs ← mark? ':' cs
  let (second, cs) ← number? 2 cs
  let (nano, cs) ← fraction? cs
  some ({ hour, minute, second, nano }, cs)

/-- The instant with a date and a time of day at an offset from UTC in seconds, if there is one. -/
def instantAt? (date : Calendar.Date) (time : TimeOfDay) (offset : Int) : Option Instant :=
  let leap := time.second = 60
  let ofDay : Nat := time.hour * 3600 + time.minute * 60 + if leap then 59 else time.second
  let total := Calendar.daysFromDate date * 86400 + (ofDay : Int) - offset
  if (-262143 ≤ date.year ∧ date.year ≤ 262142 ∧ date.Valid) ∧
      (time.hour ≤ 23 ∧ time.minute ≤ 59 ∧ time.second ≤ 60) ∧
      (-86400 < offset ∧ offset < 86400) ∧
      (Instant.firstSecond ≤ total ∧ total ≤ Instant.lastSecond) then
    some ⟨total, if leap then time.nano + 1000000000 else time.nano⟩
  else none

/-- The instant that a timestamp names. -/
def read? (text : String) : Option Instant := do
  let (date, cs) ← date? text.toList
  let cs ← separator? cs
  let (time, cs) ← timeOfDay? cs
  let (offset, cs) ← offset? (trimStart cs)
  guard (trimStart cs).isEmpty
  instantAt? date time offset

end Turnstile.Timestamp
