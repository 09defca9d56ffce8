/-!
# Lowercase letters

The lowercase of a letter in the Latin, Greek, Cyrillic and Armenian blocks; other characters are
kept.
-/

namespace Turnstile.Text

def shiftedCapitals : List (Nat × Nat × Nat) :=
  [ (0x41, 0x5A, 32), (0xC0, 0xD6, 32), (0xD8, 0xDE, 32), (0x388, 0x38A, 37), (0x391, 0x3A1, 32),
    (0x3A3, 0x3AB, 32), (0x400, 0x40F, 80), (0x410, 0x42F, 32), (0x531, 0x556, 48) ]

/-- Inclusive ranges in which a capital is followed by its small letter; the first of each is a
capital. -/
def pairedCapitals : List (Nat × Nat) :=
  [ (0x100, 0x12F), (0x132, 0x137), (0x139, 0x148), (0x14A, 0x177), (0x179, 0x17E), (0x1CD, 0x1DC),
    (0x1DE, 0x1EF), (0x1F8, 0x21F), (0x222, 0x233), (0x370, 0x373), (0x3D8, 0x3EF), (0x460, 0x481),
    (0x48A, 0x4BF), (0x4C1, 0x4CE), (0x4D0, 0x52F), (0x1E00, 0x1E95), (0x1EA0, 0x1EFF) ]

/-- The lowercase of a character. -/
def lowerChar (c : Char) : Char :=
  let n := c.toNat
  match shiftedCapitals.find? fun (a, b, _) => a ≤ n && n ≤ b with
  | some (_, _, distance) => Char.ofNat (n + distance)
  | none =>
    match pairedCapitals.find? fun (a, b) => a ≤ n && n ≤ b with
    | some (a, _) => if (n - a) % 2 = 0 then Char.ofNat (n + 1) else c
    | none => c

def lower (text : String) : String := String.ofList (text.toList.map lowerChar)

end Turnstile.Text
