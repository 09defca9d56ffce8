import Turnstile.Text.Scan

/-!
# Messages in blocks of 64 bytes

What the digests of this library share: the closing bit and the length after the message, its words,
and the hexadecimal text of a state.
-/

namespace Turnstile.Digest

/-- The bytes of a text in UTF-8. -/
def utf8 (text : String) : List UInt8 := text.toUTF8.toList

/-- The message, a closing bit, zeros up to a whole number of blocks, and the length in bits. -/
def pad (message : List UInt8) : List UInt8 :=
  let zeros := (64 - (message.length + 9) % 64) % 64
  let bits := 8 * message.length
  message ++ [0x80] ++ List.replicate zeros 0 ++
    (List.range 8).reverse.map fun i => UInt8.ofNat (bits / Nat.pow 256 i % 256)

/-- Four bytes a word, the highest byte first. -/
def wordsOf : List UInt8 → List UInt32
  | a :: b :: c :: d :: rest =>
    (a.toUInt32 <<< 24 ||| b.toUInt32 <<< 16 ||| c.toUInt32 <<< 8 ||| d.toUInt32) :: wordsOf rest
  | _ => []

def blocksOf (words : List UInt32) : Nat → List (List UInt32)
  | 0 => []
  | fuel + 1 => if words.isEmpty then [] else words.take 16 :: blocksOf (words.drop 16) fuel

def blocks (message : List UInt8) : List (List UInt32) :=
  let words := wordsOf (pad message)
  blocksOf words (words.length / 16 + 1)

def rotateRight (x : UInt32) (n : UInt32) : UInt32 := x >>> n ||| x <<< (32 - n)

def rotateLeft (x : UInt32) (n : UInt32) : UInt32 := x <<< n ||| x >>> (32 - n)

def hexText (words : List UInt32) : String :=
  String.ofList (words.flatMap fun w => Text.hexDigits 8 w.toNat)

end Turnstile.Digest
