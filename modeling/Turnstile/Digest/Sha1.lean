import Turnstile.Digest.Block

/-!
# SHA-1

The 160-bit digest by which a server names the scripts that it holds.
-/

namespace Turnstile.Digest.Sha1

/-- The five words that the rounds work on. -/
structure State where
  a : UInt32
  b : UInt32
  c : UInt32
  d : UInt32
  e : UInt32

def State.start : State := ⟨0x67452301, 0xefcdab89, 0x98badcfe, 0x10325476, 0xc3d2e1f0⟩

def State.words (s : State) : List UInt32 := [s.a, s.b, s.c, s.d, s.e]

def State.add (s t : State) : State := ⟨s.a + t.a, s.b + t.b, s.c + t.c, s.d + t.d, s.e + t.e⟩

/-- Extends the schedule, held last word first, by `count` words. -/
def extend (latest : List UInt32) : Nat → List UInt32
  | 0 => latest
  | count + 1 =>
    let back (i : Nat) : UInt32 := latest.getD (i - 1) 0
    extend (rotateLeft (back 3 ^^^ back 8 ^^^ back 14 ^^^ back 16) 1 :: latest) count

def schedule (block : List UInt32) : List UInt32 := (extend block.reverse 64).reverse

/-- One round with its number and its word. -/
def round (s : State) (input : Nat × UInt32) : State :=
  let (mix, constant) :=
    if input.1 < 20 then ((s.b &&& s.c) ||| (~~~s.b &&& s.d), (0x5a827999 : UInt32))
    else if input.1 < 40 then (s.b ^^^ s.c ^^^ s.d, 0x6ed9eba1)
    else if input.1 < 60 then ((s.b &&& s.c) ||| (s.b &&& s.d) ||| (s.c &&& s.d), 0x8f1bbcdc)
    else (s.b ^^^ s.c ^^^ s.d, 0xca62c1d6)
  ⟨rotateLeft s.a 5 + mix + s.e + constant + input.2, s.a, rotateLeft s.b 30, s.c, s.d⟩

/-- The state after a block. -/
def absorb (s : State) (block : List UInt32) : State :=
  s.add (((List.range 80).zip (schedule block)).foldl round s)

def hexDigest (text : String) : String :=
  hexText ((blocks (utf8 text)).foldl absorb State.start).words

end Turnstile.Digest.Sha1
