import Turnstile.Decimal.Reading
import Turnstile.Server.Command

/-!
# Replies of a store server

A reply is read as the answer to the call that was sent. A reply of an unexpected kind, and an error
anywhere in it, is no answer.
-/

namespace Turnstile.Server

/-- What a server replies to a command. -/
inductive Reply
  | nil
  | int (n : Int)
  | bulk (text : String)
  | status (text : String)
  | array (items : List Reply)
  | error (text : String)
deriving Inhabited

namespace Reply

/-- A whole number, also as text. -/
def int? : Reply → Option Int
  | int n => some n
  | bulk s => Text.readSigned? 64 s
  | status s => Text.readSigned? 64 s
  | _ => none

/-- A number of things; a negative whole number counts from the top of 64 bits. -/
def count? : Reply → Option Nat
  | int n => some (if 0 ≤ n then n else n + Nat.pow 2 64).toNat
  | bulk s => Text.readUnsigned? 64 s
  | status s => Text.readUnsigned? 64 s
  | _ => none

def text? : Reply → Option String
  | bulk s => some s
  | status s => some s
  | _ => none

/-- A text that may be missing. -/
def optionalText? : Reply → Option (Option String)
  | nil => some none
  | r => r.text?.map some

/-- Doubles hold all whole numbers up to this size. -/
def exactLimit : Nat := Nat.pow 2 53

/-- The whole part of a score. -/
def scoreOfText? (text : String) : Option Int :=
  match Text.readSigned? 64 text with
  | some n =>
    if n.natAbs ≤ exactLimit then some n else (Double.read? text).map Double.toSignedWord
  | none => (Double.read? text).map Double.toSignedWord

def score? : Reply → Option Int
  | int n => some (Double.ofInt n).toSignedWord
  | r => r.text?.bind scoreOfText?

/-- The member with a score; a score that is no time stands for the epoch. -/
def memberAt (member : String) (score : Int) : SetMember :=
  { member, addedAt := (Instant.ofMillis? score).getD Instant.epoch }

/-- Members and their scores by turns. -/
def members? : List Reply → Option (List SetMember)
  | [] => some []
  | member :: score :: rest => do
    let m := memberAt (← member.text?) (← score.score?)
    let ms ← members? rest
    some (m :: ms)
  | [_] => none

/-- Whether a reply is an error or holds one. -/
def isError : Reply → Bool
  | error _ => true
  | array items => items.any fun
    | error _ => true
    | _ => false
  | _ => false

/-- The reply to the first command of a transaction whose other commands' replies do not matter. -/
def first? : Reply → Option Reply
  | array (r :: rest) => if rest.length ≤ 1 then some r else none
  | _ => none

/-- The answer to a call that a reply gives. -/
def answer? (r : Reply) : (c : StoreCall) → Option c.Answer
  | .setAdd .. => do
    let n ← (← r.first?).int?
    some (0 < n : Bool)
  | .setRemove .. => r.count?
  | .setCount _ => r.count?
  | .setMembers _ =>
    match r with
    | nil => some []
    | array items => members? items
    | _ => none
  | .setIfAbsent .. => r.optionalText?.map Option.isSome
  | .get _ => r.optionalText?
  | .ttl _ => r.int?.map fun n => if 0 ≤ n then some (Duration.ofMillis n.toNat) else none
  | .delete _ => r.int?.map fun n => decide (0 < n)
  | .deleteIfEq .. => r.int?.map fun n => decide (0 < n)
  | .expireIfEq .. => r.int?.map fun n => decide (0 < n)

end Reply

/-- The answer to a call for which nothing is sent. -/
def silentAnswer : (c : StoreCall) → c.Answer
  | .setAdd .. => false
  | .setRemove .. => 0
  | .setCount _ => 0
  | .setMembers _ => []
  | .setIfAbsent .. => false
  | .get _ => none
  | .ttl _ => none
  | .delete _ => false
  | .deleteIfEq .. => false
  | .expireIfEq .. => false

/-- What a reply makes of a call: its answer, or a fault. -/
def settle (c : StoreCall) : Option Reply → Except Fault c.Answer
  | none => .error (Fault.ofServer .disconnected "the server closed the connection")
  | some r =>
    if r.isError then .error (Fault.ofServer .refused "the server replied with an error")
    else
      match r.answer? c with
      | some a => .ok a
      | none => .error (Fault.ofServer .refused "the server's reply is of another kind")

end Turnstile.Server
