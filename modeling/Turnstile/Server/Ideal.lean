import Turnstile.Keyed
import Turnstile.Server.Store

/-!
# An ideal store server

What a server does with commands, at times in whole milliseconds: it holds texts and sorted sets
under keys, a key is gone from its deadline on, and the commands of a transaction run one after
another, whether or not one of them fails.
-/

namespace Turnstile.Server

/-- What a key of the server holds. -/
inductive Held
  | text (value : String)
  /-- Members with their scores, one entry a member. -/
  | sorted (members : List (String × Int))
deriving DecidableEq, Repr

structure Item where
  held : Held
  /-- The time from which on the key is gone. -/
  deadline : Option Int
deriving DecidableEq, Repr

/-- The keys of a server. -/
abbrev Keys := Keyed Item

namespace Keys

/-- The item under a key, if it is not gone. -/
def live? (s : Keys) (now : Int) (key : String) : Option Item :=
  (s.get? key).filter fun item =>
    match item.deadline with
    | some at' => now < at'
    | none => true

/-- The refusal of a command for the other kind of value. -/
def wrongKind : Reply :=
  .error "WRONGTYPE Operation against a key holding the wrong kind of value"

/-- The refusal of an expiry that the server cannot hold. -/
def badExpiry : Reply := .error "ERR invalid expire time"

/-- Times that the server can hold. -/
def timeLimit : Int := Nat.pow 2 63

def flag (b : Bool) : Reply := .int (if b then 1 else 0)

/-- The order of members: by score, then by text. -/
def rankedBefore (a b : String × Int) : Bool := if a.2 = b.2 then a.1 ≤ b.1 else a.2 ≤ b.2

/-- Members and scores by turns, in ascending order. -/
def ranked (members : List (String × Int)) : List Reply :=
  (members.mergeSort rankedBefore).flatMap fun (m, score) => [.bulk m, .bulk (toString score)]

/-- The members that are left, and how many were removed. -/
def removeAll (members : List (String × Int)) : List String → List (String × Int) × Nat
  | [] => (members, 0)
  | m :: rest =>
    let found := (Keyed.lookup m members).isSome
    let (left, more) := removeAll (Keyed.discard m members) rest
    (left, (if found then 1 else 0) + more)

/-- Sets the deadline of a key that is there. -/
def expire (s : Keys) (now : Int) (key : String) (expiry : Nat) : Reply × Keys :=
  match s.live? now key with
  | none => (.int 0, s)
  | some item =>
    if timeLimit ≤ now + expiry then (badExpiry, s)
    else (.int 1, s.insert key { item with deadline := some (now + expiry) })

def zaddNew (s : Keys) (now : Int) (key : String) (score : Int) (member : String) : Reply × Keys :=
  match s.live? now key with
  | none => (.int 1, s.insert key { held := .sorted [(member, score)], deadline := none })
  | some { held := .text _, .. } => (wrongKind, s)
  | some { held := .sorted members, deadline } =>
    if (Keyed.lookup member members).isSome then (.int 0, s)
    else (.int 1, s.insert key { held := .sorted (members ++ [(member, score)]), deadline })

def zrem (s : Keys) (now : Int) (key : String) (members : List String) : Reply × Keys :=
  match s.live? now key with
  | none => (.int 0, s)
  | some { held := .text _, .. } => (wrongKind, s)
  | some { held := .sorted old, deadline } =>
    let (left, removed) := removeAll old members
    (.int removed, if left.isEmpty then s.erase key else s.insert key { held := .sorted left, deadline })

def setNew (s : Keys) (now : Int) (key value : String) (expiry : Nat) : Reply × Keys :=
  if timeLimit ≤ now + expiry then (badExpiry, s)
  else
    match s.live? now key with
    | some _ => (.nil, s)
    | none => (.status "OK", s.insert key { held := .text value, deadline := some (now + expiry) })

def get (s : Keys) (now : Int) (key : String) : Reply :=
  match s.live? now key with
  | none => .nil
  | some { held := .text value, .. } => .bulk value
  | some { held := .sorted _, .. } => wrongKind

/-- The time left: -2 without the key, and -1 without a deadline. -/
def pttl (s : Keys) (now : Int) (key : String) : Reply :=
  match s.live? now key with
  | none => .int (-2)
  | some item => .int ((item.deadline.map fun at' => at' - now).getD (-1))

def del (s : Keys) (now : Int) (key : String) : Reply × Keys :=
  (flag (s.live? now key).isSome, s.erase key)

/-- Runs a script's action if the key holds the expected text. -/
def runScript (s : Keys) (now : Int) (script : Script) (key expected : String)
    (arguments : List String) : Reply × Keys :=
  match s.live? now key with
  | some { held := .sorted _, .. } => (wrongKind, s)
  | some { held := .text value, .. } =>
    if value = expected then
      match script, arguments with
      | .deleteIfEq, _ => s.del now key
      | .expireIfEq, [text] =>
        match Text.readUnsigned? 63 text with
        | some expiry => s.expire now key expiry
        | none => (badExpiry, s)
      | .expireIfEq, _ => (badExpiry, s)
    else (.int 0, s)
  | none => (.int 0, s)

/-- Runs a command at a time. -/
def run (s : Keys) (now : Int) : Command → Reply × Keys
  | .zaddNew key score member => s.zaddNew now key score member
  | .pexpire key expiry => s.expire now key expiry
  | .zrem key members => s.zrem now key members
  | .zcard key =>
    match s.live? now key with
    | none => (.int 0, s)
    | some { held := .text _, .. } => (wrongKind, s)
    | some { held := .sorted members, .. } => (.int members.length, s)
  | .zrangeAll key =>
    match s.live? now key with
    | none => (.array [], s)
    | some { held := .text _, .. } => (wrongKind, s)
    | some { held := .sorted members, .. } => (.array (ranked members), s)
  | .setNew key value expiry => s.setNew now key value expiry
  | .get key => (s.get now key, s)
  | .pttl key => (s.pttl now key, s)
  | .del key => s.del now key
  | .script script key expected arguments => s.runScript now script key expected arguments

/-- Runs commands one after another. -/
def runAll (s : Keys) (now : Int) : List Command → List Reply × Keys
  | [] => ([], s)
  | c :: rest =>
    let (r, s) := s.run now c
    let (rs, s) := s.runAll now rest
    (r :: rs, s)

/-- The reply to a request. -/
def reply (s : Keys) (now : Int) : Request → Reply × Keys
  | .one c => s.run now c
  | .transaction commands =>
    let (rs, s) := s.runAll now commands
    (.array rs, s)

/-- The answer to a call under a keyspace, where server and client have one clock. -/
def call (s : Keys) (keyspace : String) (now : Instant) (c : StoreCall) :
    Except Fault c.Answer × Keys :=
  match Request.ofCall? keyspace now c with
  | none => (.ok (silentAnswer c), s)
  | some request =>
    let (r, s) := s.reply now.toMillis request
    (settle c (some r), s)

end Keys

end Turnstile.Server
