import Turnstile.Digest.Sha1
import Turnstile.Store.Call
import Turnstile.Text.Scan

/-!
# Commands to a store server

A call to the shared store is put to a server as one command, or as commands in a transaction. Sets
are sorted sets whose scores are times in milliseconds. Comparing and then changing a key is one
step of the server, so it is sent as a script.

`Command.words` is what is sent for a command. No command asks for an expiry of less than a
millisecond, since the server refuses that.
-/

namespace Turnstile.Server

/-- A script that changes a key only if it holds an expected text. -/
inductive Script
  | deleteIfEq
  | expireIfEq
deriving DecidableEq, Repr

namespace Script

/-- What the server runs if the key holds the expected text. -/
def action : Script → String
  | deleteIfEq => "\"DEL\", KEYS[1]"
  | expireIfEq => "\"PEXPIRE\", KEYS[1], ARGV[2]"

def text (s : Script) : String :=
  "\nif redis.call(\"GET\", KEYS[1]) == ARGV[1] then\n    return redis.call(" ++ s.action ++
    ")\nelse\n    return 0\nend\n"

def digest (s : Script) : String := Digest.Sha1.hexDigest s.text

end Script

/-- A command to the server. Times and expiries are milliseconds. -/
inductive Command
  /-- Adds a member to a sorted set unless it is there. -/
  | zaddNew (key : String) (score : Int) (member : String)
  | pexpire (key : String) (expiry : Nat)
  | zrem (key : String) (members : List String)
  | zcard (key : String)
  /-- All members with their scores, in ascending order. -/
  | zrangeAll (key : String)
  /-- Stores a text unless the key is there. -/
  | setNew (key value : String) (expiry : Nat)
  | get (key : String)
  | pttl (key : String)
  | del (key : String)
  | script (s : Script) (key expected : String) (arguments : List String)
deriving DecidableEq, Repr

namespace Command

/-- The words of a command. -/
def words : Command → List String
  | zaddNew key score member => ["ZADD", key, "NX", toString score, member]
  | pexpire key expiry => ["PEXPIRE", key, toString expiry]
  | zrem key members => "ZREM" :: key :: members
  | zcard key => ["ZCARD", key]
  | zrangeAll key => ["ZRANGE", key, "0", "-1", "WITHSCORES"]
  | setNew key value expiry => ["SET", key, value, "NX", "PX", toString expiry]
  | get key => ["GET", key]
  | pttl key => ["PTTL", key]
  | del key => ["DEL", key]
  | script s key expected arguments => ["EVALSHA", s.digest, "1", key, expected] ++ arguments

end Command

/-- What is sent for one call. -/
inductive Request
  | one (c : Command)
  /-- Commands that the server runs without anything in between. -/
  | transaction (commands : List Command)
deriving DecidableEq, Repr

/-- The expiry that is asked for: whole milliseconds as far as they fit in 64 bits, and at least
one. -/
def expiryMillis (d : Duration) : Nat := max (d.millis % Nat.pow 2 64) 1

def fullKey (keyspace key : String) : String := keyspace ++ key

/-- What is sent for a call at a time; nothing, if the answer is known without asking. -/
def Request.ofCall? (keyspace : String) (now : Instant) : StoreCall → Option Request
  | .setAdd key member d =>
    let key := fullKey keyspace key
    some (.transaction [.zaddNew key now.toMillis member, .pexpire key (expiryMillis d)])
  | .setRemove key members =>
    if members.isEmpty then none else some (.one (.zrem (fullKey keyspace key) members))
  | .setCount key => some (.one (.zcard (fullKey keyspace key)))
  | .setMembers key => some (.one (.zrangeAll (fullKey keyspace key)))
  | .setIfAbsent key value d =>
    some (.one (.setNew (fullKey keyspace key) value (expiryMillis d)))
  | .get key => some (.one (.get (fullKey keyspace key)))
  | .ttl key => some (.one (.pttl (fullKey keyspace key)))
  | .delete key => some (.one (.del (fullKey keyspace key)))
  | .deleteIfEq key expected =>
    some (.one (.script .deleteIfEq (fullKey keyspace key) expected []))
  | .expireIfEq key expected d =>
    some (.one (.script .expireIfEq (fullKey keyspace key) expected [toString (expiryMillis d)]))

end Turnstile.Server
