import Turnstile.Fault.Basic
import Turnstile.Time.Instant

/-!
# Calls to the shared store

The store holds plain texts and timestamped sets under keys, each key with an optional time to live.
Every call touches one key and is atomic. `StoreCall` is the request and `StoreCall.Answer` the type
of its answer; a call may also fail. The calls are those of the specification, section 6.
-/

namespace Turnstile

/-- A member of a timestamped set. -/
structure SetMember where
  member : String
  /-- When the member was first added. -/
  addedAt : Instant
deriving DecidableEq, Repr, Inhabited

namespace SetMember

def toJson (m : SetMember) : Json :=
  .obj [("member", .str m.member), ("added_at", Json.stamped m.addedAt)]

def ofJson? (v : Json) : Option SetMember := do
  let r := Json.reading
  let fs ← r.fields? ["member", "added_at"] v
  pure { member := ← fs.required? "member" r.text?, addedAt := ← fs.required? "added_at" r.instant? }

end SetMember

/-- A request to the store. -/
inductive StoreCall
  /-- Adds a member, which keeps its time if it is there, and resets the set's time to live. -/
  | setAdd (key member : String) (ttl : Duration)
  /-- Removes members; absent ones are ignored. -/
  | setRemove (key : String) (members : List String)
  | setCount (key : String)
  | setMembers (key : String)
  /-- Stores a text only if the key is absent. -/
  | setIfAbsent (key value : String) (ttl : Duration)
  | get (key : String)
  /-- The time left, or none if the key is absent or never expires. -/
  | ttl (key : String)
  | delete (key : String)
  /-- Deletes the key only if it holds the expected text. -/
  | deleteIfEq (key expected : String)
  /-- Resets the time to live only if the key holds the expected text. -/
  | expireIfEq (key expected : String) (ttl : Duration)
deriving DecidableEq, Repr

namespace StoreCall

/-- What a call answers when it does not fail. -/
abbrev Answer : StoreCall → Type
  | setAdd .. => Bool
  | setRemove .. => Nat
  | setCount .. => Nat
  | setMembers .. => List SetMember
  | setIfAbsent .. => Bool
  | get .. => Option String
  | ttl .. => Option Duration
  | delete .. => Bool
  | deleteIfEq .. => Bool
  | expireIfEq .. => Bool

/-- The one key that a call touches. -/
def key : StoreCall → String
  | setAdd key .. => key
  | setRemove key .. => key
  | setCount key => key
  | setMembers key => key
  | setIfAbsent key .. => key
  | get key => key
  | ttl key => key
  | delete key => key
  | deleteIfEq key _ => key
  | expireIfEq key .. => key

end StoreCall

end Turnstile
