import Turnstile.Keyed
import Turnstile.Store.Call

/-!
# The store of one process

Slots under keys, each with an optional deadline. A slot whose deadline has come counts as absent
and is dropped when it is next touched, so it may linger in the table. This is `InMemoryStore`
(specification, section 2).
-/

namespace Turnstile

/-- What a slot holds. -/
inductive StoredValue
  | text (value : String)
  /-- Members with the time at which each was added, one entry a member. -/
  | set (members : List (String × Instant))
deriving DecidableEq, Repr

/-- A stored value with its deadline. -/
structure Slot where
  value : StoredValue
  deadline : Option Instant
deriving DecidableEq, Repr

/-- Whether the deadline has come. -/
def Slot.isExpired (slot : Slot) (now : Instant) : Bool :=
  match slot.deadline with
  | none => false
  | some at' => at' ≤ now

/-- The store of one process. -/
abbrev MemoryStore := Keyed Slot

namespace MemoryStore

/-! ### Members of a set -/

/-- The order in which members are listed: by time, then by text. -/
def listedBefore (a b : SetMember) : Bool :=
  if a.addedAt = b.addedAt then a.member ≤ b.member else a.addedAt ≤ b.addedAt

/-- The members in the order in which they are listed. -/
def listed (members : List (String × Instant)) : List SetMember :=
  (members.map fun (member, addedAt) => { member, addedAt : SetMember }).mergeSort listedBefore

/-- The members without one, and whether it was there. -/
def removeMember (members : List (String × Instant)) (member : String) :
    List (String × Instant) × Bool :=
  ((Keyed.discard member members), (Keyed.lookup member members).isSome)

/-- The members without the given ones, and how many of those were there. -/
def removeMembers (members : List (String × Instant)) :
    List String → List (String × Instant) × Nat
  | [] => (members, 0)
  | m :: rest =>
    let (members, removed) := removeMember members m
    let (members, more) := removeMembers members rest
    (members, (if removed then 1 else 0) + more)

/-! ### Slots -/

/-- The slot under a key, if it has not expired. -/
def live? (s : MemoryStore) (now : Instant) (key : String) : Option Slot :=
  (s.get? key).filter fun slot => !slot.isExpired now

/-- The store without the slot under a key, if that has expired. -/
def dropExpired (s : MemoryStore) (now : Instant) (key : String) : MemoryStore :=
  match s.get? key with
  | some slot => if slot.isExpired now then s.erase key else s
  | none => s

/-- Reads the live slot under a key; an expired one is dropped. -/
def read (s : MemoryStore) (now : Instant) (key : String) (f : Slot → Except Fault α) :
    Except Fault (Option α) × MemoryStore :=
  match s.live? now key with
  | some slot => ((f slot).map some, s)
  | none => (.ok none, s.dropExpired now key)

/-! ### Calls -/

def setAdd (s : MemoryStore) (now : Instant) (key member : String) (ttl : Duration) :
    Except Fault Bool × MemoryStore :=
  let value := match s.live? now key with
    | some slot => slot.value
    | none => .set []
  match value with
  | .text _ => (.error (Fault.wrongKindOfValue key), s)
  | .set members =>
    let added := (Keyed.lookup member members).isNone
    let members := if added then members ++ [(member, now)] else members
    (.ok added, s.insert key { value := .set members, deadline := now.deadline? ttl })

def setRemove (s : MemoryStore) (now : Instant) (key : String) (members : List String) :
    Except Fault Nat × MemoryStore :=
  match s.live? now key with
  | none => (.ok 0, s.dropExpired now key)
  | some slot =>
    match slot.value with
    | .text _ => (.error (Fault.wrongKindOfValue key), s)
    | .set old =>
      let (rest, removed) := removeMembers old members
      let s := if rest.isEmpty then s.erase key else s.insert key { slot with value := .set rest }
      (.ok removed, s)

def setCount (s : MemoryStore) (now : Instant) (key : String) : Except Fault Nat × MemoryStore :=
  let (r, s) := s.read now key fun slot =>
    match slot.value with
    | .set members => .ok members.length
    | .text _ => .error (Fault.wrongKindOfValue key)
  (r.map (·.getD 0), s)

def setMembers (s : MemoryStore) (now : Instant) (key : String) :
    Except Fault (List SetMember) × MemoryStore :=
  let (r, s) := s.read now key fun slot =>
    match slot.value with
    | .set members => .ok (listed members)
    | .text _ => .error (Fault.wrongKindOfValue key)
  (r.map (·.getD []), s)

def setIfAbsent (s : MemoryStore) (now : Instant) (key value : String) (ttl : Duration) :
    Except Fault Bool × MemoryStore :=
  match s.live? now key with
  | some _ => (.ok false, s)
  | none => (.ok true, s.insert key { value := .text value, deadline := now.deadline? ttl })

def get (s : MemoryStore) (now : Instant) (key : String) :
    Except Fault (Option String) × MemoryStore :=
  s.read now key fun slot =>
    match slot.value with
    | .text value => .ok value
    | .set _ => .error (Fault.wrongKindOfValue key)

def ttl (s : MemoryStore) (now : Instant) (key : String) :
    Except Fault (Option Duration) × MemoryStore :=
  let (r, s) := s.read now key fun slot => .ok (slot.deadline.map now.timeLeft)
  (r.map (·.join), s)

def delete (s : MemoryStore) (now : Instant) (key : String) : Except Fault Bool × MemoryStore :=
  (.ok (s.live? now key).isSome, s.erase key)

/-- Whether the live slot under a key holds the expected text. -/
def holds (s : MemoryStore) (now : Instant) (key expected : String) : Bool :=
  match s.live? now key with
  | some slot => slot.value = .text expected
  | none => false

def deleteIfEq (s : MemoryStore) (now : Instant) (key expected : String) :
    Except Fault Bool × MemoryStore :=
  if s.holds now key expected then (.ok true, s.erase key) else (.ok false, s)

def expireIfEq (s : MemoryStore) (now : Instant) (key expected : String) (ttl : Duration) :
    Except Fault Bool × MemoryStore :=
  if s.holds now key expected then
    (.ok true, s.insert key { value := .text expected, deadline := now.deadline? ttl })
  else (.ok false, s)

/-- The answer to a call at a time, and the store after it. -/
def call (s : MemoryStore) (now : Instant) : (c : StoreCall) → Except Fault c.Answer × MemoryStore
  | .setAdd key member d => s.setAdd now key member d
  | .setRemove key members => s.setRemove now key members
  | .setCount key => s.setCount now key
  | .setMembers key => s.setMembers now key
  | .setIfAbsent key value d => s.setIfAbsent now key value d
  | .get key => s.get now key
  | .ttl key => s.ttl now key
  | .delete key => s.delete now key
  | .deleteIfEq key expected => s.deleteIfEq now key expected
  | .expireIfEq key expected d => s.expireIfEq now key expected d

end MemoryStore

end Turnstile
