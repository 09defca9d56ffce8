import Turnstile.Engine.Effect
import Turnstile.Job.Basic

/-!
# Calls at the seams of the engine

The calls that a simulated world sees the engine make, and outcomes planned for them. Outcomes of
one method wait in line: the first lets a number of calls pass, then answers a number of calls, and
then makes room for the next.
-/

namespace Turnstile

/-! ### Calls -/

namespace StoreCall

def method : StoreCall → String
  | setAdd .. => "set_add"
  | setRemove .. => "set_remove"
  | setCount _ => "set_count"
  | setMembers _ => "set_members"
  | setIfAbsent .. => "set_if_absent"
  | get _ => "get"
  | ttl _ => "ttl"
  | delete _ => "delete"
  | deleteIfEq .. => "delete_if_eq"
  | expireIfEq .. => "expire_if_eq"

/-- The arguments after the key. -/
def arguments : StoreCall → List Json
  | setAdd _ member d => [.str member, Json.ofDuration d]
  | setRemove _ members => [.arr (members.map .str)]
  | setCount _ => []
  | setMembers _ => []
  | setIfAbsent _ value d => [.str value, Json.ofDuration d]
  | get _ => []
  | ttl _ => []
  | delete _ => []
  | deleteIfEq _ expected => [.str expected]
  | expireIfEq _ expected d => [.str expected, Json.ofDuration d]

/-- The answer to a call as JSON. -/
def answerToJson : (c : StoreCall) → c.Answer → Json
  | setAdd .., b => .bool b
  | setRemove .., n => Json.ofNat n
  | setCount _, n => Json.ofNat n
  | setMembers _, members => Json.ofList SetMember.toJson members
  | setIfAbsent .., b => .bool b
  | get _, value => Json.ofOption .str value
  | ttl _, left => Json.ofOption Json.ofDuration left
  | delete _, b => .bool b
  | deleteIfEq .., b => .bool b
  | expireIfEq .., b => .bool b

/-- The seconds and nanoseconds of a duration. -/
def durationOfJson? : Json → Option Duration
  | .arr [.int seconds, .int nanos] => some ⟨seconds.toNat * 1000000000 + nanos.toNat⟩
  | _ => none

/-- The answer that a planned value stands for; a value of another kind stands for the empty one. -/
def answerOfJson (v : Json) : (c : StoreCall) → c.Answer
  | setAdd .. => v.bool?.getD false
  | setRemove .. => v.nat?.getD 0
  | setCount _ => v.nat?.getD 0
  | setMembers _ => ((v.list?.getD []).mapM SetMember.ofJson?).getD []
  | setIfAbsent .. => v.bool?.getD false
  | get _ => v.text?
  | ttl _ => durationOfJson? v
  | delete _ => v.bool?.getD false
  | deleteIfEq .. => v.bool?.getD false
  | expireIfEq .. => v.bool?.getD false

end StoreCall

/-- A call that the engine makes to its surroundings. -/
inductive SeamCall
  | store (c : StoreCall)
  | submit (job : Job)
  | submitBatch (jobs : List Job)
  | queueSize (kind : String)
  /-- A question to a probe. -/
  | completed (ids : List String)
  /-- A question to a workload. -/
  | remainingWork (kind : String) (args : List Json)

namespace SeamCall

def method : SeamCall → String
  | store c => c.method
  | submit _ => "submit"
  | submitBatch _ => "submit_batch"
  | queueSize _ => "queue_size"
  | completed _ => "completed"
  | remainingWork .. => "remaining_work"

/-- The method and its arguments in a list. -/
def toJson (c : SeamCall) : Json :=
  let args : List Json := match c with
    | store c => .str c.key :: c.arguments
    | submit job => [job.toJson]
    | submitBatch jobs => [Json.ofList Job.toJson jobs]
    | queueSize kind => [.str kind]
    | completed ids => [.arr (ids.map .str)]
    | remainingWork kind args => [.str kind, .arr args]
  .arr (.str c.method :: args)

end SeamCall

/-! ### Planned outcomes -/

/-- What a call is made to give. -/
inductive Planned
  | answer (v : Json)
  | fail (f : Fault)
deriving Inhabited

/-- An outcome for `times` calls after `after` calls have passed. -/
structure Plan where
  after : Nat
  times : Nat
  outcome : Planned
deriving Inhabited

namespace Plan

/-- What the plans of one method give to its next call, and the plans after it. -/
def next : List Plan → Option Planned × List Plan
  | [] => (none, [])
  | p :: rest =>
    if 0 < p.after then (none, { p with after := p.after - 1 } :: rest)
    else if p.times ≤ 1 then (some p.outcome, rest)
    else (some p.outcome, { p with times := p.times - 1 } :: rest)

end Plan

end Turnstile
