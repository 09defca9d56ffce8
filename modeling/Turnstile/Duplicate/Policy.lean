import Turnstile.Keyed
import Turnstile.Wire.Reading

/-!
# Policies for duplicate jobs

A policy says whether jobs of a kind are checked for duplicates, when a job gives up its claim on
the idempotency key, whether jobs scheduled for later take part, and how long a claim lasts. Scopes
and strategies are those of the specification, section 4.3.
-/

namespace Turnstile

/-- When a job gives up its claim. -/
inductive ReleasePoint
  /-- Jobs make no claims. -/
  | none
  /-- When its execution begins. -/
  | untilExecuting
  /-- When its execution has ended. -/
  | untilExecuted
deriving DecidableEq, Repr, Inhabited

namespace ReleasePoint

def labels : List (String × ReleasePoint) :=
  [("none", none), ("until_executing", untilExecuting), ("until_executed", untilExecuted)]

def label : ReleasePoint → String
  | none => "none"
  | untilExecuting => "until_executing"
  | untilExecuted => "until_executed"

/-- The name of a release point in reports. -/
def name : ReleasePoint → String
  | none => "None"
  | untilExecuting => "UntilExecuting"
  | untilExecuted => "UntilExecuted"

def toJson (p : ReleasePoint) : Json := .str p.label

def ofJson? (v : Json) : Option ReleasePoint := Json.reading.ofChoice? labels v

end ReleasePoint

/-- How duplicates of a kind are dealt with. -/
structure DedupPolicy where
  release : ReleasePoint
  /-- Whether jobs that are not yet due are checked too. -/
  includingScheduled : Bool
  /-- The base lifetime of a claim. -/
  ttl : Duration
deriving DecidableEq, Inhabited

namespace DedupPolicy

/-- The lifetime of a claim where nothing else is said: six hours. -/
def defaultTtl : Duration := Duration.ofSeconds 21600

def default : DedupPolicy :=
  { release := .untilExecuting, includingScheduled := false, ttl := defaultTtl }

/-- No checks. -/
def off : DedupPolicy := { default with release := .none }

def untilExecuting : DedupPolicy := default

def untilExecuted : DedupPolicy := { default with release := .untilExecuted }

def withScheduled (p : DedupPolicy) : DedupPolicy := { p with includingScheduled := true }

def isEnabled (p : DedupPolicy) : Bool := p.release != .none

/-! ### JSON -/

def toJson (p : DedupPolicy) : Json :=
  .obj
    [ ("strategy", p.release.toJson), ("including_scheduled", .bool p.includingScheduled),
      ("ttl", Json.spelled p.ttl) ]

def ofJson? (v : Json) : Option DedupPolicy := do
  let r := Json.reading
  let fs ← r.fields? ["strategy", "including_scheduled", "ttl"] v
  pure
    { release := ← fs.required? "strategy" (r.ofChoice? ReleasePoint.labels)
      includingScheduled := ← fs.defaulted? "including_scheduled" false r.bool?
      ttl := ← fs.defaulted? "ttl" defaultTtl r.duration? }

end DedupPolicy

/-- The policies of all kinds. -/
structure DedupPolicies where
  /-- The policy of kinds without one of their own. -/
  fallback : DedupPolicy
  byKind : Keyed DedupPolicy
deriving Inhabited

namespace DedupPolicies

def ofPolicy (fallback : DedupPolicy) : DedupPolicies := { fallback, byKind := Keyed.empty }

def set (ps : DedupPolicies) (kind : String) (p : DedupPolicy) : DedupPolicies :=
  { ps with byKind := ps.byKind.insert kind p }

def forKind (ps : DedupPolicies) (kind : String) : DedupPolicy := ps.byKind.getD kind ps.fallback

end DedupPolicies

end Turnstile
