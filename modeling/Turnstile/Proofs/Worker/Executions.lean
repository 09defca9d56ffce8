import Turnstile.Proofs.Engine.Thread
import Turnstile.Worker.Dispatcher

/-!
# Dispatches one after the other

Each job of a kind takes a unit off a backlog, and submits the next job if it has succeeded and units
are left. How many jobs are run in all depends on the units that fail. A drain runs the first of them
and tells how they ended.
-/

namespace Turnstile

open Machine Thread

/-! ### Chains of jobs -/

namespace Chains

variable {fails : Nat → Option WorkError} {left waiting : Nat}

/-- How many jobs wait behind one that has left so many units. -/
def next (end' : Option WorkError) (left waiting : Nat) : Nat :=
  if end'.isNone ∧ left ≠ 0 then waiting + 1 else waiting

/-- How the jobs end. Units are numbered from the last one, and `fails` tells which of them fail; a job
without a unit succeeds. -/
def ends (fails : Nat → Option WorkError) : (backlog waiting : Nat) → List (Option WorkError)
  | 0, waiting => List.replicate waiting none
  | _ + 1, 0 => []
  | left + 1, waiting + 1 =>
    fails (left + 1) :: ends fails left (next (fails (left + 1)) left waiting)

def rest (fails : Nat → Option WorkError) : (backlog waiting : Nat) → Nat
  | 0, _ => 0
  | left + 1, 0 => left + 1
  | left + 1, waiting + 1 => rest fails left (next (fails (left + 1)) left waiting)

theorem next_le (end' : Option WorkError) (left waiting : Nat) :
    next end' left waiting ≤ waiting + 1 := by
  unfold next
  split <;> omega

theorem next_zero (end' : Option WorkError) (waiting : Nat) : next end' 0 waiting = waiting := by
  simp [next]

theorem next_none (h : left ≠ 0) : next none left waiting = waiting + 1 := by
  simp [next, h]

theorem next_some (e : WorkError) (left waiting : Nat) :
    next (some e) left waiting = waiting := by
  simp [next]

/-- How a job ends that finds so many units. -/
def taken (fails : Nat → Option WorkError) : Nat → Option WorkError
  | 0 => none
  | left + 1 => fails (left + 1)

theorem ends_zero (fails : Nat → Option WorkError) (left : Nat) : ends fails left 0 = [] := by
  cases left <;> rfl

theorem ends_succ (fails : Nat → Option WorkError) (left waiting : Nat) :
    ends fails left (waiting + 1) =
      taken fails left :: ends fails (left - 1) (next (taken fails left) (left - 1) waiting) := by
  cases left with
  | zero =>
    rw [Nat.zero_sub, next_zero]
    rfl
  | succ left => rfl

theorem rest_zero (fails : Nat → Option WorkError) (left : Nat) : rest fails left 0 = left := by
  cases left <;> rfl

theorem rest_succ (fails : Nat → Option WorkError) (left waiting : Nat) :
    rest fails left (waiting + 1) =
      rest fails (left - 1) (next (taken fails left) (left - 1) waiting) := by
  cases left <;> rfl

theorem length_ends_le (h : left ≠ 0) : (ends fails left waiting).length ≤ left + waiting - 1 := by
  induction left generalizing waiting with
  | zero => exact absurd rfl h
  | succ left ih =>
    cases waiting with
    | zero => exact Nat.zero_le _
    | succ waiting =>
      rw [ends, List.length_cons]
      cases left with
      | zero =>
        rw [next_zero, ends, List.length_replicate]
        omega
      | succ left =>
        generalize hw : next (fails (left + 1 + 1)) (left + 1) waiting = waiting'
        have hnext := next_le (fails (left + 1 + 1)) (left + 1) waiting
        have hrest : (ends fails (left + 1) waiting').length ≤ left + 1 + waiting' - 1 :=
          ih (Nat.succ_ne_zero left)
        omega

theorem length_ends_of_none (hn : ∀ unit, fails unit = none) (h : left ≠ 0) (hw : waiting ≠ 0) :
    (ends fails left waiting).length = left + waiting - 1 := by
  induction left generalizing waiting with
  | zero => exact absurd rfl h
  | succ left ih =>
    obtain ⟨waiting, rfl⟩ := Nat.exists_eq_succ_of_ne_zero hw
    rw [ends, List.length_cons, hn]
    by_cases hl : left = 0
    · subst hl
      rw [next_zero, ends, List.length_replicate]
      omega
    · rw [next_none hl, ih hl (Nat.succ_ne_zero _)]
      omega

example : (ends (fun _ => none) 7 3).length = 9 := by decide

/-- Units are left only if every chain of jobs ended with a failure. -/
theorem rest_eq_zero_or (fails : Nat → Option WorkError) (backlog waiting : Nat) :
    rest fails backlog waiting = 0 ∨
      ((ends fails backlog waiting).filter Option.isSome).length = waiting := by
  induction backlog generalizing waiting with
  | zero => exact .inl rfl
  | succ left ih =>
    cases waiting with
    | zero => exact .inr rfl
    | succ waiting =>
      rw [rest, ends]
      by_cases hl : left = 0
      · subst hl
        exact .inl rfl
      cases hf : fails (left + 1) with
      | none =>
        rw [next_none hl]
        exact (ih (waiting + 1)).imp id fun hc => by rw [List.filter_cons_of_neg (by simp), hc]
      | some e =>
        rw [next_some]
        refine (ih waiting).imp id fun hc => ?_
        rw [List.filter_cons_of_pos rfl, List.length_cons, hc]

end Chains

/-! ### Runs of dispatches -/

abbrev Outcome := String × Option WorkError

def Dispatch.of (kind : String) : Outcome → Dispatch
  | (id, none) => .succeeded id
  | (id, some e) => .failed id (Fault.workFailed kind id e)

namespace DrainReport

variable {r : DrainReport} {jobs : List Outcome} {emptied : Bool}

def after (r : DrainReport) (jobs : List Outcome) (emptied : Bool) : DrainReport where
  succeeded := r.succeeded + (jobs.filter (·.2.isNone)).length
  failed := r.failed + (jobs.filter (·.2.isSome)).length
  emptied := emptied

theorem after_nil (h : r.emptied = false) : r.after [] false = r := by
  rw [after, ← h]
  rfl

theorem after_cons_none (id : String) :
    r.after ((id, none) :: jobs) emptied =
      ({ r with succeeded := r.succeeded + 1 } : DrainReport).after jobs emptied := by
  simp only [after, List.filter_cons, Option.isNone_none, Option.isSome_none, if_true,
    Bool.false_eq_true, if_false, List.length_cons, mk.injEq, and_true]
  omega

theorem after_cons_some (id : String) (e : WorkError) :
    r.after ((id, some e) :: jobs) emptied =
      ({ r with failed := r.failed + 1 } : DrainReport).after jobs emptied := by
  simp only [after, List.filter_cons, Option.isNone_some, Option.isSome_some, if_true,
    Bool.false_eq_true, if_false, List.length_cons, mk.injEq, and_true, true_and]
  omega

theorem executed_after (r : DrainReport) (jobs : List Outcome) (emptied : Bool) :
    (r.after jobs emptied).executed = r.executed + jobs.length := by
  induction jobs generalizing r with
  | nil => rfl
  | cons job jobs ih =>
    obtain ⟨id, _ | e⟩ := job
    · rw [after_cons_none, ih, List.length_cons]
      simp only [executed]
      omega
    · rw [after_cons_some, ih, List.length_cons]
      simp only [executed]
      omega

end DrainReport

namespace Dispatcher

variable {Q ρ : Type} {d : Dispatcher (Thread Q ρ)} {kind : String}
  {jobs : List Outcome} {s s₁ s₂ : Machine}

/-- Dispatches that run these jobs and nobody disturbs. -/
inductive Executes (d : Dispatcher (Thread Q ρ)) (kind : String) :
    List Outcome → Machine → Machine → Prop
  | nil {s : Machine} : Executes d kind [] s s
  | cons {job : Outcome} {jobs : List Outcome} {s s' s'' : Machine}
      (h : (d.runNext kind).run.drive s = (done (.ok (Dispatch.of kind job)), s'))
      (hr : Executes d kind jobs s' s'') : Executes d kind (job :: jobs) s s''

theorem Executes.unique {s' : Machine} (h : d.Executes kind jobs s s₁)
    (h' : d.Executes kind jobs s s') : s₁ = s' := by
  induction h with
  | nil =>
    cases h'
    rfl
  | cons hd he ih =>
    cases h' with
    | cons hd' he' =>
      rw [hd] at hd'
      cases hd'
      exact ih he'

theorem drive_drainGo (he : d.Executes kind jobs s s₁)
    (hidle : (d.runNext kind).run.drive s₁ = (done (.ok .idle), s₂)) (most : Nat)
    (report : DrainReport) (hn : report.emptied = false) :
    ∃ s', d.Executes kind (jobs.take most) s s' ∧ (d.drainGo kind report most).run.drive s =
      (done (.ok (report.after (jobs.take most) (decide (jobs.length < most)))),
        if jobs.length < most then s₂ else s') := by
  induction most generalizing jobs s report with
  | zero =>
    refine ⟨s, .nil, ?_⟩
    rw [List.take_zero, decide_eq_false (Nat.not_lt_zero _), DrainReport.after_nil hn,
      if_neg (Nat.not_lt_zero _)]
    rfl
  | succ most ih =>
    cases he with
    | nil =>
      refine ⟨s₁, .nil, ?_⟩
      rw [drainGo, ExceptT.run_bind, drive_bind_of_done hidle]
      rfl
    | @cons job jobs _ s' _ h he =>
      rw [drainGo, ExceptT.run_bind, drive_bind_of_done h]
      simp only [List.length_cons, Nat.add_lt_add_iff_right]
      obtain ⟨id, _ | e⟩ := job
      · obtain ⟨s₃, htake, hdrive⟩ := ih he { report with succeeded := report.succeeded + 1 } hn
        refine ⟨s₃, .cons h htake, ?_⟩
        rw [List.take_succ_cons, DrainReport.after_cons_none]
        exact hdrive
      · obtain ⟨s₃, htake, hdrive⟩ := ih he { report with failed := report.failed + 1 } hn
        refine ⟨s₃, .cons h htake, ?_⟩
        rw [List.take_succ_cons, DrainReport.after_cons_some]
        exact hdrive

structure Reported (most : Nat) (jobs : List Outcome) (report : DrainReport) : Prop where
  succeeded : report.succeeded = ((jobs.take most).filter (·.2.isNone)).length
  failed : report.failed = ((jobs.take most).filter (·.2.isSome)).length
  executed : report.executed = min most jobs.length
  emptied : report.emptied = true ↔ jobs.length < most

/-- A drain runs as many jobs as it may, or all of them and then once more without a job. -/
theorem drive_drain (he : d.Executes kind jobs s s₁)
    (hidle : (d.runNext kind).run.drive s₁ = (done (.ok .idle), s₂)) (most : Nat) :
    ∃ report s' r, Reported most jobs report ∧ d.Executes kind (jobs.take most) s s' ∧
      (d.drain kind most).run.drive s =
        (done (.ok report), (if jobs.length < most then s₂ else s').addRecord r) := by
  let start : DrainReport := { succeeded := 0, failed := 0, emptied := false }
  obtain ⟨s', htake, hdrive⟩ := drive_drainGo he hidle most start rfl
  let report := start.after (jobs.take most) (decide (jobs.length < most))
  let notice := Notice.drained kind report.succeeded report.failed report.emptied
  refine ⟨report, s', .notice notice, ⟨Nat.zero_add _, Nat.zero_add _, ?_, decide_eq_true_iff⟩,
    htake, ?_⟩
  · rw [DrainReport.executed_after, List.length_take]
    exact Nat.zero_add _
  · rw [drain, ExceptT.run_bind, drive_bind_of_done hdrive]
    rfl

end Dispatcher

end Turnstile
