import Turnstile.Duplicate.Marking
import Turnstile.Proofs.Simulation.Calls

/-!
# Submissions through a marking transport

Whatever way jobs are submitted, they are first marked in order and then put into the queues in
order. Marking changes nothing but marks, and moves neither the clock nor the queues.
-/

namespace Turnstile

def Job.unmarked (job : Job) : Job := { job with duplicateOf := none }

/-! ### Marking -/

namespace DedupPolicies

open Machine

variable {ps : DedupPolicies} {s : Machine} {job : Job} {now : Instant}

theorem observes_checkGo (c : Claim) (ttl : Duration) (rounds : Nat) :
    Always Observed (c.checkGo ttl rounds).run := by
  induction rounds with
  | zero => exact always_pure _
  | succ rounds ih =>
    refine always_run_bind (observes_callStore _) fun claimed => ?_
    split
    · exact always_pure _
    · refine always_run_bind (observes_callStore _) fun owner => ?_
      split
      · exact always_pure _
      · exact ih

theorem observes_markOwned (c : Claim) (ttl : Duration) : Always Observed (markOwned c ttl) := by
  refine always_bind (observes_checkGo c ttl 2) fun r => ?_
  split
  · exact always_bind (observes_note _) fun _ => always_pure _
  · exact always_bind (observes_note _) fun _ =>
      always_bind (observes_tally _) fun _ => always_pure _
  · exact always_bind (observes_note _) fun _ => always_pure _

theorem markOwned_unmarked (c : Claim) (ttl : Duration) :
    (s.exec (markOwned c ttl)).1.unmarked = c.job.unmarked := by
  rw [markOwned, exec_bind]
  split <;> rfl

/-- The record that a job may claim when it is submitted does not outlast every duration. -/
def Lasts (ps : DedupPolicies) (job : Job) (now : Instant) : Prop :=
  (Claim.of job (ps.forKind job.kind)).applies now = true →
    ((Claim.of job (ps.forKind job.kind)).expiry? now).isSome = true

theorem exec_mark (s : Machine) (job : Job) :
    s.exec (ps.mark job).run =
      if (Claim.of job (ps.forKind job.kind)).applies s.clock then
        match (Claim.of job (ps.forKind job.kind)).expiry? s.clock with
        | none => (.error .panic, s)
        | some ttl =>
          let r := s.exec (markOwned (Claim.of job (ps.forKind job.kind)) ttl)
          (.ok r.1, r.2)
      else (.ok job, s) := by
  rw [mark, exec_run_bind]
  change s.exec (ExceptT.run
    (if (Claim.of job (ps.forKind job.kind)).applies s.clock then _ else _)) = _
  split
  · cases (Claim.of job (ps.forKind job.kind)).expiry? s.clock <;> rfl
  · rfl

theorem exec_mark_unmarked (h : ps.Lasts job s.clock) :
    ∃ marked s', s.exec (ps.mark job).run = (.ok marked, s') ∧ marked.unmarked = job.unmarked ∧
      s.Observed s' := by
  rw [exec_mark]
  split
  · next ha =>
    obtain ⟨ttl, httl⟩ := Option.isSome_iff_exists.mp (h ha)
    rw [httl]
    exact ⟨_, _, rfl, markOwned_unmarked _ ttl, observes_markOwned _ ttl s⟩
  · exact ⟨job, s, rfl, rfl, .refl s⟩

theorem unmarked_of_exec_mark {marked : Job} {s' : Machine}
    (h : s.exec (ps.mark job).run = (.ok marked, s')) : marked.unmarked = job.unmarked := by
  rw [exec_mark] at h
  split at h
  · cases hx : (Claim.of job (ps.forKind job.kind)).expiry? s.clock with
    | none =>
      rw [hx] at h
      cases h
    | some ttl =>
      rw [hx] at h
      cases h
      exact markOwned_unmarked _ ttl
  · cases h
    rfl

theorem exec_markAll_unmarked {jobs : List Job} (h : ∀ job ∈ jobs, ps.Lasts job s.clock) :
    ∃ marked s', s.exec (ps.markAll jobs).run = (.ok marked, s') ∧
      marked.map Job.unmarked = jobs.map Job.unmarked ∧ s.Observed s' := by
  induction jobs generalizing s with
  | nil => exact ⟨[], s, rfl, rfl, .refl s⟩
  | cons job rest ih =>
    obtain ⟨marked, s', hmark, hjob, hobserved⟩ :=
      exec_mark_unmarked (h job List.mem_cons_self)
    obtain ⟨more, s'', hmore, hrest, hobserved'⟩ := ih (s := s') fun job hj => by
      rw [hobserved.clock]
      exact h job (List.mem_cons_of_mem _ hj)
    refine ⟨marked :: more, s'', ?_, ?_, hobserved.trans hobserved'⟩
    · simp only [markAll, exec_run_bind, hmark, hmore, exec_run_pure]
    · rw [List.map_cons, hjob, hrest, List.map_cons]

end DedupPolicies

/-! ### Taking jobs in -/

namespace LocalTransport

open Machine

variable {lt : LocalTransport} {s s' : Machine} {job job' : Job}

theorem always_markLive {R : Machine → Machine → Prop} [IsPreorder Machine R] {id : String}
    (hcall : ∀ s c, c.key = Liveness.key id → R s (s.callStore c).2)
    (hnote : ∀ s n, R s (s.addRecord (.notice n))) (lt : LocalTransport) :
    Always R (lt.markLive id) := by
  unfold markLive
  split
  · exact always_pure _
  · next liveness _ =>
    have hset : Always R (liveness.track id : Attempt (StateM Machine) Unit).run := by
      refine always_run_bind (fun s => hcall s _ rfl) fun stored => ?_
      split
      · exact always_run_bind (fun s => hcall s _ rfl) fun _ => always_pure _
      · exact always_pure _
    refine always_bind hset fun r => ?_
    split
    · exact always_pure _
    · exact always_bind (fun s => hnote s _) fun _ => always_pure _

theorem observes_markLive (lt : LocalTransport) (id : String) :
    Always Observed (lt.markLive id) :=
  always_markLive (fun s c _ => observed_callStore s c) (fun _ _ => ⟨rfl, rfl, rfl⟩) lt

theorem exec_push (lt : LocalTransport) (s : Machine) (job : Job) :
    (s.exec (lt.push job)).1 = job.id ∧ (s.exec (lt.push job)).2.clock = s.clock ∧
      (s.exec (lt.push job)).2.queue =
        s.queue.push s.clock { job with enqueuedAt := some s.clock } := by
  have hlive := observes_markLive lt job.id s
  refine ⟨rfl, hlive.clock, ?_⟩
  change (s.exec (lt.markLive job.id)).2.queue.push s.clock _ = _
  rw [hlive.queue]

/-- Jobs that were taken in at a time, after those that wait already. -/
def takeIn (now : Instant) (jobs : List Job) (q : Queue) : Queue :=
  jobs.foldl (fun q job => q.push now { job with enqueuedAt := some now }) q

theorem exec_pushAll_cons (lt : LocalTransport) (s : Machine) (job : Job) (rest : List Job) :
    s.exec (lt.pushAll (job :: rest)) =
      ((s.exec (lt.push job)).1 :: ((s.exec (lt.push job)).2.exec (lt.pushAll rest)).1,
        ((s.exec (lt.push job)).2.exec (lt.pushAll rest)).2) := rfl

theorem exec_pushAll (lt : LocalTransport) (s : Machine) (jobs : List Job) :
    (s.exec (lt.pushAll jobs)).1 = jobs.map (·.id) ∧
      (s.exec (lt.pushAll jobs)).2.clock = s.clock ∧
      (s.exec (lt.pushAll jobs)).2.queue = takeIn s.clock jobs s.queue := by
  induction jobs generalizing s with
  | nil => exact ⟨rfl, rfl, rfl⟩
  | cons job rest ih =>
    obtain ⟨hid, hclock, hqueue⟩ := exec_push lt s job
    obtain ⟨hids, hclock', hqueue'⟩ := ih (s.exec (lt.push job)).2
    rw [exec_pushAll_cons]
    refine ⟨?_, hclock'.trans hclock, ?_⟩
    · rw [hid, hids, List.map_cons]
    · rw [hqueue', hclock, hqueue]
      rfl

end LocalTransport

/-! ### Submissions -/

/-- A way to submit jobs. -/
inductive Submission
  | one (job : Job)
  | batch (jobs : List Job)
  | later (due : Instant) (job : Job)

namespace Submission

def jobs : Submission → List Job
  | one job => [job]
  | batch jobs => jobs
  | later due job => [{ job with scheduledAt := some due }]

def submit {m : Type → Type} [Monad m] (t : Transport m) : Submission → Task m (List String)
  | one job => do return [← t.submit job]
  | batch jobs => t.submitBatch jobs
  | later due job => do return [← t.submitAt due job]

variable {lt : LocalTransport} {ps : DedupPolicies} {s : Machine}

theorem exec_submit (lt : LocalTransport) (s : Machine) (sub : Submission) :
    s.exec (sub.submit lt.toTransport).run =
      (.ok (s.exec (lt.pushAll sub.jobs)).1, (s.exec (lt.pushAll sub.jobs)).2) := by
  cases sub <;> rfl

theorem exec_submit_marking (lt : LocalTransport) (sub : Submission)
    (h : ∀ job ∈ sub.jobs, ps.Lasts job s.clock) :
    ∃ left s', s.exec (ps.markAll sub.jobs).run = (.ok left, s') ∧
      left.map Job.unmarked = sub.jobs.map Job.unmarked ∧ s.Observed s' ∧
      s.exec (sub.submit (lt.toTransport.marking ps)).run =
        (.ok (s'.exec (lt.pushAll left)).1, (s'.exec (lt.pushAll left)).2) := by
  obtain ⟨left, s', hmark, hjobs, hobserved⟩ := DedupPolicies.exec_markAll_unmarked h
  refine ⟨left, s', hmark, hjobs, hobserved, ?_⟩
  cases sub with
  | one job =>
    obtain ⟨marked, s'', he, _, _⟩ :=
      DedupPolicies.exec_mark_unmarked (h job (List.mem_singleton_self _))
    simp only [jobs, DedupPolicies.markAll, Machine.exec_run_bind, he, Machine.exec_run_pure] at hmark
    cases hmark
    simp only [submit, Transport.marking, Machine.exec_run_bind, he, LocalTransport.toTransport,
      Machine.exec_run_lift, Machine.exec_run_pure]
    rfl
  | batch jobs =>
    change s.exec (ps.markAll jobs).run = _ at hmark
    simp only [submit, Transport.marking, Machine.exec_run_bind, hmark, LocalTransport.toTransport,
      Machine.exec_run_lift]
  | later due job =>
    obtain ⟨marked, s'', he, hjob, _⟩ :=
      DedupPolicies.exec_mark_unmarked (h _ (List.mem_singleton_self _))
    have hdue : { marked with scheduledAt := some due } = marked := by
      have hscheduled := congrArg Job.scheduledAt hjob
      obtain ⟨_, _, _, _, _, _⟩ := marked
      cases hscheduled
      rfl
    simp only [jobs, DedupPolicies.markAll, Machine.exec_run_bind, he, Machine.exec_run_pure] at hmark
    cases hmark
    simp only [submit, Transport.marking, Machine.exec_run_bind, he, LocalTransport.toTransport,
      Machine.exec_run_lift, Machine.exec_run_pure, hdue]
    rfl

end Submission

end Turnstile
