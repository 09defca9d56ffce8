import Turnstile.Proofs.Duplicate.Marking
import Turnstile.Proofs.Simulation.Keysets

/-!
# Submissions in batches

While the clock stands still, a batch comes to the same as its jobs one by one: the same ids, the same
marks, the same queues and the same keys in the store. A batch is marked as a whole before its first job
is taken in; that makes no difference, since marking keeps to the keys of claims and taking in to the keys
of live jobs.
-/

namespace Turnstile

open Machine

/-- Submits jobs one by one. -/
def Transport.submitEach {m : Type → Type} [Monad m] (t : Transport m) :
    List Job → Task m (List String)
  | [] => pure []
  | job :: rest => do
    let id ← t.submit job
    let ids ← t.submitEach rest
    return id :: ids

/-- The key of some claim. -/
def ClaimKey (key : String) : Prop := ∃ kind args, key = IdempotencyKey.of kind args

/-- The key of some live job. -/
def LiveKey (key : String) : Prop := ∃ id, key = Liveness.key id

theorem ClaimKey.not_liveKey {key : String} (h : ClaimKey key) : ¬ LiveKey key := by
  obtain ⟨kind, args, rfl⟩ := h
  rintro ⟨id, hid⟩
  exact IdempotencyKey.of_ne_livenessKey kind args id hid.symm

variable {ps : DedupPolicies} {lt : LocalTransport} {s t : Machine} {job : Job} {jobs : List Job}

/-! ### Which keys are touched -/

namespace Claim

theorem keepsTo_checkGo {c : Claim} (hc : ClaimKey c.key) (ttl : Duration) (rounds : Nat) :
    KeepsTo ClaimKey (c.checkGo ttl rounds : Attempt (StateM Machine) (Option String)).run := by
  induction rounds with
  | zero => exact .pure _
  | succ rounds ih =>
    refine .run_bind (.callStore hc) fun claimed => ?_
    split
    · exact .pure _
    · refine .run_bind (.callStore hc) fun owner => ?_
      split
      · exact .pure _
      · exact ih

end Claim

namespace DedupPolicies

theorem keepsTo_markOwned {c : Claim} (hc : ClaimKey c.key) (ttl : Duration) :
    KeepsTo ClaimKey (markOwned c ttl : StateM Machine Job) := by
  refine .bind (Claim.keepsTo_checkGo hc ttl 2) fun r => ?_
  split
  · exact .bind (.note _) fun _ => .pure _
  · exact .bind (.note _) fun _ => .bind (.tally _) fun _ => .pure _
  · exact .bind (.note _) fun _ => .pure _

theorem keepsTo_mark (ps : DedupPolicies) (job : Job) :
    KeepsTo ClaimKey (ps.mark job : Task (StateM Machine) Job).run := by
  refine .run_bind (.run_lift .now) fun now' => ?_
  change KeepsTo ClaimKey (ExceptT.run
    (if (Claim.of job (ps.forKind job.kind)).applies now' then _ else _))
  split
  · split
    · exact .pure _
    · exact .run_lift (keepsTo_markOwned ⟨job.kind, job.args, rfl⟩ _)
  · exact .pure _

theorem keepsTo_markAll (ps : DedupPolicies) (jobs : List Job) :
    KeepsTo ClaimKey (ps.markAll jobs : Task (StateM Machine) (List Job)).run := by
  induction jobs with
  | nil => exact .pure _
  | cons job rest ih =>
    exact .run_bind (ps.keepsTo_mark job) fun marked => .run_bind ih fun more => .pure _

end DedupPolicies

namespace LocalTransport

theorem keepsTo_markLive (lt : LocalTransport) (id : String) :
    KeepsTo LiveKey (lt.markLive id : StateM Machine Unit) := by
  have hkey : LiveKey (Liveness.key id) := ⟨id, rfl⟩
  unfold markLive
  split
  · exact .pure _
  · refine .orNote (.run_bind (.callStore hkey) fun stored => ?_) _ _
    split
    · exact .run_bind (.callStore hkey) fun _ => .pure _
    · exact .pure _

theorem keepsTo_push (lt : LocalTransport) (job : Job) :
    KeepsTo LiveKey (lt.push job : StateM Machine String) := by
  refine .bind .now fun now' => .bind (lt.keepsTo_markLive job.id) fun _ => ?_
  exact .bind (.modifyQueue () _) fun _ => .pure _

theorem keepsTo_pushAll (lt : LocalTransport) (jobs : List Job) :
    KeepsTo LiveKey (lt.pushAll jobs : StateM Machine (List String)) := by
  induction jobs with
  | nil => exact .pure _
  | cons job rest ih => exact .bind (lt.keepsTo_push job) fun id => .bind ih fun ids => .pure _

theorem exec_submitEach (lt : LocalTransport) (s : Machine) (jobs : List Job) :
    s.exec (lt.toTransport.submitEach jobs).run = s.exec (lt.toTransport.submitBatch jobs).run := by
  induction jobs generalizing s with
  | nil => rfl
  | cons job rest ih =>
    have hpush : s.exec (lt.toTransport.submit job).run =
        (.ok (s.exec (lt.push job)).1, (s.exec (lt.push job)).2) := rfl
    rw [Transport.submitEach, exec_run_bind, hpush]
    simp only [exec_run_bind, ih]
    rfl

end LocalTransport

/-! ### One by one and all together -/

/-- Two runs answer the same, at the same time, and leave the same queues and the same under each key of
the store. -/
structure Machine.Alike {α : Type} (r r' : α × Machine) : Prop where
  answer : r.1 = r'.1
  clock : r.2.clock = r'.2.clock
  queue : r.2.queue = r'.2.queue
  stored : ∀ key, r.2.store.get? key = r'.2.store.get? key

/-- The ways to submit jobs to a transport come to the same. -/
structure Transport.Consistent (t : Transport (StateM Machine)) (jobs : List Job) (s : Machine) :
    Prop where
  ids : (s.exec (t.submitBatch jobs).run).1 = .ok (jobs.map (·.id))
  each : Alike (s.exec (t.submitBatch jobs).run) (s.exec (t.submitEach jobs).run)
  later : ∀ (due : Instant) (job : Job), s.exec (t.submitAt due job).run =
    s.exec (t.submit { job with scheduledAt := some due }).run

theorem Machine.Alike.refl {α : Type} (r : α × Machine) : Alike r r := ⟨rfl, rfl, rfl, fun _ => rfl⟩

namespace DedupPolicies

theorem exec_submit_marking {marked : Job} {s₁ : Machine}
    (hm : s.exec (ps.mark job).run = (.ok marked, s₁)) :
    s.exec ((lt.toTransport.marking ps).submit job).run =
      (.ok (s₁.exec (lt.push marked)).1, (s₁.exec (lt.push marked)).2) := by
  simp only [Transport.marking, exec_run_bind, hm, LocalTransport.toTransport, exec_run_lift]

/-- A job may as well be taken in after the jobs that follow it were marked. -/
theorem exec_markAll_push (ps : DedupPolicies) (lt : LocalTransport) (hq : s.Quiet) (job : Job)
    (jobs left : List Job) :
    ((s.exec (lt.push job)).2.exec (ps.markAll jobs).run).1 = (s.exec (ps.markAll jobs).run).1 ∧
      Agree (fun _ => True)
        ((s.exec (ps.markAll jobs).run).2.exec (lt.pushAll (job :: left))).2
        (((s.exec (lt.push job)).2.exec (ps.markAll jobs).run).2.exec (lt.pushAll left)).2 := by
  have hpush := lt.keepsTo_push job
  have hmark := ps.keepsTo_markAll jobs
  obtain ⟨hsame, _, hagree⟩ :=
    hpush.comm hmark (fun key hlive hclaim => hclaim.not_liveKey hlive) hq
  have hquiet := (hmark.beside _).quiet ((hpush.beside s).quiet hq)
  have hquiet' := (hpush.beside _).quiet ((hmark.beside s).quiet hq)
  exact ⟨hsame, ((lt.keepsTo_pushAll left).agree_all hquiet hquiet' hagree).2.symm⟩

/-- Jobs that are marked and taken in one after the other are marked as they would be all together, and
come to the queues and to the store as if they were taken in after that. -/
theorem exec_submitEach_marking (lt : LocalTransport) (hq : s.Quiet)
    (hl : ∀ job ∈ jobs, ps.Lasts job s.clock) :
    ∃ left s₁ s₂, s.exec (ps.markAll jobs).run = (.ok left, s₁) ∧
      s.exec ((lt.toTransport.marking ps).submitEach jobs).run = (.ok (left.map (·.id)), s₂) ∧
      s₂.queue = LocalTransport.takeIn s.clock left s.queue ∧
      Agree (fun _ => True) (s₁.exec (lt.pushAll left)).2 s₂ := by
  induction jobs generalizing s with
  | nil => exact ⟨[], s, s, rfl, rfl, rfl, .refl s⟩
  | cons job rest ih =>
    obtain ⟨marked, s₁, hmark, _, hobserved⟩ := exec_mark_unmarked (hl job List.mem_cons_self)
    have hq₁ : s₁.Quiet := by
      have hquiet := ((ps.keepsTo_mark job).beside s).quiet hq
      rwa [hmark] at hquiet
    obtain ⟨hid, hclock, hqueue⟩ := lt.exec_push s₁ marked
    have hq₂ := ((lt.keepsTo_push marked).beside s₁).quiet hq₁
    obtain ⟨left, s₃, s₄, hmore, hrest, hwaiting, hagree⟩ := ih hq₂ fun j hj => by
      rw [hclock, hobserved.clock]
      exact hl j (List.mem_cons_of_mem _ hj)
    obtain ⟨hsame, hpushed⟩ := exec_markAll_push ps lt hq₁ marked rest left
    rw [hmore] at hsame hpushed
    have hall : s₁.exec (ps.markAll rest).run = (.ok left, (s₁.exec (ps.markAll rest).run).2) :=
      Prod.ext hsame.symm rfl
    refine ⟨marked :: left, _, s₄, ?_, ?_, ?_, hpushed.trans hagree⟩
    · simp only [markAll, exec_run_bind, hmark]
      rw [hall]
      rfl
    · simp only [Transport.submitEach, exec_run_bind, exec_submit_marking hmark, hrest, hid,
        exec_run_pure, List.map_cons]
    · rw [hwaiting, hqueue, hclock, hobserved.clock, hobserved.queue]
      rfl

theorem exec_submitAt_marking (ps : DedupPolicies) (lt : LocalTransport) (s : Machine) (due : Instant)
    (job : Job) : s.exec ((lt.toTransport.marking ps).submitAt due job).run =
      s.exec ((lt.toTransport.marking ps).submit { job with scheduledAt := some due }).run := by
  simp only [Transport.marking, exec_run_bind]
  rcases hm : s.exec (ps.mark { job with scheduledAt := some due }).run with ⟨halt | marked, s₁⟩
  · rfl
  · -- a mark leaves the due time as it is
    have hdue := congrArg Job.scheduledAt (unmarked_of_exec_mark hm)
    obtain ⟨kind, args, id, mark, due', stamp⟩ := marked
    obtain rfl : due' = some due := hdue
    rfl

theorem consistent_marking (lt : LocalTransport) (hq : s.Quiet)
    (hl : ∀ job ∈ jobs, ps.Lasts job s.clock) : (lt.toTransport.marking ps).Consistent jobs s := by
  obtain ⟨left, s₁, s₂, hmark, heach, hqueue, hagree⟩ := exec_submitEach_marking lt hq hl
  obtain ⟨_, _, hmark', hjobs, hobserved⟩ := exec_markAll_unmarked hl
  cases hmark.symm.trans hmark'
  obtain ⟨hids, hclock, htaken⟩ := lt.exec_pushAll s₁ left
  have hsame : left.map (·.id) = jobs.map (·.id) := by
    have hi := congrArg (List.map (·.id)) hjobs
    rw [List.map_map, List.map_map] at hi
    exact hi
  have hbatch : s.exec ((lt.toTransport.marking ps).submitBatch jobs).run =
      (.ok (left.map (·.id)), (s₁.exec (lt.pushAll left)).2) := by
    simp only [Transport.marking, exec_run_bind, hmark, LocalTransport.toTransport, exec_run_lift, hids]
  refine ⟨by rw [hbatch, hsame], ?_, exec_submitAt_marking ps lt s⟩
  rw [hbatch, heach]
  refine ⟨rfl, hagree.clock, ?_, fun key => hagree.stored key trivial⟩
  rw [htaken, hqueue, hobserved.clock, hobserved.queue]

end DedupPolicies

theorem LocalTransport.consistent (lt : LocalTransport) (jobs : List Job) (s : Machine) :
    lt.toTransport.Consistent jobs s := by
  obtain ⟨hids, _, _⟩ := lt.exec_pushAll s jobs
  refine ⟨congrArg Except.ok hids, ?_, fun _ _ => rfl⟩
  rw [lt.exec_submitEach]
  exact .refl _

/-- Whether jobs are submitted in a batch or one by one, at a time or with that time on them, the ids, the
marks, the queues and all keys of the store come out the same, with and without marking. -/
theorem submissions_consistent (lt : LocalTransport) (ps : DedupPolicies) (jobs : List Job)
    (s : Machine) (hq : s.Quiet) (hl : ∀ job ∈ jobs, ps.Lasts job s.clock) :
    lt.toTransport.Consistent jobs s ∧ (lt.toTransport.marking ps).Consistent jobs s :=
  ⟨lt.consistent jobs s, DedupPolicies.consistent_marking lt hq hl⟩

/-- Of three jobs the second one, due in a minute, has the arguments of the first. Taken in by a transport that
marks live jobs and checks scheduled ones too, it is held with the mark of the first. -/
theorem submissions_consistent_of_three :
    let lt : LocalTransport := { liveness := some ⟨DedupPolicy.defaultTtl⟩ }
    let ps := DedupPolicies.ofPolicy DedupPolicy.untilExecuted.withScheduled
    let jobs := [Job.create "k" [.str "a"] "1",
      { Job.create "k" [.str "a"] "2" with scheduledAt := some ⟨60, 0⟩ }, Job.create "k" [] "3"]
    let s := Machine.ofClock Instant.epoch
    let each := s.exec ((lt.toTransport.marking ps).submitEach jobs).run
    s.Quiet ∧ (∀ job ∈ jobs, ps.Lasts job s.clock) ∧ lt.toTransport.Consistent jobs s ∧
      (lt.toTransport.marking ps).Consistent jobs s ∧
      (each.2.queue.readyJobs "k").map (fun job => (job.id, job.duplicateOf)) =
        [("1", none), ("3", none)] ∧
      each.2.queue.scheduled.map (fun job => (job.id, job.duplicateOf)) = [("2", some "1")] := by
  intro lt ps jobs s each
  have hq : s.Quiet := fun _ => rfl
  have hl : ∀ job ∈ jobs, ps.Lasts job s.clock := by
    intro job hjob _
    simp only [jobs, List.mem_cons, List.not_mem_nil, or_false] at hjob
    rcases hjob with rfl | rfl | rfl <;> decide +kernel
  obtain ⟨hlocal, hmarking⟩ := submissions_consistent lt ps jobs s hq hl
  exact ⟨hq, hl, hlocal, hmarking, by decide +kernel, by decide +kernel⟩

end Turnstile
