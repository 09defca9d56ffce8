import Turnstile.Proofs.Duplicate.Marking

/-!
# Jobs that wait

Queues hold the jobs that were put into them and no others. What was put into them at once can be
read from them again.
-/

namespace Turnstile

namespace Queue

/-- A job waits, ready or not. -/
def Holds (q : Queue) (job : Job) : Prop := job ∈ q.scheduled ∨ ∃ kind, job ∈ q.readyJobs kind

variable {q : Queue} {job other : Job} {now : Instant} {kind : String}

theorem not_holds_empty : ¬ empty.Holds job := by
  rintro (h | ⟨_, h⟩) <;> cases h

theorem readyJobs_insert (q : Queue) (kind other : String) (jobs : List Job) :
    readyJobs { q with ready := q.ready.insert kind jobs } other =
      if kind = other then jobs else q.readyJobs other := by
  simp only [readyJobs, Keyed.getD, Keyed.get?_insert]
  split <;> rfl

theorem readyJobs_pushReady (q : Queue) (job : Job) (kind : String) :
    (q.pushReady job).readyJobs kind =
      q.readyJobs kind ++ [job].filter fun j => decide (j.kind = kind) := by
  rw [pushReady, readyJobs_insert, List.filter_singleton]
  by_cases hk : job.kind = kind
  · simp only [hk, if_true, decide_true, cond_true]
  · simp only [hk, if_false, decide_false, cond_false, List.append_nil]

theorem holds_pushReady (h : (q.pushReady job).Holds other) : q.Holds other ∨ other = job := by
  rcases h with h | ⟨kind, h⟩
  · exact Or.inl (Or.inl h)
  · rw [readyJobs_pushReady] at h
    rcases List.mem_append.mp h with h | h
    · exact Or.inl (Or.inr ⟨kind, h⟩)
    · exact Or.inr (List.mem_singleton.mp (List.mem_filter.mp h).1)

theorem holds_push (h : (q.push now job).Holds other) : q.Holds other ∨ other = job := by
  unfold push at h
  split at h
  · rcases h with h | h
    · rcases List.mem_append.mp h with h | h
      · exact Or.inl (Or.inl h)
      · exact Or.inr (List.mem_singleton.mp h)
    · exact Or.inl (Or.inr h)
  · exact holds_pushReady h

theorem holds_promoteDue (h : (q.promoteDue now).Holds job) : q.Holds job := by
  have hfold : ∀ (jobs : List Job) (q' : Queue), (∀ j ∈ jobs, q.Holds j) →
      (∀ j, q'.Holds j → q.Holds j) → ∀ j, (jobs.foldl pushReady q').Holds j → q.Holds j := by
    intro jobs
    induction jobs with
    | nil => exact fun _ _ hq j hj => hq j hj
    | cons first rest ih =>
      intro q' hjobs hq
      refine ih (q'.pushReady first) (fun j hj => hjobs j (List.mem_cons_of_mem _ hj)) ?_
      intro j hj
      rcases holds_pushReady hj with hj | rfl
      · exact hq j hj
      · exact hjobs j List.mem_cons_self
  refine hfold _ _ ?_ ?_ job h
  · intro j hj
    exact Or.inl (List.mem_filter.mp hj).1
  · rintro j (hj | hj)
    · exact Or.inl (List.mem_filter.mp hj).1
    · exact Or.inr hj

theorem holds_pop (q : Queue) (kind : String) :
    (∀ job, (q.pop kind).1 = some job → q.Holds job) ∧
      ∀ job, (q.pop kind).2.Holds job → q.Holds job := by
  unfold pop
  split
  · exact ⟨nofun, fun _ h => h⟩
  · next first rest hjobs =>
    have hmem : ∀ job ∈ first :: rest, q.Holds job := by
      intro job hjob
      rw [← hjobs] at hjob
      exact Or.inr ⟨kind, hjob⟩
    constructor
    · rintro job ⟨⟩
      exact hmem _ List.mem_cons_self
    · rintro job (h | ⟨k, h⟩)
      · exact Or.inl h
      · rw [readyJobs_insert] at h
        split at h
        · exact hmem job (List.mem_cons_of_mem _ h)
        · exact Or.inr ⟨k, h⟩

end Queue

/-! ### Jobs that were taken in -/

def Job.stamped (job : Job) (now : Instant) : Job := { job with enqueuedAt := some now }

namespace LocalTransport

variable {q : Queue} {now : Instant} {jobs left left' : List Job} {job : Job}

theorem holds_takeIn (h : (takeIn now jobs q).Holds job) :
    q.Holds job ∨ ∃ o ∈ jobs, job = o.stamped now := by
  induction jobs generalizing q with
  | nil => exact Or.inl h
  | cons first rest ih =>
    rcases ih (q := q.push now (first.stamped now)) h with h | ⟨o, ho, rfl⟩
    · rcases Queue.holds_push h with h | rfl
      · exact Or.inl h
      · exact Or.inr ⟨first, List.mem_cons_self, rfl⟩
    · exact Or.inr ⟨o, List.mem_cons_of_mem _ ho, rfl⟩

/-- Where a job waits: in the ready queue of its kind, unless it is not due. -/
def route (now : Instant) (job : Job) : Option String :=
  if job.isScheduled now then none else some job.kind

def waiting (q : Queue) : Option String → List Job
  | none => q.scheduled
  | some kind => q.readyJobs kind

theorem waiting_push (now : Instant) (job : Job) (q : Queue) (r : Option String) :
    waiting (q.push now job) r =
      waiting q r ++ [job].filter fun j => decide (route now j = r) := by
  unfold Queue.push
  rw [List.filter_singleton]
  cases hs : job.isScheduled now with
  | true =>
    have hroute : route now job = none := by simp only [route, hs, if_true]
    cases r <;> simp [waiting, hroute, Queue.readyJobs]
  | false =>
    have hroute : route now job = some job.kind := by
      simp only [route, hs, Bool.false_eq_true, if_false]
    cases r with
    | none => simp [waiting, hroute, Queue.pushReady]
    | some kind =>
      simp only [waiting, hroute, Bool.false_eq_true, if_false, Queue.readyJobs_pushReady,
        List.filter_singleton, Option.some.injEq]

theorem waiting_takeIn (now : Instant) (jobs : List Job) (q : Queue) (r : Option String) :
    waiting (takeIn now jobs q) r =
      waiting q r ++ (jobs.filter fun j => decide (route now j = r)).map (Job.stamped · now) := by
  induction jobs generalizing q with
  | nil => exact (List.append_nil _).symm
  | cons job rest ih =>
    have hroute : route now (job.stamped now) = route now job := rfl
    change waiting (takeIn now rest (q.push now (job.stamped now))) r = _
    rw [ih, waiting_push, List.append_assoc, List.filter_singleton, hroute, List.filter_cons]
    by_cases hr : route now job = r
    · simp only [hr, decide_true, cond_true, if_true, List.singleton_append, List.map_cons]
    · simp only [hr, decide_false, cond_false, Bool.false_eq_true, if_false, List.nil_append]

/-- The queues show which of jobs that differ in marks only were taken in. -/
theorem takeIn_inj (hu : left.map Job.unmarked = left'.map Job.unmarked)
    (hq : takeIn now left q = takeIn now left' q) : left = left' := by
  have hall : ∀ r, (left.filter fun j => decide (route now j = r)).map (Job.stamped · now) =
      (left'.filter fun j => decide (route now j = r)).map (Job.stamped · now) := by
    intro r
    have hw := congrArg (waiting · r) hq
    simp only [waiting_takeIn] at hw
    exact List.append_cancel_left hw
  clear hq
  induction left generalizing left' with
  | nil => exact (List.map_eq_nil_iff.mp hu.symm).symm
  | cons job rest ih =>
    obtain ⟨job', rest', rfl, hjob, hrest⟩ := List.map_eq_cons_iff.mp hu.symm
    have hroute : route now job' = route now job := by
      have hr := congrArg (route now) hjob
      exact hr
    have hsame : job = job' := by
      have hhead := congrArg List.head? (hall (route now job))
      simp only [List.filter_cons, hroute, decide_true, if_true, List.map_cons, List.head?_cons,
        Option.some.injEq] at hhead
      have henqueued := congrArg Job.enqueuedAt hjob
      cases job
      cases job'
      simp only [Job.stamped, Job.unmarked, Job.mk.injEq] at hhead henqueued
      simp only [hhead, henqueued]
    subst hsame
    rw [ih hrest.symm]
    intro r
    have hr := hall r
    simp only [List.filter_cons] at hr
    split at hr
    · exact (List.cons.inj hr).2
    · exact hr

end LocalTransport

end Turnstile
