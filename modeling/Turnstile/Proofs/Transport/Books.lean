import Turnstile.Proofs.Transport.Queue

/-!
# Books on jobs

For each kind there is a line of jobs, which grows at its end only: first those that were taken, then
those that are ready. The books balance if every job that was given is in the line of its kind or held,
once for each time that it was given.
-/

namespace Turnstile

open scoped List

theorem Job.isScheduled_iff {job : Job} {now : Instant} :
    job.isScheduled now = true ↔ ∃ due, job.scheduledAt = some due ∧ now < due := by
  unfold isScheduled
  cases job.scheduledAt with
  | none => simp
  | some due => simp

theorem Job.isScheduled_later {job : Job} {now later : Instant} (h : now ≤ later)
    (hj : job.isScheduled now = false) : job.isScheduled later = false := by
  revert hj
  unfold isScheduled
  cases job.scheduledAt with
  | none => exact fun hj => hj
  | some due =>
    simp only [decide_eq_false_iff_not, not_lt]
    exact fun hj => le_trans hj h

def Job.isOf (job : Job) (kind : String) : Bool := job.kind = kind

/-- The jobs that were given, the lines and the jobs that are held agree. -/
structure Books (given : List Job) (line : String → List Job) (held : List Job) : Prop where
  balance : ∀ kind, line kind ++ held.filter (·.isOf kind) ~ given.filter (·.isOf kind)
  ownKind : ∀ kind, ∀ job ∈ line kind, job.kind = kind
  later : ∀ job ∈ held, job.scheduledAt.isNone = false
  sublist : held <+ given
  inOrder : ∀ kind, (line kind).filter (·.scheduledAt.isNone) =
    (given.filter (·.isOf kind)).filter (·.scheduledAt.isNone)

namespace Books

variable {given held : List Job} {line : String → List Job} {job : Job}

theorem empty : Books [] (fun _ => []) [] where
  balance _ := .refl _
  ownKind _ _ h := nomatch h
  later _ h := nomatch h
  sublist := .refl _
  inOrder _ := rfl

theorem hold (h : Books given line held) (hs : job.scheduledAt.isNone = false) :
    Books (given ++ [job]) line (held ++ [job]) := by
  refine ⟨fun kind => ?_, h.ownKind, fun j hj => ?_, h.sublist.append_right _, fun kind => ?_⟩
  · rw [List.filter_append, List.filter_append, ← List.append_assoc]
    exact (h.balance kind).append_right _
  · rcases List.mem_append.mp hj with hj | hj
    · exact h.later j hj
    · rw [List.mem_singleton.mp hj]
      exact hs
  · have hnone : ([job].filter (·.isOf kind)).filter (·.scheduledAt.isNone) = [] := by
      rw [List.filter_eq_nil_iff]
      intro j hj
      rw [List.mem_singleton.mp (List.mem_filter.mp hj).1, hs]
      exact Bool.false_ne_true
    rw [h.inOrder kind, List.filter_append, List.filter_append, hnone, List.append_nil]

theorem ready (h : Books given line held) (job : Job) :
    Books (given ++ [job]) (fun kind => line kind ++ [job].filter (·.isOf kind)) held := by
  refine ⟨fun kind => ?_, fun kind j hj => ?_, h.later,
    h.sublist.trans (List.sublist_append_left ..), fun kind => ?_⟩
  · rw [List.filter_append]
    have hswap : line kind ++ [job].filter (·.isOf kind) ++ held.filter (·.isOf kind) ~
        line kind ++ held.filter (·.isOf kind) ++ [job].filter (·.isOf kind) := by
      rw [List.append_assoc, List.append_assoc]
      exact List.perm_append_comm.append_left _
    exact hswap.trans ((h.balance kind).append_right _)
  · rcases List.mem_append.mp hj with hj | hj
    · exact h.ownKind kind j hj
    · exact of_decide_eq_true (List.mem_filter.mp hj).2
  · rw [List.filter_append, h.inOrder kind, List.filter_append, List.filter_append]

theorem move (h : Books given line held) (p : Job → Bool) :
    Books given (fun kind => line kind ++ (held.filter p).filter (·.isOf kind))
      (held.filter fun job => !p job) := by
  refine ⟨fun kind => ?_, fun kind j hj => ?_, fun j hj => h.later j (List.mem_filter.mp hj).1,
    List.filter_sublist.trans h.sublist, fun kind => ?_⟩
  · have hsplit : (held.filter p).filter (·.isOf kind) ++
        (held.filter fun job => !p job).filter (·.isOf kind) ~ held.filter (·.isOf kind) := by
      rw [← List.filter_append]
      exact (List.filter_append_perm p held).filter _
    rw [List.append_assoc]
    exact (hsplit.append_left _).trans (h.balance kind)
  · rcases List.mem_append.mp hj with hj | hj
    · exact h.ownKind kind j hj
    · exact of_decide_eq_true (List.mem_filter.mp hj).2
  · have hnone : ((held.filter p).filter (·.isOf kind)).filter (·.scheduledAt.isNone) = [] := by
      rw [List.filter_eq_nil_iff]
      intro j hj
      have hheld := (List.mem_filter.mp (List.mem_filter.mp hj).1).1
      rw [h.later j hheld]
      exact Bool.false_ne_true
    rw [List.filter_append, hnone, List.append_nil]
    exact h.inOrder kind

end Books

/-! ### The books of a queue -/

namespace Queue

variable {q : Queue} {now later : Instant} {given : List Job} {taken : String → List Job}
  {kind : String} {job : Job}

/-- The jobs of a kind that were taken and those that are ready, in the order of delivery. -/
def line (taken : String → List Job) (q : Queue) (kind : String) : List Job :=
  taken kind ++ q.readyJobs kind

/-- The books of a queue balance, apart from the times at which jobs came in; and no ready job is to
be held any longer. -/
structure Accounts (given : List Job) (taken : String → List Job) (q : Queue) (now : Instant) :
    Prop where
  books : Books (given.map Job.unstamped) (fun kind => (line taken q kind).map Job.unstamped)
    (q.scheduled.map Job.unstamped)
  due : ∀ kind, ∀ job ∈ q.readyJobs kind, job.isScheduled now = false

theorem filter_unstamped {p : Job → Bool} (hp : ∀ job : Job, p job.unstamped = p job)
    (jobs : List Job) : (jobs.map Job.unstamped).filter p = (jobs.filter p).map Job.unstamped := by
  rw [List.filter_map]
  congr 1
  exact List.filter_congr fun job _ => hp job

theorem accounts_empty (now : Instant) : Accounts [] (fun _ => []) Queue.empty now :=
  ⟨Books.empty, fun _ _ h => nomatch h⟩

namespace Accounts

theorem of_le (h : Accounts given taken q now) (hle : now ≤ later) : Accounts given taken q later :=
  ⟨h.books, fun kind job hjob => Job.isScheduled_later hle (h.due kind job hjob)⟩

theorem kind_of_mem (h : Accounts given taken q now) (hj : job ∈ q.readyJobs kind) :
    job.kind = kind := by
  have hmem : job.unstamped ∈ (line taken q kind).map Job.unstamped :=
    List.mem_map_of_mem (List.mem_append_right _ hj)
  exact h.books.ownKind kind job.unstamped hmem

theorem push (h : Accounts given taken q later) (hle : now ≤ later) (job : Job) :
    Accounts (given ++ [job]) taken (q.push now (job.stamped now)) later := by
  have hone : (job.stamped now).unstamped = job.unstamped := rfl
  cases hs : (job.stamped now).isScheduled now with
  | true =>
    have hsome : job.unstamped.scheduledAt.isNone = false := by
      cases hd : job.scheduledAt with
      | none =>
        simp only [Job.isScheduled, Job.stamped, hd] at hs
        cases hs
      | some due => simp only [Job.unstamped, hd, Option.isNone_some]
    rw [push_of_scheduled hs]
    refine ⟨?_, h.due⟩
    rw [List.map_append, List.map_append]
    exact h.books.hold hsome
  | false =>
    rw [push_of_due hs]
    refine ⟨?_, fun kind j hj => ?_⟩
    · have hbooks := h.books.ready job.unstamped
      have hline (kind : String) : (line taken (q.pushReady (job.stamped now)) kind).map
          Job.unstamped = (line taken q kind).map Job.unstamped ++
            [job.unstamped].filter (·.isOf kind) := by
        have hend := filter_unstamped (p := (·.isOf kind)) (fun _ => rfl) [job.stamped now]
        rw [List.map_singleton, hone] at hend
        rw [line, readyJobs_pushReady, ← List.append_assoc, List.map_append, hend]
        rfl
      rw [List.map_append, funext hline]
      exact hbooks
    · rw [readyJobs_pushReady] at hj
      rcases List.mem_append.mp hj with hj | hj
      · exact h.due kind j hj
      · rw [List.mem_singleton.mp (List.mem_filter.mp hj).1]
        exact Job.isScheduled_later hle hs

theorem promoteDue (h : Accounts given taken q later) (hle : now ≤ later) :
    Accounts given taken (q.promoteDue now) later := by
  have hmove := h.books.move fun job => !job.isScheduled now
  refine ⟨?_, fun kind j hj => ?_⟩
  · have hline (kind : String) : (line taken (q.promoteDue now) kind).map Job.unstamped =
        (line taken q kind).map Job.unstamped ++
          ((q.scheduled.map Job.unstamped).filter fun job => !job.isScheduled now).filter
            (·.isOf kind) := by
      rw [filter_unstamped (fun _ => rfl), filter_unstamped (fun _ => rfl), line,
        readyJobs_promoteDue, ← List.append_assoc, List.map_append]
      rfl
    have hheld : (q.promoteDue now).scheduled.map Job.unstamped =
        (q.scheduled.map Job.unstamped).filter fun job => !!job.isScheduled now := by
      rw [scheduled_promoteDue, filter_unstamped (fun _ => rfl)]
      simp only [Bool.not_not]
    rw [hheld]
    simpa only [hline] using hmove
  · rw [readyJobs_promoteDue] at hj
    rcases List.mem_append.mp hj with hj | hj
    · exact h.due kind j hj
    · have hdue := (List.mem_filter.mp (List.mem_filter.mp hj).1).2
      exact Job.isScheduled_later hle (by simpa using hdue)

end Accounts

/-- A job that comes in goes to the end of the line of its kind or to no line. -/
theorem line_push (taken : String → List Job) (q : Queue) (now : Instant) (job : Job)
    (kind : String) : ∃ more, line taken (q.push now job) kind = line taken q kind ++ more ∧
      more <+ [job].filter (·.isOf kind) := by
  cases hs : job.isScheduled now with
  | true =>
    rw [push_of_scheduled hs]
    exact ⟨[], (List.append_nil _).symm, List.nil_sublist _⟩
  | false =>
    rw [push_of_due hs, line, readyJobs_pushReady, ← List.append_assoc]
    exact ⟨_, rfl, .refl _⟩

/-- Taking a job leaves the lines as they are. -/
theorem line_pop (taken : String → List Job) (q : Queue) (kind : String) :
    line (fun k => taken k ++ if k = kind then (q.pop kind).1.toList else []) (q.pop kind).2 =
      line taken q := by
  funext k
  unfold line
  rw [readyJobs_pop, pop_fst, List.append_assoc]
  by_cases hk : kind = k
  · subst hk
    rw [if_pos rfl, if_pos rfl]
    cases q.readyJobs kind <;> rfl
  · rw [if_neg (Ne.symm hk), if_neg hk, List.nil_append]

theorem Accounts.pop (h : Accounts given taken q now) (kind : String) :
    Accounts given (fun k => taken k ++ if k = kind then (q.pop kind).1.toList else [])
      (q.pop kind).2 now := by
  refine ⟨?_, fun k j hj => ?_⟩
  · rw [line_pop, scheduled_pop]
    exact h.books
  · rw [readyJobs_pop] at hj
    split at hj
    · exact h.due kind j (List.mem_of_mem_tail hj)
    · exact h.due k j hj

end Queue

end Turnstile
