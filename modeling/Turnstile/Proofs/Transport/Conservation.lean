import Turnstile.Proofs.Transport.Books
import Turnstile.Proofs.Transport.Steps

/-!
# No job is lost, doubled or misdelivered

Jobs are submitted, moved and taken in any order, while the clock goes on and the store does what it
likes. At every moment each job that was given is in one place, and each kind has a line in which its
jobs leave in the order in which they came into it.
-/

namespace Turnstile

open scoped List
open Machine Thread

/-- Time passes, and nobody else touches the queue. The store may change and fail in any way. -/
structure Machine.Waits (s s' : Machine) : Prop where
  clock : s.clock ≤ s'.clock
  queue : s'.queue = s.queue

namespace Machine

theorem waits_of_called {c : StoreCall} {s s' : Machine} (h : Called c s s') : Waits s s' :=
  ⟨le_of_eq h.clock.symm, h.queue⟩

instance : Freeing Waits where
  refl _ := ⟨le_refl _, rfl⟩
  trans _ _ _ h h' := ⟨h.clock.trans h'.clock, h'.queue.trans h.queue⟩
  logged h := ⟨le_of_eq h.clock.symm, h.queue⟩
  reads _ h := waits_of_called h
  frees _ h := waits_of_called h

end Machine

/-! ### Requests and what came of them -/

namespace Passage

variable {Q ρ : Type} {lt : LocalTransport} {s s' s'' : Machine} {kind : String}

/-- What a request to the transport has done. -/
inductive Event
  | given (jobs : List Job)
  | promoted
  | taken (kind : String) (job : Option Job)

def Event.jobs : Event → List Job
  | given jobs => jobs
  | _ => []

def Event.answers : Event → String → List Job
  | taken kind job, k => if k = kind then job.toList else []
  | _, _ => []

def given (h : List Event) : List Job := h.flatMap Event.jobs

def taken (h : List Event) (kind : String) : List Job := h.flatMap fun e => e.answers kind

inductive Request
  | submit (sub : Submission)
  | promoteDue
  | dequeue (kind : String)

namespace Request

def thread (lt : LocalTransport) : Request → Thread Q ρ Event
  | submit sub => do
    let _ ← (sub.submit lt.toTransport).run
    return .given sub.jobs
  | promoteDue => do
    let _ ← Turnstile.promoteDue
    return .promoted
  | dequeue kind => do
    let job ← Turnstile.dequeue kind
    return .taken kind job

/-- What a request may have done at some moment of its course. -/
inductive Part : Request → Event → Prop
  | submit {sub : Submission} {jobs : List Job} (h : jobs <+: sub.jobs) :
      Part (.submit sub) (.given jobs)
  | promoteDue : Part .promoteDue .promoted
  | dequeue {kind : String} (job : Option Job) : Part (.dequeue kind) (.taken kind job)

end Request

/-- The runs of a transport that is empty at first: one request after the other, while time passes. -/
inductive Run (lt : LocalTransport) : List Event → Machine → Prop
  | start {s : Machine} (hs : s.queue = Queue.empty) : Run lt [] s
  | request {h : List Event} {s s' : Machine} {e : Event} (r : Request) (hr : Run lt h s)
      (hc : Reaches Waits (r.thread lt : Thread Empty Empty Event) s (.done e) s') :
      Run lt (h ++ [e]) s'

/-! ### What is kept -/

def Kept (h : List Event) (s : Machine) : Prop :=
  Queue.Accounts (given h) (taken h) s.queue s.clock

def lineOf (h : List Event) (s : Machine) (kind : String) : List Job :=
  Queue.line (taken h) s.queue kind

/-- What a request has done to the lines in the end, and what it has answered. -/
def Request.Spec (h : List Event) (s : Machine) : Request → Event → Machine → Prop
  | .submit sub, e, s' => e = .given sub.jobs ∧ ∀ kind, ∃ added,
      lineOf (h ++ [e]) s' kind = lineOf h s kind ++ added ∧
        added.map Job.unstamped <+ (sub.jobs.filter (·.isOf kind)).map Job.unstamped
  | .promoteDue, e, s' => e = .promoted ∧ ∃ now, s.clock ≤ now ∧ now ≤ s'.clock ∧ ∀ kind,
      lineOf (h ++ [e]) s' kind = lineOf h s kind ++ (s.queue.dueJobs now).filter (·.isOf kind)
  | .dequeue kind, e, s' => ∃ job now, e = .taken kind job ∧ s.clock ≤ now ∧ now ≤ s'.clock ∧
      (∀ k, lineOf (h ++ [e]) s' k = lineOf h s k ++ (s.queue.dueJobs now).filter (·.isOf k)) ∧
      (∀ j, job = some j → j.kind = kind ∧ ∀ due, j.scheduledAt = some due → due ≤ now) ∧
      (job = none → s.queue.readyJobs kind = [] ∧
        ∀ j ∈ s.queue.scheduled, j.kind = kind → ∃ due, j.scheduledAt = some due ∧ now < due)

variable {h : List Event} {e : Event}

theorem given_append (h : List Event) (e : Event) : given (h ++ [e]) = given h ++ e.jobs := by
  simp only [given, List.flatMap_append, List.flatMap_singleton]

theorem taken_append (h : List Event) (e : Event) :
    taken (h ++ [e]) = fun kind => taken h kind ++ e.answers kind := by
  funext kind
  simp only [taken, List.flatMap_append, List.flatMap_singleton]

theorem kept_append_iff : Kept (h ++ [e]) s ↔ Queue.Accounts (given h ++ e.jobs)
    (fun kind => taken h kind ++ e.answers kind) s.queue s.clock := by
  rw [Kept, given_append, taken_append]

theorem Kept.append (hk : Kept h s) (hj : e.jobs = []) (ha : ∀ kind, e.answers kind = []) :
    Kept (h ++ [e]) s := by
  rw [kept_append_iff, hj, List.append_nil]
  simp only [ha, List.append_nil]
  exact hk

theorem lineOf_append (ha : ∀ kind, e.answers kind = []) :
    lineOf (h ++ [e]) s kind = lineOf h s kind := by
  simp only [lineOf, taken_append, ha, List.append_nil]

theorem Kept.waits (hk : Kept h s) (hw : Waits s s') : Kept h s' := by
  unfold Kept
  rw [hw.queue]
  exact Queue.Accounts.of_le hk hw.clock

theorem lineOf_waits (hw : Waits s s') : lineOf h s' kind = lineOf h s kind := by
  rw [lineOf, hw.queue]
  rfl

/-! ### Each request -/

theorem ensures_promoteDue_kept (hk : Kept h s) :
    Ensures Waits (fun s' => ∃ e, Request.promoteDue.Part e ∧ Kept (h ++ [e]) s')
      (Request.promoteDue.thread lt : Thread Q ρ Event)
      (fun e s' => Kept (h ++ [e]) s' ∧ Request.promoteDue.Spec h s e s') s := by
  have hpart {s' : Machine} (hk' : Kept h s') :
      ∃ e, Request.promoteDue.Part e ∧ Kept (h ++ [e]) s' :=
    ⟨_, .promoteDue, hk'.append rfl fun _ => rfl⟩
  refine ensures_bind (ensures_promoteDue fun s₁ hr₁ s₂ hr₂ => ?_)
  have hk₂ := (hk.waits hr₁).waits hr₂
  have hmoved : Kept h { s₂ with queue := s₂.queue.promoteDue s₁.clock } :=
    Queue.Accounts.promoteDue hk₂ hr₂.clock
  refine ⟨hpart hk₂, fun s₃ hr₃ => ⟨hpart (hmoved.waits hr₃), fun _ => ?_⟩⟩
  refine ensures_done fun s₄ hr₄ => ?_
  have hr := trans_of Waits hr₃ hr₄
  have hclock : s₁.clock ≤ s₄.clock := hr₂.clock.trans hr.clock
  refine ⟨hpart (hmoved.waits hr), (hmoved.waits hr).append rfl fun _ => rfl, rfl, s₁.clock,
    hr₁.clock, hclock, fun kind => ?_⟩
  rw [lineOf_append fun _ => rfl, lineOf_waits hr, lineOf, Queue.line, Queue.readyJobs_promoteDue,
    ← List.append_assoc]
  rw [lineOf, Queue.line, hr₂.queue, hr₁.queue]
  rfl

theorem ensures_dequeue_kept (hk : Kept h s) :
    Ensures Waits (fun s' => ∃ e, (Request.dequeue kind).Part e ∧ Kept (h ++ [e]) s')
      ((Request.dequeue kind).thread lt : Thread Q ρ Event)
      (fun e s' => Kept (h ++ [e]) s' ∧ (Request.dequeue kind).Spec h s e s') s := by
  -- up to the moment of the removal nothing is taken
  have hpart {s' : Machine} (hk' : Kept h s') :
      ∃ e, (Request.dequeue kind).Part e ∧ Kept (h ++ [e]) s' :=
    ⟨_, .dequeue none, hk'.append rfl fun k => ite_self _⟩
  refine ensures_bind (ensures_dequeue fun s₁ hr₁ s₂ hr₂ => ?_)
  have hk₁ := hk.waits hr₁
  refine ⟨hpart (hk₁.waits hr₂), fun s₃ hr₃ => ?_⟩
  have hq₃ : s₃.queue = s.queue.promoteDue s₁.clock := by
    rw [hr₃.queue, hr₂.queue, hr₁.queue]
  have hclock : s₁.clock ≤ s₃.clock := hr₂.clock.trans hr₃.clock
  have hnow : Queue.Accounts (given h) (taken h) s₃.queue s₁.clock := by
    rw [hq₃, ← hr₁.queue]
    exact Queue.Accounts.promoteDue hk₁ (le_refl _)
  have hk₃ : Kept h s₃ := hnow.of_le hclock
  refine ⟨hpart hk₃, fun s₄ hr₄ => ?_⟩
  have hk₄ : Kept (h ++ [.taken kind (s₃.queue.pop kind).1])
      { s₃ with queue := (s₃.queue.pop kind).2 } := by
    have hpop := Queue.Accounts.pop hk₃ kind
    rw [← List.append_nil (given h)] at hpop
    exact kept_append_iff.mpr hpop
  refine ⟨⟨_, .dequeue _, hk₄.waits hr₄⟩, ?_⟩
  refine ensures_done fun s₅ hr₅ => ?_
  have hr := trans_of Waits hr₄ hr₅
  refine ⟨⟨_, .dequeue _, hk₄.waits hr⟩, hk₄.waits hr, (s₃.queue.pop kind).1, s₁.clock, rfl,
    hr₁.clock, hclock.trans hr.clock, fun k => ?_, fun j hj => ?_, fun hnone => ?_⟩
  · have hline := congrFun (Queue.line_pop (taken h) s₃.queue kind) k
    rw [lineOf_waits hr, lineOf, taken_append]
    refine hline.trans ?_
    rw [Queue.line, hq₃, Queue.readyJobs_promoteDue, ← List.append_assoc]
    rfl
  · rw [Queue.pop_fst] at hj
    have hmem := List.mem_of_mem_head? (Option.mem_def.mpr hj)
    refine ⟨hnow.kind_of_mem hmem, fun due hdue => ?_⟩
    have hready := hnow.due kind j hmem
    rw [Job.isScheduled, hdue, decide_eq_false_iff_not] at hready
    exact not_lt.mp hready
  · rw [Queue.pop_fst, List.head?_eq_none_iff, hq₃, Queue.readyJobs_promoteDue,
      List.append_eq_nil_iff] at hnone
    refine ⟨hnone.1, fun j hj hkind => ?_⟩
    have hheld : j.isScheduled s₁.clock = true := by
      by_contra hn
      have hfree : j.isScheduled s₁.clock = false := eq_false_of_ne_true hn
      have hmem : j ∈ (s.queue.dueJobs s₁.clock).filter fun job => job.kind = kind := by
        simp [Queue.dueJobs, hj, hkind, hfree]
      rw [hnone.2] at hmem
      exact List.not_mem_nil hmem
    exact Job.isScheduled_iff.mp hheld

/-- Some jobs of a submission are in, each at the end of the line of its kind or held. -/
structure Submitted (h : List Event) (s : Machine) (done : List Job) (s' : Machine) : Prop where
  kept : Kept (h ++ [.given done]) s'
  lines : ∀ kind, ∃ added, lineOf (h ++ [.given done]) s' kind = lineOf h s kind ++ added ∧
    added.map Job.unstamped <+ (done.filter (·.isOf kind)).map Job.unstamped

namespace Submitted

variable {done : List Job}

theorem nil (hk : Kept h s) : Submitted h s [] s :=
  ⟨hk.append rfl fun _ => rfl, fun kind =>
    ⟨[], by rw [lineOf_append fun _ => rfl, List.append_nil], List.nil_sublist _⟩⟩

theorem waits (hs : Submitted h s done s') (hw : Waits s' s'') : Submitted h s done s'' := by
  refine ⟨hs.kept.waits hw, fun kind => ?_⟩
  rw [lineOf_waits hw]
  exact hs.lines kind

theorem push {now : Instant} (hs : Submitted h s done s') (hle : now ≤ s'.clock) (job : Job) :
    Submitted h s (done ++ [job]) { s' with queue := s'.queue.push now (job.stamped now) } := by
  have htaken (jobs : List Job) : taken (h ++ [.given jobs]) = taken h := by
    rw [taken_append]
    funext kind
    exact List.append_nil _
  constructor
  · have hk := kept_append_iff.mp hs.kept
    have hpush := hk.push hle job
    rw [List.append_assoc] at hpush
    exact kept_append_iff.mpr hpush
  · intro kind
    obtain ⟨added, hline, hadded⟩ := hs.lines kind
    obtain ⟨more, hmore, hsub⟩ :=
      Queue.line_push (taken h) s'.queue now (job.stamped now) kind
    refine ⟨added ++ more, ?_, ?_⟩
    · rw [lineOf, htaken] at hline
      rw [lineOf, htaken, hmore, hline, List.append_assoc]
    · have hone : ([job.stamped now].filter (·.isOf kind)).map Job.unstamped =
          ([job].filter (·.isOf kind)).map Job.unstamped := by
        rw [← Queue.filter_unstamped fun _ => rfl, ← Queue.filter_unstamped fun _ => rfl]
        rfl
      have hlast := hsub.map Job.unstamped
      rw [hone] at hlast
      rw [List.map_append, List.filter_append, List.map_append]
      exact hadded.append hlast

end Submitted

theorem ensures_submit_kept (sub : Submission) (hk : Kept h s) :
    Ensures Waits (fun s' => ∃ e, (Request.submit sub).Part e ∧ Kept (h ++ [e]) s')
      ((Request.submit sub).thread lt : Thread Q ρ Event)
      (fun e s' => Kept (h ++ [e]) s' ∧ (Request.submit sub).Spec h s e s') s := by
  have hpart {done rest : List Job} {s' : Machine} (hjobs : sub.jobs = done ++ rest)
      (hs : Submitted h s done s') : ∃ e, (Request.submit sub).Part e ∧ Kept (h ++ [e]) s' :=
    ⟨_, .submit ⟨rest, hjobs.symm⟩, hs.kept⟩
  -- the jobs that are left are the rest of the submission
  refine ensures_bind (LocalTransport.ensures_submit
    (I := fun rest s' => ∃ done, sub.jobs = done ++ rest ∧ Submitted h s done s') ?_ ?_
    ⟨[], rfl, .nil hk⟩)
  · rintro job rest s' ⟨done, hjobs, hs⟩
    have hnext : sub.jobs = (done ++ [job]) ++ rest := by
      rw [hjobs, List.append_assoc, List.singleton_append]
    refine LocalTransport.ensures_push (T := Waits) (fun _ _ => id)
      (LocalTransport.within_markLive (fun s c _ _ => waits_of_called (called_callStore s c)) lt)
      fun s₁ hr₁ s₂ hr₂ => ?_
    have hs₂ := (hs.waits hr₁).waits hr₂
    refine ⟨hpart hjobs hs₂, fun s₃ hr₃ => ?_⟩
    have hs₃ := (hs₂.push hr₂.clock job).waits hr₃
    exact ⟨hpart hnext hs₃, _, hnext, hs₃⟩
  · rintro s₁ ⟨done, hjobs, hs⟩ s₂ hr₂
    rw [List.append_nil] at hjobs
    subst hjobs
    have hs₂ := hs.waits hr₂
    refine ⟨hpart (List.append_nil _).symm hs₂, fun _ => ensures_done fun s₃ hr₃ => ?_⟩
    have hs₃ := hs₂.waits hr₃
    exact ⟨hpart (List.append_nil _).symm hs₃, hs₃.kept, rfl, hs₃.lines⟩

theorem ensures_request (r : Request) (hk : Kept h s) :
    Ensures Waits (fun s' => ∃ e, r.Part e ∧ Kept (h ++ [e]) s') (r.thread lt : Thread Q ρ Event)
      (fun e s' => Kept (h ++ [e]) s' ∧ r.Spec h s e s') s := by
  cases r with
  | submit sub => exact ensures_submit_kept sub hk
  | promoteDue => exact ensures_promoteDue_kept hk
  | dequeue kind => exact ensures_dequeue_kept hk

theorem Run.kept (hr : Run lt h s) : Kept h s := by
  induction hr with
  | @start s hs =>
    unfold Kept
    rw [hs]
    exact Queue.accounts_empty s.clock
  | request r hr hc ih => exact ((ensures_request r ih).of_reaches hc _ (refl_of Waits _)).2.1

/-- The accounts are right after every run and at every moment of the next request, and when it comes to
its end the request has done to the lines what it should. A promotion is one step here: while due jobs
go from the schedule to their lines there is no moment at which they are looked for. -/
theorem kept_of_run (lt : LocalTransport) (h : List Event) (s : Machine) (hr : Run lt h s) :
    Kept h s ∧ ∀ (r : Request) (y : Thread Empty Empty Event) (s' : Machine),
      Reaches Waits (r.thread lt) s y s' →
        (∃ e, r.Part e ∧ Kept (h ++ [e]) s') ∧
          ∀ e, y = .done e → Kept (h ++ [e]) s' ∧ r.Spec h s e s' := by
  refine ⟨hr.kept, fun r y s' hc => ?_⟩
  have hensures := (ensures_request (Q := Empty) (ρ := Empty) r hr.kept).of_reaches hc
  refine ⟨hensures.moment, fun e he => ?_⟩
  subst he
  exact (hensures s' (refl_of Waits s')).2

/-- Two jobs come in while no status can be written, the first one not to be run before the fifth
nanosecond. At that time the other one leaves first, and the first one has become ready. -/
theorem kept_of_run_of_two :
    let lt : LocalTransport := { liveness := some ⟨⟨5⟩⟩ }
    let held : Job := { Job.create "k" [] "1" with scheduledAt := some ⟨0, 5⟩ }
    let free : Job := Job.create "k" [] "2"
    let r : Request := .dequeue "k"
    ∃ s e s', Run lt [.given [held, free]] s ∧
      Reaches Waits (r.thread lt : Thread Empty Empty Event) s (.done e) s' ∧
      Kept [.given [held, free], e] s' ∧ r.Spec [.given [held, free]] s e s' ∧
      (e.answers "k").map Job.id = ["2"] ∧ (s'.queue.readyJobs "k").map Job.id = ["1"] := by
  intro lt held free r
  let down : Fault := .ofCode .storeError "down"
  let s₀ := (Machine.ofClock ⟨0, 0⟩).addPlan "set_if_absent" ⟨0, 2, .fail down⟩
  let sub : Request := .submit (.batch [held, free])
  let s₁ := ((sub.thread lt : Thread Empty Empty Event).drive s₀).2
  let s : Machine := { s₁ with clock := ⟨0, 5⟩ }
  have hdone : ((sub.thread lt : Thread Empty Empty Event).drive s₀).1 =
      .done (.given [held, free]) := rfl
  have hcourse := reaches_drive (R := Waits) (sub.thread lt : Thread Empty Empty Event) s₀
  rw [hdone] at hcourse
  have hlater : Waits s₁ s := ⟨by decide, rfl⟩
  have hrun : Run lt [.given [held, free]] s := .request sub (.start rfl) (hcourse.meanwhile hlater)
  have hend := reaches_drive (R := Waits) (r.thread lt : Thread Empty Empty Event) s
  have hensures : Ensures Waits _ (r.thread lt : Thread Empty Empty Event) _ s :=
    ensures_request r hrun.kept
  obtain ⟨e, s', hd, _⟩ := hensures.drive
  have htaken : ((r.thread lt : Thread Empty Empty Event).drive s).1.answer?.map
      (fun e => (e.answers "k").map Job.id) = some ["2"] := by decide +kernel
  have hready : (((r.thread lt : Thread Empty Empty Event).drive s).2.queue.readyJobs "k").map
      Job.id = ["1"] := by decide +kernel
  rw [hd] at hend htaken hready
  obtain ⟨hk, hspec⟩ := ((kept_of_run lt _ s hrun).2 r _ s' hend).2 e rfl
  exact ⟨s, e, s', hrun, hend, hk, hspec, Option.some.inj htaken, hready⟩

end Passage

end Turnstile
