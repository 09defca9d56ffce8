import Turnstile.Proofs.Simulation.Names
import Turnstile.Proofs.Transport.Steps
import Turnstile.Proofs.Worker.Capacity
import Turnstile.Proofs.Worker.Dispatch

/-!
# Fan-out and re-submission

A job that has succeeded submits one more job. As long as nobody else submits or registers jobs of the
kind, those that run and those that wait are together never more than may run, or than there were at
first, over any number of fan-outs and dispatches.
-/

namespace Turnstile

open scoped List
open Machine Thread

namespace Machine

variable {s s' s'' : Machine} {kind id : String} {c : StoreCall} {bound reserve : Nat}

def Unscheduled (s : Machine) (kind : String) : Prop := ∀ job ∈ s.queue.scheduled, job.kind ≠ kind

/-- What may happen besides the worker: no job of the kind is submitted or registered. -/
structure Eases (kind : String) (s s' : Machine) : Prop where
  issued : s.issued ≤ s'.issued
  thins : Thins kind s s'
  unscheduled : s.Unscheduled kind → s'.Unscheduled kind
  ready : s.Unscheduled kind → s'.queue.readyJobs kind <+ s.queue.readyJobs kind

theorem Eases.of_queue (hi : s.issued ≤ s'.issued) (ht : Thins kind s s')
    (hq : s'.queue = s.queue) : Eases kind s s' := by
  refine ⟨hi, ht, fun hu => ?_, fun _ => ?_⟩
  · unfold Unscheduled
    rw [hq]
    exact hu
  · rw [hq]

theorem eases_of_called (h : Called c s s')
    (hc : ∀ text ttl, c ≠ .setAdd (RunningSet.keyOf kind) text ttl) : Eases kind s s' :=
  .of_queue (Nat.le_of_eq h.issued.symm) (thins_of_called h hc) h.queue

instance : Freeing (Eases kind) where
  refl s := .of_queue (Nat.le_refl _) (refl_of (Thins kind) s) rfl
  trans _ _ _ h h' := ⟨h.issued.trans h'.issued, trans_of (Thins kind) h.thins h'.thins,
    fun hu => h'.unscheduled (h.unscheduled hu),
    fun hu => (h'.ready (h.unscheduled hu)).trans (h.ready hu)⟩
  logged h := .of_queue (Nat.le_of_eq h.issued.symm) (Lenient.logged h) h.queue
  reads hc h := .of_queue (Nat.le_of_eq h.issued.symm) (Lenient.reads hc h) h.queue
  frees hc h := .of_queue (Nat.le_of_eq h.issued.symm) (Freeing.frees hc h) h.queue

/-- Jobs of the kind that run or wait, and a reserve for more, do not exceed a bound. -/
structure Fits (kind : String) (bound reserve : Nat) (s : Machine) : Prop where
  quiet : s.Quiet
  unscheduled : s.Unscheduled kind
  total : (s.members kind).length + (s.queue.readyJobs kind).length + reserve ≤ bound

theorem Fits.eases (h : Fits kind bound reserve s) (he : Eases kind s s') :
    Fits kind bound reserve s' := by
  obtain ⟨hq, hm⟩ := he.thins h.quiet
  have hready := (he.ready h.unscheduled).length_le
  have hmembers := hm.length_le
  have htotal := h.total
  exact ⟨hq, he.unscheduled h.unscheduled, by omega⟩

theorem Fits.mono {reserve' : Nat} (h : Fits kind bound reserve s) (hr : reserve' ≤ reserve) :
    Fits kind bound reserve' s := by
  have htotal := h.total
  exact ⟨h.quiet, h.unscheduled, by omega⟩

theorem Fits.start (h : Fits kind bound reserve s) : Fits kind bound 0 s := h.mono (Nat.zero_le _)

theorem fits_of_queue {q : Queue} (hq : s.Quiet) (hu : ∀ job ∈ q.scheduled, job.kind ≠ kind)
    (ht : (s.members kind).length + (q.readyJobs kind).length + reserve ≤ bound) :
    Fits kind bound reserve { s with queue := q } := ⟨hq, hu, ht⟩

end Machine

variable {Q ρ : Type} {kind id : String} {most : Int} {bound reserve : Nat} {s : Machine}
  {lt : LocalTransport} {job : Job} {w : Worker (Thread Q ρ)} {d : Dispatcher (Thread Q ρ)}
  {args : List Json}

/-! ### The queue -/

theorem LocalTransport.ensures_push_fits (hn : job.scheduledAt = none)
    (h : Fits kind bound (reserve + 1) s) :
    Ensures (Eases kind) (Fits kind bound 0) (lt.push job : Thread Q ρ String)
      (fun _ => Fits kind bound reserve) s := by
  have hlive : Within (Eases kind) (lt.markLive job.id : Thread Q ρ Unit) :=
    within_markLive (fun s c _ hc => eases_of_called (called_callStore s c) (hc _)) lt
  refine ensures_push_unscheduled hn (fun _ _ => id) hlive fun s₁ hr₁ s₂ hr₂ => ?_
  have h₂ := h.eases (trans_of (Eases kind) hr₁ hr₂)
  refine ⟨h₂.start, fun s₃ hr₃ => ?_⟩
  have hpushed : Fits kind bound reserve
      { s₂ with queue := s₂.queue.pushReady (job.stamped s₁.clock) } := by
    refine fits_of_queue h₂.quiet h₂.unscheduled ?_
    have htotal := h₂.total
    have hone := List.length_filter_le (fun j : Job => decide (j.kind = kind))
      [job.stamped s₁.clock]
    rw [List.length_singleton] at hone
    rw [Queue.readyJobs_pushReady, List.length_append]
    omega
  have h₃ := hpushed.eases hr₃
  exact ⟨h₃.start, h₃⟩

theorem ensures_dequeue_fits (h : Fits kind bound 0 s) :
    Ensures (Eases kind) (Fits kind bound 0) (dequeue kind : Thread Q ρ (Option Job))
      (fun job => Fits kind bound (if job.isSome then 1 else 0)) s := by
  refine ensures_dequeue fun s₁ hr₁ s₂ hr₂ => ?_
  have h₂ := (h.eases hr₁).eases hr₂
  refine ⟨h₂, fun s₃ hr₃ => ?_⟩
  have hmoved : Eases kind s₂ { s₂ with queue := s₂.queue.promoteDue s₁.clock } := by
    refine ⟨Nat.le_refl _, fun hq => ⟨hq, .refl _⟩, fun hu job hj => ?_, fun hu => ?_⟩
    · rw [Queue.scheduled_promoteDue] at hj
      exact hu job (List.mem_filter.mp hj).1
    · rw [Queue.readyJobs_promoteDue, Queue.dueJobs_filter_of_none hu, List.append_nil]
  have h₃ := (h₂.eases hmoved).eases hr₃
  refine ⟨h₃, fun s₄ hr₄ => ?_⟩
  have hpopped : Fits kind bound (if (s₃.queue.pop kind).1.isSome then 1 else 0)
      { s₃ with queue := (s₃.queue.pop kind).2 } := by
    refine fits_of_queue h₃.quiet ?_ ?_
    · rw [Queue.scheduled_pop]
      exact h₃.unscheduled
    · have htotal := h₃.total
      rw [Queue.readyJobs_pop, if_pos rfl, Queue.pop_fst]
      cases hjobs : s₃.queue.readyJobs kind with
      | nil =>
        rw [hjobs, List.length_nil] at htotal
        exact htotal
      | cons job rest =>
        rw [hjobs, List.length_cons] at htotal
        simp only [List.tail_cons, List.head?_cons, Option.isSome_some, if_true]
        omega
  have h₄ := hpopped.eases hr₄
  exact ⟨h₄.start, h₄⟩

/-! ### One job -/

/-- A job may be registered: without it, there is room for one more. -/
structure Machine.Runs (kind : String) (bound : Nat) (id : String) (s : Machine) : Prop
    extends Fits kind bound 0 s where
  others : ((s.members kind).filter (· ≠ id)).length + (s.queue.readyJobs kind).length + 1 ≤ bound

theorem Machine.Runs.eases {s' : Machine} (h : Runs kind bound id s) (he : Eases kind s s') :
    Runs kind bound id s' := by
  obtain ⟨_, hm⟩ := he.thins h.quiet
  have hready := (he.ready h.unscheduled).length_le
  have hmembers := (hm.filter (· ≠ id)).length_le
  have hothers := h.others
  exact ⟨h.toFits.eases he, by omega⟩

theorem Machine.Fits.registered {ttl : Duration} (h : Fits kind bound 1 s) :
    Runs kind bound id (s.callStore (.setAdd (RunningSet.keyOf kind) id ttl)).2 := by
  have hcalled := called_callStore s (.setAdd (RunningSet.keyOf kind) id ttl)
  have hm := MemoryStore.membersAt_setAdd s.store s.clock (RunningSet.keyOf kind) id ttl
  rw [← hcalled.members h.quiet] at hm
  change _ <+ s.members kind ++ [id] at hm
  have htotal := h.total
  have hlength := hm.length_le
  rw [List.length_append, List.length_singleton] at hlength
  have hfilter := (hm.filter (· ≠ id)).length_le
  have hself : [id].filter (fun text => decide (text ≠ id)) = [] := by simp
  rw [List.filter_append, hself, List.append_nil] at hfilter
  have hothers := List.length_filter_le (fun text => decide (text ≠ id)) (s.members kind)
  refine ⟨⟨hcalled.quiet h.quiet, ?_, ?_⟩, ?_⟩
  · unfold Unscheduled
    rw [hcalled.queue]
    exact h.unscheduled
  · rw [hcalled.queue]
    omega
  · rw [hcalled.queue]
    omega

theorem Machine.Runs.removed (h : Runs kind bound id s) :
    Fits kind bound 1 (s.callStore (.setRemove (RunningSet.keyOf kind) [id])).2 := by
  have hcalled := called_callStore s (.setRemove (RunningSet.keyOf kind) [id])
  have hm := MemoryStore.membersAt_remove s.store s.clock (RunningSet.keyOf kind) id
  rw [← hcalled.members h.quiet] at hm
  have hlength := hm.length_le
  have hothers := h.others
  refine ⟨hcalled.quiet h.quiet, ?_, ?_⟩
  · unfold Unscheduled
    rw [hcalled.queue]
    exact h.unscheduled
  · rw [hcalled.queue]
    change _ ≤ ((s.members kind).filter (· ≠ id)).length at hlength
    omega

namespace Worker

section

variable (hw : w.Stays kind most (Eases kind)) (ht : w.transport = lt.toTransport)

include hw

theorem ensures_registerRunning (h : Fits kind bound 1 s) :
    Ensures (Eases kind) (Fits kind bound 0) (w.registerRunning id)
      (fun _ => Runs kind bound id) s := by
  have hkey : w.running.key = RunningSet.keyOf kind := congrArg RunningSet.keyOf hw.runningKind
  have hadd : Ensures (Eases kind) (Fits kind bound 0)
      (callStore (.setAdd w.running.key id w.running.entryTtl) : Attempt (Thread Q ρ) Bool).run
      (fun _ => Runs kind bound id) s := by
    rw [hkey]
    refine ensures_callStore fun s₁ hr₁ => ?_
    have h₁ := h.eases hr₁
    refine ⟨h₁.start, fun s₂ hr₂ => ?_⟩
    have h₂ := h₁.registered.eases hr₂
    exact ⟨h₂.toFits, h₂⟩
  refine Ensures.orNote (hadd.run_bind_within fun _ => ?_) _ _
  cases hp : w.running.probe with
  | none => exact .done _
  | some p => exact (hw.probe p hp).started id

theorem ensures_removeRunning (h : Runs kind bound id s) :
    Ensures (Eases kind) (Fits kind bound 0) (w.removeRunning id)
      (fun _ => Fits kind bound 1) s := by
  have hkey : w.running.key = RunningSet.keyOf kind := congrArg RunningSet.keyOf hw.runningKind
  have hremove : Ensures (Eases kind) (Fits kind bound 0)
      (callStore (.setRemove w.running.key [id]) : Attempt (Thread Q ρ) Nat).run
      (fun _ => Fits kind bound 1) s := by
    rw [hkey]
    refine ensures_callStore fun s₁ hr₁ => ?_
    have h₁ := h.eases hr₁
    refine ⟨h₁.toFits, fun s₂ hr₂ => ?_⟩
    have h₂ := h₁.removed.eases hr₂
    exact ⟨h₂.start, h₂⟩
  refine Ensures.orNote (hremove.run_bind_within fun _ => ?_) _ _
  cases hp : w.running.probe with
  | none => exact .done _
  | some p => exact (hw.probe p hp).finished id

theorem ensures_finish (h : Runs kind bound id s) (result : WorkEnd) :
    Ensures (Eases kind) (Fits kind bound 0) (w.finish id args result)
      (fun _ => Fits kind bound 1) s := by
  refine ensures_bind (ensures_within (within_tally (R := Eases kind) _) fun s₁ hr₁ => ?_)
  have h₁ := h.eases hr₁
  refine ⟨h₁.toFits, fun _ => ?_⟩
  exact (ensures_removeRunning hw h₁).bind_within fun _ => within_reportMetrics hw.toServes args

include ht

theorem ensures_reEnqueue [Names] (h : Fits kind bound 1 s) :
    Ensures (Eases kind) (Fits kind bound 0) (w.reEnqueue args).run
      (fun _ => Fits kind bound 0) s := by
  rw [reEnqueue_run]
  refine ensures_bind (ensures_within (hw.remaining args) fun s₁ hr₁ => ?_)
  have h₁ := h.eases hr₁
  refine ⟨h₁.start, fun left => ?_⟩
  split
  · exact ensures_done fun s₂ hr₂ => ⟨(h₁.eases hr₂).start, (h₁.eases hr₂).start⟩
  have hissue : Within (Eases kind) (MonadFresh.freshJobId : Thread Q ρ String) :=
    within_step fun s => .of_queue (Nat.le_succ _) (fun hq => ⟨hq, .refl _⟩) rfl
  refine ensures_bind (ensures_within hissue fun s₂ hr₂ => ?_)
  have h₂ := h₁.eases hr₂
  refine ⟨h₂.start, fun name => ?_⟩
  rw [ht]
  refine ensures_run_lift ((LocalTransport.ensures_push_fits rfl h₂).lasting.mono ?_)
  intro _ s₃ _ hl
  exact ensures_done hl

theorem ensures_conclude [Names] (h : Fits kind bound 1 s) (result : WorkEnd) :
    Ensures (Eases kind) (Fits kind bound 0) (w.conclude id args result).run
      (fun _ => Fits kind bound 0) s := by
  have hrest {x : Thread Q ρ (Except Halt WorkerOutcome)} (hx : Within (Eases kind) x) :
      Ensures (Eases kind) (Fits kind bound 0) x (fun _ => Fits kind bound 0) s :=
    ensures_within hx fun s' hr => ⟨(h.eases hr).start, fun _ => (h.eases hr).start⟩
  cases result with
  | succeeded =>
    exact (ensures_reEnqueue hw ht h).run_bind_within fun _ => .done _
  | failed e =>
    unfold conclude
    simp only [run_bind_liftM]
    exact hrest ((within_tally _).bind fun _ => (within_note _).bind fun _ => .done _)
  | panicked => exact hrest (.done _)

theorem ensures_start [Names] (h : Fits kind bound 1 s) :
    Ensures (Eases kind) (Fits kind bound 0) (w.start id args) (fun _ => Fits kind bound 0) s := by
  unfold start
  refine ensures_bind ((ensures_registerRunning hw h).mono fun _ s₁ _ h₁ => ?_)
  refine ensures_bind (ensures_within (hw.work args) fun s₂ hr₂ => ?_)
  have h₂ := h₁.eases hr₂
  refine ⟨h₂.toFits, fun result => ?_⟩
  refine ensures_bind ((ensures_finish hw h₂ result).mono fun _ s₃ _ h₃ => ?_)
  exact ensures_conclude hw ht h₃ result

theorem ensures_perform [Names] (h : Fits kind bound 1 s) :
    Ensures (Eases kind) (Fits kind bound 0) (w.perform id args).run
      (fun _ => Fits kind bound 0) s := by
  rw [perform_run]
  refine ensures_bind (ensures_within (within_hasCapacity hw.toServes) fun s₁ hr₁ => ?_)
  have h₁ := h.eases hr₁
  refine ⟨h₁.start, fun room => ?_⟩
  split
  · exact ensures_start hw ht h₁
  · refine ensures_within ((within_skip hw id args).bind fun _ => .done _) fun s₂ hr₂ => ?_
    have h₂ := h₁.eases hr₂
    exact ⟨h₂.start, fun _ => h₂.start⟩

theorem ensures_runNext [Names] (hd : d.handlers.get? kind = some w.handle) (h : Fits kind bound 0 s) :
    Ensures (Eases kind) (Fits kind bound 0) (d.runNext kind).run
      (fun _ => Fits kind bound 0) s := by
  refine Dispatcher.ensures_runNext hd fun s₁ hr₁ => ?_
  refine Dispatcher.ensures_dispatchTo (ensures_dequeue_fits (h.eases hr₁)) ?_ ?_
  · intro s₂ h₂
    exact ensures_done fun s₃ hr₃ => ⟨h₂.eases hr₃, h₂.eases hr₃⟩
  · intro job s₂ h₂
    have hexecute : Ensures (Eases kind) (Fits kind bound 0) (d.execute w.handle job)
        (fun _ => Fits kind bound 0) s₂ := by
      refine Dispatcher.ensures_execute fun s₃ hr₃ => ?_
      exact (ensures_perform hw ht (h₂.eases hr₃)).run_bind_within fun _ => .done _
    exact hexecute.bind_within fun outcome => Dispatcher.within_settle d job outcome

theorem ensures_fanOut_fits [Names] {count : Nat} (h : Fits kind bound count s) :
    Ensures (Eases kind) (Fits kind bound 0) (w.fanOut args count).run
      (fun _ => Fits kind bound 0) s := by
  refine ensures_fanOut
    (I := fun jobs s => Fits kind bound jobs.length s ∧ ∀ job ∈ jobs, job.scheduledAt = none)
    hw.loadKind ht (fun s => .of_queue (Nat.le_succ _) (fun hq => ⟨hq, .refl _⟩) rfl)
    (fun _ _ hr => hr.issued) (fun s' hr => (h.eases hr).start) ?_ ?_ ?_
  · intro s₁ hr₁ numbers hcount _ _
    rw [List.length_map, hcount]
    refine ⟨h.eases hr₁, fun job hjob => ?_⟩
    obtain ⟨i, _, rfl⟩ := List.mem_map.mp hjob
    rfl
  · rintro job rest s₂ ⟨h₂, hn⟩
    refine (LocalTransport.ensures_push_fits (hn job List.mem_cons_self) h₂).mono ?_
    exact fun _ s₃ _ h₃ => ⟨h₃, fun j hj => hn j (List.mem_cons_of_mem _ hj)⟩
  · rintro s₂ ⟨h₂, _⟩ s₃ hr₃
    exact ⟨h₂.eases hr₃, h₂.eases hr₃⟩

variable (hmost : most ≤ bound) (hbound : bound < 2 ^ 63)

include hmost hbound

/-- What is free counts what waits and what runs, although it does not count them at once. -/
theorem ensures_remainingCapacity_fits (h : Fits kind bound 0 s) :
    Ensures (Eases kind) (Fits kind bound 0) w.remainingCapacity
      (fun room => Fits kind bound room) s := by
  refine ensures_remainingCapacity hw.toServes ht fun s₁ hr₁ s₂ hr₂ => ?_
  have h₁ := h.eases hr₁
  have h₂ := h₁.eases hr₂
  refine ⟨h₂.quiet, h₂, fun s₃ hr₃ => ?_⟩
  have hmembers := (hr₂.thins h₁.quiet).2.length_le
  have hready := (hr₂.ready h₁.unscheduled).length_le
  have htotal₁ := h₁.total
  have htotal₂ := h₂.total
  rw [signed_of_lt (by omega), signed_of_lt (by omega)]
  have hroom : Fits kind bound
      (most - (s₂.members kind).length - (s₁.queue.readyJobs kind).length).toNat s₂ :=
    ⟨h₂.quiet, h₂.unscheduled, by omega⟩
  exact ⟨h₂.eases hr₃, hroom.eases hr₃⟩

theorem ensures_performWithCapacity [Names] (h : Fits kind bound 0 s) :
    Ensures (Eases kind) (Fits kind bound 0) (w.performWithCapacity args).run
      (fun _ => Fits kind bound 0) s := by
  rw [performWithCapacity_run]
  have hclean := within_cleanUp fun p hp => (hw.probe p hp).completed
  refine ensures_bind (ensures_within hclean fun s₁ hr₁ => ⟨h.eases hr₁, fun _ => ?_⟩)
  have h₁ := h.eases hr₁
  refine ensures_bind (ensures_within (within_reportMetrics hw.toServes args) fun s₂ hr₂ => ?_)
  have h₂ := h₁.eases hr₂
  refine ⟨h₂, fun _ => ?_⟩
  refine ensures_bind (ensures_within (hw.remaining args) fun s₃ hr₃ => ?_)
  have h₃ := h₂.eases hr₃
  refine ⟨h₃, fun left => ?_⟩
  refine ensures_bind ((ensures_remainingCapacity_fits hw ht hmost hbound h₃).mono ?_)
  exact fun room s₄ _ h₄ => ensures_fanOut_fits hw ht (h₄.mono (Nat.min_le_right _ _))

end

/-! ### Rounds -/

inductive Act
  | fanOut (args : List Json)
  | runNext

def Act.thread [Names] (w : Worker (Thread Q ρ)) (d : Dispatcher (Thread Q ρ)) (kind : String) :
    Act → Thread Q ρ Unit
  | fanOut args => do let _ ← (w.performWithCapacity args).run
  | runNext => do let _ ← (d.runNext kind).run

def rounds [Names] (w : Worker (Thread Q ρ)) (d : Dispatcher (Thread Q ρ)) (kind : String) :
    List Act → Thread Q ρ Unit
  | [] => pure ()
  | act :: rest => do
    act.thread w d kind
    rounds w d kind rest

theorem ensures_rounds [Names] (bound : Nat) (hw : w.Stays kind most (Eases kind))
    (ht : w.transport = lt.toTransport) (hd : d.handlers.get? kind = some w.handle)
    (hmost : most ≤ bound) (hbound : bound < 2 ^ 63) (acts : List Act) (h : Fits kind bound 0 s) :
    Ensures (Eases kind) (Fits kind bound 0) (rounds w d kind acts) (fun _ => Fits kind bound 0)
      s := by
  induction acts generalizing s with
  | nil => exact ensures_done fun s' hr => ⟨h.eases hr, h.eases hr⟩
  | cons act rest ih =>
    refine ensures_bind (Ensures.mono ?_ fun _ s' _ h' => ih h')
    cases act with
    | fanOut args =>
      exact (ensures_performWithCapacity hw ht hmost hbound h).bind_within
        fun _ => .done _
    | runNext =>
      exact (ensures_runNext hw ht hd h).bind_within fun _ => .done _

end Worker

end Turnstile
