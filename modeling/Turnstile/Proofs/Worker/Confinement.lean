import Turnstile.Proofs.Engine.Confined
import Turnstile.Proofs.Transport.Books
import Turnstile.Proofs.Worker.Parts
import Turnstile.Worker.Dispatcher

/-!
# The engine keeps to a kind

Every operation on a kind of jobs is confined to that kind: registering and clean-up, submitting and
marking, dispatching, and the work of workers. What is handed to the engine, such as handlers and
workloads, is supposed to be confined too.
-/

namespace Turnstile

open Machine Thread

/-- Programs that ask for the names they need. -/
abbrev Program := Thread NameSort String

variable {α : Type} {kindOf : String → String} {kind id : String} {since : Instant}

/-- Whether a call adds somebody to a set. -/
def StoreCall.adds : StoreCall → Bool
  | setAdd .. => true
  | _ => false

namespace Thread

/-- A call under a key of the kind that adds nobody to a set. -/
theorem confined_call {c : StoreCall} (hk : KeyOf kindOf kind c.key)
    (hadd : c.adds = false) :
    Confined kindOf kind since (callStore c : Attempt Program c.Answer).run
      (Succeeds fun _ => True) := by
  refine confined_callStore hk (fun id ttl h => ?_) fun _ _ => .of_forall (fun _ => trivial) _
  subst h
  cases hadd

/-- A part of a task that cannot fail. -/
theorem Confined.run_liftM_bind {β : Type} {x : Program α} {p : α → Prop} {q : Except Halt β → Prop}
    (hx : Confined kindOf kind since x p) {f : α → Task Program β}
    (hf : ∀ a, p a → Confined kindOf kind since (f a).run q) :
    Confined kindOf kind since ((liftM x : Task Program α) >>= f).run q := by
  rw [run_bind_liftM]
  exact hx.bind hf

end Thread

/-! ### Live jobs -/

namespace Liveness

theorem confined_set (hid : IdOf kindOf kind id) (ttl : Duration) :
    Confined kindOf kind since (set id ttl : Attempt Program Unit).run (Succeeds fun _ => True) := by
  refine (confined_call (c := .setIfAbsent _ _ _) (.live hid) rfl).run_bind fun stored _ => ?_
  split
  · exact (confined_call (c := .expireIfEq _ _ _) (.live hid) rfl).run_bind fun _ _ => confined_ok trivial
  · exact confined_ok trivial

theorem confined_unset (hid : IdOf kindOf kind id) :
    Confined kindOf kind since (unset id : Attempt Program Unit).run (Succeeds fun _ => True) :=
  (confined_call (c := .delete _) (.live hid) rfl).run_bind fun _ _ => confined_ok trivial

theorem confined_completed {ids : List String} (hids : ∀ id ∈ ids, IdOf kindOf kind id) :
    Confined kindOf kind since (completed ids : Attempt Program (List String)).run
      (Succeeds fun _ => True) := by
  induction ids with
  | nil => exact confined_ok trivial
  | cons id rest ih =>
    obtain ⟨hid, hrest⟩ := List.forall_mem_cons.mp hids
    have hlive : Confined kindOf kind since (isLive id : Attempt Program Bool).run
        (Succeeds fun _ => True) :=
      (confined_call (c := .get _) (.live hid) rfl).run_bind fun _ _ => confined_ok trivial
    exact hlive.run_bind fun live _ => (ih hrest).run_bind fun more _ => confined_ok trivial

theorem confined_started (l : Liveness) (hid : IdOf kindOf kind id) :
    Confined kindOf kind since (l.started id : Attempt Program Unit).run
      (Succeeds fun _ => True) :=
  (confined_call (c := .setIfAbsent _ _ _) (.live hid) rfl).run_bind fun _ _ => confined_ok trivial

end Liveness

/-! ### Running sets -/

/-- A probe that keeps to the ids that it is asked about. -/
structure Probe.Keeps (kindOf : String → String) (kind : String) (since : Instant)
    (p : Probe Program) : Prop where
  completed : ∀ ids, (∀ id ∈ ids, IdOf kindOf kind id) →
    Confined kindOf kind since (p.completed ids).run (Succeeds fun _ => True)
  started : ∀ id, IdOf kindOf kind id →
    Confined kindOf kind since (p.started id).run (Succeeds fun _ => True)
  finished : ∀ id, IdOf kindOf kind id →
    Confined kindOf kind since (p.finished id).run (Succeeds fun _ => True)

theorem Liveness.keeps_probe (l : Liveness) : l.probe.Keeps kindOf kind since :=
  ⟨fun _ => confined_completed, fun _ => confined_started l, fun _ => confined_unset⟩

namespace RunningSet

variable {set : RunningSet Program}

theorem confined_register (hk : set.kind = kind)
    (hp : ∀ p, set.probe = some p → p.Keeps kindOf kind since) (hid : IdOf kindOf kind id) :
    Confined kindOf kind since (set.register id).run (Succeeds fun _ => True) := by
  subst hk
  have hadd : Confined kindOf set.kind since
      (callStore (.setAdd set.key id set.entryTtl) : Attempt Program _).run
      (Succeeds fun _ => True) := by
    refine confined_callStore .running (fun id' ttl h => ?_)
      fun _ _ => .of_forall (fun _ => trivial) _
    obtain ⟨-, rfl, -⟩ := StoreCall.setAdd.inj h
    exact hid
  refine hadd.run_bind fun _ _ => ?_
  split
  · next p h => exact (hp p h).started id hid
  · exact confined_ok trivial

theorem confined_remove (hk : set.kind = kind)
    (hp : ∀ p, set.probe = some p → p.Keeps kindOf kind since) (hid : IdOf kindOf kind id) :
    Confined kindOf kind since (set.remove id).run (Succeeds fun _ => True) := by
  subst hk
  refine (confined_call (c := .setRemove _ _) .running rfl).run_bind fun _ _ => ?_
  split
  · next p h => exact (hp p h).finished id hid
  · exact confined_ok trivial

theorem confined_count (hk : set.kind = kind) :
    Confined kindOf kind since set.count.run (Succeeds fun _ => True) := by
  subst hk
  exact confined_call (c := .setCount _) .running rfl

theorem confined_completedAmong {p : Probe Program} (hp : p.Keeps kindOf kind since)
    {batches : List (List String)} (hids : ∀ batch ∈ batches, ∀ id ∈ batch, IdOf kindOf kind id) :
    Confined kindOf kind since (completedAmong p batches).run (Succeeds fun _ => True) := by
  induction batches with
  | nil => exact confined_ok trivial
  | cons batch rest ih =>
    obtain ⟨hbatch, hrest⟩ := List.forall_mem_cons.mp hids
    exact (hp.completed batch hbatch).run_bind fun _ _ =>
      (ih hrest).run_bind fun _ _ => confined_ok trivial

theorem confined_removeAll (hk : set.kind = kind) (batches : List (List String)) :
    Confined kindOf kind since (set.removeAll batches).run (Succeeds fun _ => True) := by
  subst hk
  induction batches with
  | nil => exact confined_ok trivial
  | cons batch rest ih =>
    exact (confined_call (c := .setRemove _ _) .running rfl).run_bind fun _ _ =>
      ih.run_bind fun _ _ => confined_ok trivial

/-- The members that a clean-up finds are of the kind, and it asks about no other job. -/
theorem confined_cleanUp (hk : set.kind = kind)
    (hp : ∀ p, set.probe = some p → p.Keeps kindOf kind since) :
    Confined kindOf kind since set.cleanUp.run (Succeeds fun _ => True) := by
  have hmembers : Confined kindOf kind since
      (callStore (.setMembers set.key) : Attempt Program (List SetMember)).run
      (Succeeds fun members => ∀ m ∈ members, IdOf kindOf kind m.member) := by
    subst hk
    refine confined_callStore .running nofun fun s hs => ?_
    cases ha : (s.callStore (.setMembers set.key)).1 with
    | error f => exact trivial
    | ok members => exact hs.tidy.listed ha
  refine hmembers.run_bind fun members hids => ?_
  split
  · exact confined_ok trivial
  refine confined_now.run_lift.run_bind fun now' _ => ?_
  have hlive : ∀ batch ∈ batches set.batchSize
      ((members.filter fun member => !set.isStale now' member).map (·.member)),
      ∀ id ∈ batch, IdOf kindOf kind id := by
    intro batch hbatch id hmem
    obtain ⟨m, hm, rfl⟩ := List.mem_map.mp (mem_of_batches hbatch hmem)
    exact hids m (List.mem_of_mem_filter hm)
  have hrest (texts : List String) : Confined kindOf kind since (do
      let removed ← set.removeAll (batches set.batchSize texts)
      if 0 < removed then note (m := Program) (.deadJobsRemoved set.kind removed)
      return removed : Attempt Program Nat).run (Succeeds fun _ => True) := by
    refine (confined_removeAll hk _).run_bind fun removed _ => ?_
    split
    · exact (confined_note _).run_lift.run_bind fun _ _ => confined_ok trivial
    · exact confined_ok trivial
  dsimp only
  split
  · next p h => exact (confined_completedAmong (hp p h) hlive).run_bind fun _ _ => hrest _
  · exact hrest _

end RunningSet

/-! ### Submitting -/

/-- A job of the kind that is due by the time. -/
structure Job.DueFor (kindOf : String → String) (kind : String) (since : Instant) (job : Job) :
    Prop where
  own : job.kind = kind
  ownId : IdOf kindOf kind job.id
  due : job.isScheduled since = false

theorem Job.dueFor_of_le {job : Job} {due : Instant} (hk : job.kind = kind)
    (hid : IdOf kindOf kind job.id) (h : due ≤ since) :
    { job with scheduledAt := some due }.DueFor kindOf kind since :=
  ⟨hk, hid, decide_eq_false (not_lt.mpr h)⟩

theorem Job.dueFor_create (hid : IdOf kindOf kind id) (args : List Json) :
    (Job.create kind args id).DueFor kindOf kind since := ⟨rfl, hid, rfl⟩

/-- A transport that keeps to a kind as long as it is given jobs of the kind that are due. -/
structure Transport.Keeps (kindOf : String → String) (kind : String) (since : Instant)
    (t : Transport Program) : Prop where
  submit : ∀ job : Job, job.DueFor kindOf kind since →
    Confined kindOf kind since (t.submit job).run (Succeeds fun _ => True)
  submitBatch : ∀ jobs : List Job, (∀ job ∈ jobs, job.DueFor kindOf kind since) →
    Confined kindOf kind since (t.submitBatch jobs).run (Succeeds fun _ => True)
  submitAt : ∀ (due : Instant) (job : Job), due ≤ since → job.kind = kind →
    IdOf kindOf kind job.id →
    Confined kindOf kind since (t.submitAt due job).run (Succeeds fun _ => True)
  queueSize : Confined kindOf kind since (t.queueSize kind).run (Succeeds fun _ => True)

namespace LocalTransport

variable {t : LocalTransport} {job : Job}

theorem confined_markLive (t : LocalTransport) (hid : IdOf kindOf kind id) :
    Confined kindOf kind since (t.markLive id : Program Unit) fun _ => True := by
  unfold markLive
  split
  · exact confined_pure trivial
  · exact (Liveness.confined_set hid _).orNote trivial _

theorem confined_pushReady (hj : job.DueFor kindOf kind since) {now' : Instant} (hn : since ≤ now') :
    Confined kindOf kind since
      (modifyQueue fun q => ((), q.push now' { job with enqueuedAt := some now' }) : Program Unit)
      fun _ => True := by
  have hpush (q : Queue) : q.push now' { job with enqueuedAt := some now' } =
      q.pushReady { job with enqueuedAt := some now' } := Queue.push_of_due (Job.isScheduled_later hn hj.due)
  simp only [hpush]
  refine confined_step ⟨?_, ?_, ?_, ?_⟩ (fun _ _ _ _ _ => rfl) fun _ _ => trivial
  · exact fun _ _ => rfl
  · exact fun s hs => hs.tidy.pushReady (hj.own ▸ hj.ownId)
  · exact fun s t _ _ hst => hst.pushReady
  · exact fun s kind' _ hne => .of_pushReady hj.own hne

theorem confined_push (t : LocalTransport) (hj : job.DueFor kindOf kind since) :
    Confined kindOf kind since (t.push job : Program String) fun _ => True := by
  refine confined_now.bind fun now' hn => ?_
  refine (confined_markLive t hj.ownId).bind fun _ _ => ?_
  exact (confined_pushReady hj hn).bind fun _ _ => confined_pure trivial

theorem confined_pushAll (t : LocalTransport) {jobs : List Job}
    (hj : ∀ job ∈ jobs, job.DueFor kindOf kind since) :
    Confined kindOf kind since (t.pushAll jobs : Program (List String)) fun _ => True := by
  induction jobs with
  | nil => exact confined_pure trivial
  | cons job rest ih =>
    obtain ⟨hjob, hrest⟩ := List.forall_mem_cons.mp hj
    refine (confined_push t hjob).bind fun _ _ => ?_
    exact (ih hrest).bind fun _ _ => confined_pure trivial

theorem keeps_toTransport (t : LocalTransport) :
    (t.toTransport : Transport Program).Keeps kindOf kind since where
  submit _ hj := (confined_push t hj).run_lift
  submitBatch _ hj := (confined_pushAll t hj).run_lift
  submitAt _ _ hdue hk hid := (confined_push t (Job.dueFor_of_le hk hid hdue)).run_lift
  queueSize := by
    -- The queue is read as a whole, but no more of it is used than its size for the kind.
    have hread : Confined kindOf kind since
        (Machine.step fun s => (.ok (s.queue.size kind), s) : Program (Except Fault Nat))
        (Succeeds fun _ => True) := by
      refine confined_step (.of_logged fun _ _ => .of_plans rfl rfl rfl rfl rfl rfl)
        (fun s t _ _ hst => ?_) fun _ _ => trivial
      rw [Queue.size, Queue.size, hst.ready]
    exact hread

end LocalTransport

/-! ### Claims -/

namespace Claim

variable {c : Claim}

theorem confined_checkGo (hc : KeyOf kindOf kind c.key) (ttl : Duration) (rounds : Nat) :
    Confined kindOf kind since (c.checkGo ttl rounds : Attempt Program (Option String)).run
      (Succeeds fun _ => True) := by
  induction rounds with
  | zero => exact confined_ok trivial
  | succ rounds ih =>
    refine (confined_call (c := .setIfAbsent _ _ _) hc rfl).run_bind fun claimed _ => ?_
    split
    · exact confined_ok trivial
    · refine (confined_call (c := .get _) hc rfl).run_bind fun owner _ => ?_
      split
      · exact confined_ok trivial
      · exact ih

theorem confined_check (hc : KeyOf kindOf kind c.key) (ttl : Duration) :
    Confined kindOf kind since (c.check ttl : Attempt Program (Option String)).run
      (Succeeds fun _ => True) := confined_checkGo hc ttl 2

theorem keyOf_of {job : Job} (hj : job.kind = kind) (policy : DedupPolicy) :
    KeyOf kindOf kind (Claim.of job policy).key := by
  subst hj
  exact .claim job.args

end Claim

namespace DedupPolicies

variable {job : Job}

/-- A job is marked and otherwise left as it is. -/
theorem confined_markOwned {c : Claim} (hc : KeyOf kindOf kind c.key)
    (hj : c.job.DueFor kindOf kind since) (ttl : Duration) :
    Confined kindOf kind since (markOwned c ttl : Program Job) fun job =>
      job.DueFor kindOf kind since := by
  refine (Claim.confined_check hc ttl).bind ?_
  rintro (f | _ | owner) -
  · exact (confined_note _).bind fun _ _ => confined_pure hj
  · exact (confined_note _).bind fun _ _ => confined_pure hj
  · refine (confined_note _).bind fun _ _ => ?_
    exact (confined_tally _).bind fun _ _ => confined_pure ⟨hj.own, hj.ownId, hj.due⟩

theorem confined_mark (ps : DedupPolicies) (hj : job.DueFor kindOf kind since) :
    Confined kindOf kind since (ps.mark job : Task Program Job).run
      (Succeeds fun job => job.DueFor kindOf kind since) := by
  refine confined_now.run_liftM_bind fun now' _ => ?_
  dsimp only
  split
  · split
    · exact confined_throw _
    · exact (confined_markOwned (Claim.keyOf_of hj.own _) hj _).run_lift
  · exact confined_ok hj

theorem confined_markAll (ps : DedupPolicies) {jobs : List Job}
    (hj : ∀ job ∈ jobs, job.DueFor kindOf kind since) :
    Confined kindOf kind since (ps.markAll jobs : Task Program (List Job)).run
      (Succeeds fun jobs => ∀ job ∈ jobs, job.DueFor kindOf kind since) := by
  induction jobs with
  | nil => exact confined_ok fun _ h => absurd h List.not_mem_nil
  | cons job rest ih =>
    obtain ⟨hjob, hrest⟩ := List.forall_mem_cons.mp hj
    refine (confined_mark ps hjob).run_bind fun marked hmarked => ?_
    exact (ih hrest).run_bind fun more hmore =>
      confined_ok (List.forall_mem_cons.mpr ⟨hmarked, hmore⟩)

theorem confined_release (ps : DedupPolicies) (hj : job.kind = kind) :
    Confined kindOf kind since (ps.release job : Program Unit) fun _ => True := by
  have hrelease : Confined kindOf kind since
      ((Claim.of job (ps.forKind job.kind)).release : Attempt Program Bool).run
      (Succeeds fun _ => True) := by
    unfold Claim.release
    split
    · exact confined_ok trivial
    · exact confined_call (c := .deleteIfEq _ _) (Claim.keyOf_of hj _) rfl
  refine hrelease.bind ?_
  rintro (f | _ | _) -
  · exact confined_note _
  · exact confined_pure trivial
  · exact confined_note _

theorem confined_around (ps : DedupPolicies) (hj : job.kind = kind) {work : Program α}
    (hw : Confined kindOf kind since work fun _ => True) :
    Confined kindOf kind since (ps.around job work) fun _ => True := by
  unfold around
  split
  · exact hw
  · exact (confined_release ps hj).bind fun _ _ => hw
  · refine hw.bind fun result _ => ?_
    exact (confined_release ps hj).bind fun _ _ => confined_pure trivial

end DedupPolicies

theorem Transport.Keeps.marking {t : Transport Program} (h : t.Keeps kindOf kind since)
    (ps : DedupPolicies) : (t.marking ps).Keeps kindOf kind since where
  submit _ hj := (DedupPolicies.confined_mark ps hj).run_bind h.submit
  submitBatch _ hj := (DedupPolicies.confined_markAll ps hj).run_bind h.submitBatch
  submitAt due _ hdue hk hid :=
    (DedupPolicies.confined_mark ps (Job.dueFor_of_le hk hid hdue)).run_bind fun _ hmarked =>
      h.submitAt due _ hdue hmarked.own hmarked.ownId
  queueSize := h.queueSize

/-! ### Dispatching -/

/-- A handler that keeps to a kind as long as it is given jobs of the kind. -/
def HandlerKeeps (kindOf : String → String) (kind : String) (since : Instant)
    (handler : Job → Task Program Unit) : Prop :=
  ∀ job : Job, job.kind = kind → IdOf kindOf kind job.id →
    Confined kindOf kind since (handler job).run fun _ => True

/-- Since no job is held back, none of another kind becomes due either. -/
theorem confined_promoteDue :
    Confined kindOf kind since (promoteDue : Program Nat) fun _ => True := by
  refine confined_now.bind fun now' _ => ?_
  have hmove : Confined kindOf kind since
      (modifyQueue fun q => ((q.dueJobs now').length, q.promoteDue now') : Program Nat)
      fun promoted => promoted = 0 := by
    have hnone (s : Machine) (hs : Begun kindOf since s) : s.queue.promoteDue now' = s.queue :=
      (Queue.promoteDue_of_none hs.tidy.scheduled now').2
    have hdue (s : Machine) (hs : Begun kindOf since s) : s.queue.dueJobs now' = [] :=
      (Queue.promoteDue_of_none hs.tidy.scheduled now').1
    refine confined_step (.of_logged fun s hs => ?_) (fun s t hs ht _ => ?_) fun s hs => ?_
    · exact .of_plans rfl rfl (hnone s hs) rfl rfl rfl
    · simp only [hdue s hs, hdue t ht]
    · simp only [hdue s hs, List.length_nil]
  refine hmove.bind fun promoted h => ?_
  subst h
  exact confined_pure trivial

theorem confined_dequeue :
    Confined kindOf kind since (dequeue kind : Program (Option Job)) fun found =>
      ∀ job ∈ found, job.kind = kind ∧ IdOf kindOf kind job.id := by
  refine confined_promoteDue.bind fun _ _ => ?_
  refine confined_step ⟨?_, ?_, ?_, ?_⟩ (fun s t _ _ hst => hst.pop.1)
    fun s hs job h => (hs.tidy.pop kind).1 job h
  · exact fun _ _ => rfl
  · exact fun s hs => (hs.tidy.pop kind).2
  · exact fun s t _ _ hst => hst.pop.2
  · exact fun s kind' _ hne => .of_pop hne

namespace Dispatcher

variable {d : Dispatcher Program} {job : Job} {handler : Job → Task Program Unit}

theorem confined_settle (d : Dispatcher Program) (hj : IdOf kindOf kind job.id)
    (result : Except Halt Unit) :
    Confined kindOf kind since (d.settle job result) fun _ => True := by
  have hclear : Confined kindOf kind since (d.clearLiveness job) fun _ => True := by
    unfold clearLiveness
    split
    · exact (Liveness.confined_unset hj).orNote trivial _
    · exact confined_pure trivial
  rcases result with (f | _) | _
  · exact hclear.bind fun _ _ => confined_pure trivial
  · exact confined_pure trivial
  · exact hclear.bind fun _ _ => confined_pure trivial

theorem confined_execute (d : Dispatcher Program) (hh : HandlerKeeps kindOf kind since handler)
    (hk : job.kind = kind) (hid : IdOf kindOf kind job.id) :
    Confined kindOf kind since (d.execute handler job) fun _ => True := by
  unfold execute
  split
  · exact DedupPolicies.confined_around _ hk (hh job hk hid)
  · exact hh job hk hid

theorem confined_dispatchTo (d : Dispatcher Program)
    (hh : HandlerKeeps kindOf kind since handler) :
    Confined kindOf kind since (d.dispatchTo handler kind) fun _ => True := by
  refine confined_dequeue.bind fun found hfound => ?_
  cases found with
  | none => exact confined_pure trivial
  | some job =>
    obtain ⟨hk, hid⟩ := hfound job rfl
    exact (confined_execute d hh hk hid).bind fun result _ => confined_settle d hid result

theorem confined_inSpan (span : LogSpan) {work : Program α} {post : α → Prop}
    (hw : Confined kindOf kind since work post) :
    Confined kindOf kind since (inSpan span work) post := by
  refine (confined_record _).bind fun _ _ => ?_
  refine (confined_record _).bind fun _ _ => ?_
  refine hw.bind fun result hresult => ?_
  refine (confined_record _).bind fun _ _ => ?_
  refine (confined_record _).bind fun _ _ => ?_
  refine (confined_record _).bind fun _ _ => ?_
  exact (confined_record _).bind fun _ _ => confined_pure hresult

theorem confined_runNext
    (hh : ∀ handler, d.handlers.get? kind = some handler → HandlerKeeps kindOf kind since handler) :
    Confined kindOf kind since (d.runNext kind).run (Succeeds fun _ => True) := by
  have hwork : Confined kindOf kind since (d.runNextUnspanned kind).run
      (Succeeds fun _ => True) := by
    unfold runNextUnspanned
    split
    · exact (confined_raise _).run_liftM
    · next handler h =>
      exact (confined_dispatchTo d (hh handler h)).mono fun r _ => .of_forall (fun _ => trivial) r
  exact confined_inSpan _ hwork

theorem confined_drainGo
    (hh : ∀ handler, d.handlers.get? kind = some handler → HandlerKeeps kindOf kind since handler)
    (report : DrainReport) (left : Nat) :
    Confined kindOf kind since (d.drainGo kind report left).run (Succeeds fun _ => True) := by
  induction left generalizing report with
  | zero => exact confined_ok trivial
  | succ left ih =>
    refine (confined_runNext hh).run_bind fun dispatch _ => ?_
    cases dispatch with
    | idle => exact confined_ok trivial
    | succeeded id => exact ih _
    | failed id f => exact ih _

theorem confined_drain
    (hh : ∀ handler, d.handlers.get? kind = some handler → HandlerKeeps kindOf kind since handler)
    (most : Nat) : Confined kindOf kind since (d.drain kind most).run (Succeeds fun _ => True) :=
  (confined_drainGo hh _ most).run_bind fun _ _ =>
    (confined_note _).run_liftM_bind fun _ _ => confined_ok trivial

end Dispatcher

/-! ### Workers -/

/-- A worker for the kind whose parts keep to it. -/
structure Worker.Keeps (kindOf : String → String) (kind : String) (since : Instant)
    (w : Worker Program) : Prop where
  loadKind : w.load.kind = kind
  runningKind : w.running.kind = kind
  maxRunning : Confined kindOf kind since w.load.maxRunning fun _ => True
  remaining : ∀ args, Confined kindOf kind since (w.load.remaining args) fun _ => True
  work : ∀ args, Confined kindOf kind since (w.load.work args) fun _ => True
  probe : ∀ p, w.running.probe = some p → p.Keeps kindOf kind since
  transport : w.transport.Keeps kindOf kind since
  setGauge : ∀ series value, Confined kindOf kind since (w.setGauge series value) fun _ => True

namespace Worker

variable {w : Worker Program}

theorem confined_runningCount (hw : w.Keeps kindOf kind since) :
    Confined kindOf kind since w.runningCount fun _ => True :=
  (RunningSet.confined_count hw.runningKind).orNote trivial _

theorem confined_remainingCapacity (hw : w.Keeps kindOf kind since) :
    Confined kindOf kind since w.remainingCapacity fun _ => True := by
  have hqueued : Confined kindOf kind since w.queuedCount fun _ => True := by
    have hsize := hw.transport.queueSize
    rw [← hw.loadKind] at hsize ⊢
    exact hsize.orNote trivial _
  refine hqueued.bind fun queued _ => ?_
  refine hw.maxRunning.bind fun most _ => ?_
  exact (confined_runningCount hw).bind fun running _ => confined_pure trivial

theorem confined_hasCapacity (hw : w.Keeps kindOf kind since) :
    Confined kindOf kind since w.hasCapacity fun _ => True := by
  refine hw.maxRunning.bind fun most _ => ?_
  exact (confined_runningCount hw).bind fun running _ => confined_pure trivial

theorem confined_reportMetrics (hw : w.Keeps kindOf kind since) (args : List Json) :
    Confined kindOf kind since (w.reportMetrics args) fun _ => True := by
  refine (confined_runningCount hw).bind fun running _ => ?_
  refine (hw.remaining args).bind fun remaining _ => ?_
  refine (hw.setGauge _ _).bind fun _ _ => ?_
  refine hw.maxRunning.bind fun most _ => ?_
  exact (hw.setGauge _ _).bind fun _ _ => hw.setGauge _ _

theorem confined_removeRunning (hw : w.Keeps kindOf kind since) (hid : IdOf kindOf kind id) :
    Confined kindOf kind since (w.removeRunning id) fun _ => True :=
  (RunningSet.confined_remove hw.runningKind hw.probe hid).orNote trivial _

theorem confined_registerRunning (hw : w.Keeps kindOf kind since) (hid : IdOf kindOf kind id) :
    Confined kindOf kind since (w.registerRunning id) fun _ => True :=
  (RunningSet.confined_register hw.runningKind hw.probe hid).orNote trivial _

theorem confined_copies (hw : w.Keeps kindOf kind since) (args : List Json) (count : Nat) :
    Confined kindOf kind since (w.copies args count) fun jobs =>
      ∀ job ∈ jobs, job.DueFor kindOf kind since := by
  induction count with
  | zero => exact confined_pure fun _ h => absurd h List.not_mem_nil
  | succ count ih =>
    refine confined_freshJobId.bind fun id hid => ?_
    refine ih.bind fun rest hrest => ?_
    refine confined_pure (List.forall_mem_cons.mpr ⟨?_, hrest⟩)
    rw [Worker.kind, hw.loadKind]
    exact Job.dueFor_create hid args

theorem confined_performWithCapacity (hw : w.Keeps kindOf kind since) (args : List Json) :
    Confined kindOf kind since (w.performWithCapacity args).run (Succeeds fun _ => True) := by
  have hclean : Confined kindOf kind since w.cleanUp fun _ => True := by
    have hset := RunningSet.confined_cleanUp hw.runningKind hw.probe
    exact (hset.orNote trivial _).bind fun _ _ => confined_pure trivial
  refine hclean.run_liftM_bind fun _ _ => ?_
  refine (confined_reportMetrics hw args).run_liftM_bind fun _ _ => ?_
  refine (hw.remaining args).run_liftM_bind fun remaining _ => ?_
  refine (confined_remainingCapacity hw).run_liftM_bind fun capacity _ => ?_
  dsimp only
  split
  · exact confined_ok trivial
  · refine (confined_copies hw args _).run_liftM_bind fun jobs hjobs => ?_
    refine (hw.transport.submitBatch jobs hjobs).run_bind fun _ _ => ?_
    exact (confined_note _).run_liftM_bind fun _ _ => confined_ok trivial

theorem confined_reEnqueue (hw : w.Keeps kindOf kind since) (args : List Json) :
    Confined kindOf kind since (w.reEnqueue args).run (Succeeds fun _ => True) := by
  refine (hw.remaining args).run_liftM_bind fun remaining _ => ?_
  split
  · exact confined_ok trivial
  · refine confined_freshJobId.run_liftM_bind fun id hid => ?_
    have hjob : (Job.create w.kind args id).DueFor kindOf kind since := by
      rw [Worker.kind, hw.loadKind]
      exact Job.dueFor_create hid args
    exact (hw.transport.submit _ hjob).run_bind fun _ _ => confined_ok trivial

theorem confined_conclude (hw : w.Keeps kindOf kind since) (id : String) (args : List Json)
    (result : WorkEnd) :
    Confined kindOf kind since (w.conclude id args result).run (Succeeds fun _ => True) := by
  cases result with
  | succeeded => exact (confined_reEnqueue hw args).run_bind fun _ _ => confined_ok trivial
  | failed e =>
    refine (confined_tally _).run_liftM_bind fun _ _ => ?_
    exact (confined_note _).run_liftM_bind fun _ _ => confined_throw _
  | panicked => exact confined_throw _

/-- One unit of work for a job of the kind. -/
theorem confined_perform (hw : w.Keeps kindOf kind since) (hid : IdOf kindOf kind id)
    (args : List Json) :
    Confined kindOf kind since (w.perform id args).run (Succeeds fun _ => True) := by
  rw [perform_run]
  refine (confined_hasCapacity hw).bind fun room _ => ?_
  have hreport := confined_reportMetrics hw args
  have hremove := confined_removeRunning hw hid
  split
  · refine (confined_registerRunning hw hid).bind fun _ _ => ?_
    refine (hw.work args).bind fun result _ => ?_
    have hfinish : Confined kindOf kind since (w.finish id args result) fun _ => True :=
      (confined_tally _).bind fun _ _ => hremove.bind fun _ _ => hreport
    exact hfinish.bind fun _ _ => confined_conclude hw id args result
  · have hskip : Confined kindOf kind since (w.skip id args) fun _ => True := by
      refine (confined_note _).bind fun _ _ => ?_
      exact (confined_tally _).bind fun _ _ => hremove.bind fun _ _ => hreport
    exact hskip.bind fun _ _ => confined_pure trivial

/-- A worker whose parts keep to its kind is a handler that does. -/
theorem keeps_handle (hw : w.Keeps kindOf kind since) : HandlerKeeps kindOf kind since w.handle :=
  fun job _ hid => ((confined_perform hw hid job.args).run_bind fun _ _ =>
    confined_ok (p := fun _ => True) trivial).mono fun _ _ => trivial

end Worker

end Turnstile
