import Turnstile.Proofs.Duplicate.Records
import Turnstile.Proofs.Duplicate.Waiting
import Turnstile.Proofs.Engine.Thread
import Turnstile.Worker.Dispatcher

/-!
# Executions around claims

A dispatcher takes a job off the queues, runs a handler that ends when and how it likes, and gives
the claim of the job up before or after that. Whatever else it does leaves the records alone.
-/

namespace Turnstile

open Machine

/-- A program that asks how the handler of a job ends. -/
abbrev Handling := Thread Job (Except Halt Unit)

/-- The dispatcher for some kinds whose handlers end as they are told. -/
def Dispatcher.asking (kinds : List String) (ps : DedupPolicies) (liveness : Option Liveness) :
    Dispatcher Handling :=
  { handlers := ⟨kinds.map fun kind => (kind, fun job => ExceptT.mk (Thread.ask job))⟩
    releasing := some ps
    liveness }

variable {ps : DedupPolicies} {s s' : Machine} {job : Job} {α β : Type}

/-! ### Giving claims up -/

namespace DedupPolicies

theorem drive_release (ps : DedupPolicies) (job : Job) (hq : s.Quiet) :
    ∃ s', (ps.release job : Handling Unit).drive s = (.done (), s') ∧ s'.Quiet ∧ s.Observed s' ∧
      s'.store = if job.isDuplicate then s.store
        else (s.store.call s.clock (.deleteIfEq job.key job.id)).2 := by
  cases hd : job.isDuplicate with
  | true =>
    refine ⟨s, ?_, hq, .refl s, rfl⟩
    simp only [release, Claim.release, Claim.of, hd]
    rfl
  | false =>
    obtain ⟨s', he, hs, hq', hobserved⟩ := callStore_spec hq (.deleteIfEq job.key job.id)
    have hrun : ((Claim.of job (ps.forKind job.kind)).release : Attempt Handling Bool).run.drive s =
        (.done (s.store.call s.clock (.deleteIfEq job.key job.id)).1, s') := by
      simp only [Claim.release, Claim.of, hd, Bool.false_eq_true, if_false]
      exact Thread.drive_callStore he
    rw [release, Thread.drive_bind_of_done hrun]
    split
    · exact ⟨_, rfl, hq', hobserved.trans ⟨rfl, rfl, rfl⟩, hs⟩
    · exact ⟨_, rfl, hq', hobserved, hs⟩
    · exact ⟨_, rfl, hq', hobserved.trans ⟨rfl, rfl, rfl⟩, hs⟩

/-- Whatever the handler of a job ends with, the execution goes on to its end, and gives the claim
up on its way if the work of the job had to end first. -/
def Finishes (ps : DedupPolicies) (job : Job) (next : Except Halt Unit → Handling β) : Prop :=
  ∀ outcome (s : Machine), s.Quiet → ∃ r s₁ s', (next outcome).drive s = (.done r, s') ∧
    s₁.Quiet ∧ s.Observed s₁ ∧ s₁.store = ps.giveUp job .untilExecuted s.store s.clock ∧
    s₁.Spares s'

theorem giveUp_of_ne {point : ReleasePoint} {store : MemoryStore} {now : Instant}
    (h : (ps.forKind job.kind).release ≠ point) : ps.giveUp job point store now = store :=
  if_neg fun hg => h hg.1

theorem giveUp_of_eq {point : ReleasePoint} {store : MemoryStore} {now : Instant}
    (h : (ps.forKind job.kind).release = point) : ps.giveUp job point store now =
      if job.isDuplicate then store else (store.call now (.deleteIfEq job.key job.id)).2 := by
  unfold giveUp
  cases job.isDuplicate
  · exact if_pos ⟨h, rfl⟩
  · exact if_neg fun hg => nomatch hg.2

theorem finishes_of_ends {next : Except Halt Unit → Handling β}
    (hp : (ps.forKind job.kind).release ≠ .untilExecuted)
    (hnext : ∀ r, Thread.Ends Spares (next r)) : ps.Finishes job next := by
  intro outcome t ht
  obtain ⟨r, t', he, hspares⟩ := hnext outcome t
  exact ⟨r, t, t', he, ht, .refl t, (giveUp_of_ne hp).symm, hspares⟩

theorem drive_around (ps : DedupPolicies) (job : Job) (hq : s.Quiet)
    {rest : Except Halt Unit → Handling β} (hrest : ∀ r, Thread.Ends Spares (rest r)) :
    ∃ next s', (ps.around job (Thread.ask job) >>= rest).drive s = (.await job next, s') ∧
      s'.Quiet ∧ s.Observed s' ∧ s'.store = ps.giveUp job .untilExecuting s.store s.clock ∧
      ps.Finishes job next := by
  unfold around
  split
  · next hp =>
    exact ⟨rest, s, rfl, hq, .refl s, (giveUp_of_ne (by rw [hp]; nofun)).symm,
      finishes_of_ends (by rw [hp]; nofun) hrest⟩
  · next hp =>
    obtain ⟨s', he, hq', hobserved, hs⟩ := ps.drive_release job hq
    refine ⟨rest, s', ?_, hq', hobserved, hs.trans (giveUp_of_eq hp).symm,
      finishes_of_ends (by rw [hp]; nofun) hrest⟩
    rw [Thread.bind_bind]
    exact Thread.drive_bind_of_done he _
  · next hp =>
    refine ⟨_, s, rfl, hq, .refl s, (giveUp_of_ne (by rw [hp]; nofun)).symm, ?_⟩
    intro outcome t ht
    obtain ⟨t₁, he, ht₁, hobserved, hs⟩ := ps.drive_release job ht
    obtain ⟨r, t', he', hspares⟩ := hrest outcome t₁
    refine ⟨r, t₁, t', ?_, ht₁, hobserved, hs.trans (giveUp_of_eq hp).symm, hspares⟩
    change ((ps.release job >>= fun _ => pure outcome) >>= rest).drive t = _
    rw [Thread.bind_bind, Thread.drive_bind_of_done he]
    exact he'

end DedupPolicies

/-! ### Running the next job -/

namespace Dispatcher

variable {kinds : List String} {liveness : Option Liveness}

theorem ends_clearLiveness (d : Dispatcher Handling) (job : Job) :
    Thread.Ends Spares (d.clearLiveness job) := by
  unfold clearLiveness
  split
  · have hunset : Thread.Ends Spares (Liveness.unset job.id : Attempt Handling Unit).run := by
      refine Thread.ends_bind (Thread.ends_callStore fun s => ?_) fun r => ?_
      · exact Spares.of_callStore fun kind args => IdempotencyKey.of_ne_livenessKey kind args job.id
      · cases r <;> exact Thread.ends_pure _
    refine Thread.ends_bind hunset fun r => ?_
    split
    · exact Thread.ends_pure _
    · exact Thread.ends_bind (Thread.ends_step fun _ => Spares.of_eq ⟨rfl, rfl, rfl⟩ rfl rfl)
        fun _ => Thread.ends_pure _
  · exact Thread.ends_pure _

theorem ends_settle (d : Dispatcher Handling) (job : Job) (outcome : Except Halt Unit) :
    Thread.Ends Spares (d.settle job outcome) := by
  unfold settle
  split
  · exact Thread.ends_pure _
  · exact Thread.ends_bind (d.ends_clearLiveness job) fun _ => Thread.ends_pure _
  · exact Thread.ends_bind (d.ends_clearLiveness job) fun _ => Thread.ends_pure _

def leaveSpan (span : LogSpan) (result : α) : Handling α := do
  MonadJournal.record (.left span)
  MonadJournal.record (.entered span)
  MonadJournal.record (.left span)
  MonadJournal.record (.closed span)
  return result

theorem ends_leaveSpan (span : LogSpan) (result : α) :
    Thread.Ends Spares (leaveSpan span result) := by
  have hrecord : ∀ r, Thread.Ends Spares (MonadJournal.record r : Handling Unit) :=
    fun r => Thread.ends_step fun _ => Spares.of_eq ⟨rfl, rfl, rfl⟩ rfl rfl
  unfold leaveSpan
  exact Thread.ends_bind (hrecord _) fun _ => Thread.ends_bind (hrecord _) fun _ =>
    Thread.ends_bind (hrecord _) fun _ => Thread.ends_bind (hrecord _) fun _ => Thread.ends_pure _

theorem drive_inSpan (span : LogSpan) (work : Handling α) (s : Machine) :
    (inSpan span work).drive s =
      (work >>= leaveSpan span).drive
        ((s.addRecord (.opened span)).addRecord (.entered span)) := rfl

theorem drive_dequeue (s : Machine) (kind : String) :
    ∃ s', (dequeue kind : Handling (Option Job)).drive s =
        (.done ((s.queue.promoteDue s.clock).pop kind).1, s') ∧
      s'.plans = s.plans ∧ s'.store = s.store ∧ s'.clock = s.clock ∧
      s'.queue = ((s.queue.promoteDue s.clock).pop kind).2 := by
  have hpromote : ∃ n s', (promoteDue : Handling Nat).drive s = (.done n, s') ∧
      s'.plans = s.plans ∧ s'.store = s.store ∧ s'.clock = s.clock ∧
      s'.queue = s.queue.promoteDue s.clock := by
    have hnow : (now : Handling Instant).drive s = (.done s.clock, s) := rfl
    have hmove : (modifyQueue fun q => ((q.dueJobs s.clock).length, q.promoteDue s.clock) :
        Handling Nat).drive s =
          (.done (s.queue.dueJobs s.clock).length,
            { s with queue := s.queue.promoteDue s.clock }) := rfl
    rw [promoteDue, Thread.drive_bind_of_done hnow, Thread.drive_bind_of_done hmove]
    split <;> exact ⟨_, _, rfl, rfl, rfl, rfl, rfl⟩
  obtain ⟨n, s', he, hp, hs, hc, hq⟩ := hpromote
  refine ⟨{ s' with queue := (s'.queue.pop kind).2 }, ?_, hp, hs, hc, ?_⟩
  · rw [dequeue, Thread.drive_bind_of_done he, ← hq]
    rfl
  · rw [hq]

theorem get?_asking {kind : String} {handler : Job → Task Handling Unit}
    (h : (asking kinds ps liveness).handlers.get? kind = some handler) :
    handler = fun job => ExceptT.mk (Thread.ask job) := by
  simp only [asking, Keyed.get?] at h
  induction kinds with
  | nil => cases h
  | cons first rest ih =>
    simp only [List.map_cons, Keyed.lookup] at h
    split at h
    · exact (Option.some.inj h).symm
    · exact ih h

/-- What a dispatch comes to: it ends and has taken out no job, or it has taken out one that waited,
and asks for it. -/
inductive Dispatched (ps : DedupPolicies) (s : Machine) : Handling β × Machine → Prop
  | idle {r : β} {s' : Machine} (quiet : s'.Quiet) (clock : s'.clock = s.clock)
      (live : ∀ kind args, s'.store.live? s.clock (IdempotencyKey.of kind args) =
        s.store.live? s.clock (IdempotencyKey.of kind args))
      (waits : ∀ job, s'.queue.Holds job → s.queue.Holds job) : Dispatched ps s (.done r, s')
  | asks {job : Job} {next : Except Halt Unit → Handling β} {s' : Machine} (quiet : s'.Quiet)
      (clock : s'.clock = s.clock)
      (store : s'.store = ps.giveUp job .untilExecuting s.store s.clock)
      (waited : s.queue.Holds job) (waits : ∀ job, s'.queue.Holds job → s.queue.Holds job)
      (finishes : ps.Finishes job next) : Dispatched ps s (.await job next, s')

theorem Dispatched.of_ends {x : Handling β} (hq : s.Quiet) (hx : Thread.Ends Spares x) :
    Dispatched ps s (x.drive s) := by
  obtain ⟨r, s', he, hspares⟩ := hx s
  rw [he]
  exact .idle (hspares.quiet hq) hspares.clock (hspares.live hq) fun job hj => hspares.queue ▸ hj

theorem drive_dispatchTo (d : Dispatcher Handling) (hd : d.releasing = some ps) (kind : String)
    (hq : s.Quiet) {rest : Except Halt Dispatch → Handling β}
    (hrest : ∀ r, Thread.Ends Spares (rest r)) :
    Dispatched ps s
      ((d.dispatchTo (fun job => ExceptT.mk (Thread.ask job)) kind >>= rest).drive s) := by
  obtain ⟨t, he, hp, hs, hc, hqueue⟩ := drive_dequeue s kind
  have ht : t.Quiet := fun method => hp ▸ hq method
  have hwaits : ∀ job, t.queue.Holds job → s.queue.Holds job := by
    intro job hj
    rw [hqueue] at hj
    exact Queue.holds_promoteDue ((Queue.holds_pop _ kind).2 job hj)
  rw [dispatchTo, Thread.bind_bind, Thread.drive_bind_of_done he]
  cases hpop : ((s.queue.promoteDue s.clock).pop kind).1 with
  | none =>
    obtain ⟨r, t', he', hspares⟩ := hrest (.ok .idle) t
    rw [Thread.pure_eq, Thread.done_bind, he']
    refine .idle (hspares.quiet ht) (hspares.clock.trans hc) ?_ fun job hj => ?_
    · intro kind args
      have hlive := hspares.live ht kind args
      rw [hc, hs] at hlive
      exact hlive
    · exact hwaits job (hspares.queue ▸ hj)
  | some job =>
    have hwaited : s.queue.Holds job :=
      Queue.holds_promoteDue ((Queue.holds_pop _ kind).1 job hpop)
    have hsettle : ∀ outcome, Thread.Ends Spares (d.settle job outcome >>= rest) :=
      fun outcome => Thread.ends_bind (d.ends_settle job outcome) hrest
    obtain ⟨next, t', he', ht', hobserved, hstore, hfinishes⟩ := ps.drive_around job ht hsettle
    simp only [execute, hd, Thread.bind_bind]
    change Dispatched ps s ((ps.around job (Thread.ask job) >>= _).drive t)
    rw [he']
    refine .asks ht' (hobserved.clock.trans hc) ?_ hwaited ?_ hfinishes
    · rw [hstore, hs, hc]
    · intro j hj
      exact hwaits j (hobserved.queue ▸ hj)

theorem drive_runNext (kinds : List String) (ps : DedupPolicies) (liveness : Option Liveness)
    (kind : String) (hq : s.Quiet) :
    Dispatched ps s (((asking kinds ps liveness).runNext kind).run.drive s) := by
  change Dispatched ps s ((inSpan (LogSpan.runNext kind)
    ((asking kinds ps liveness).runNextUnspanned kind).run).drive s)
  rw [drive_inSpan]
  have hspan : ∀ {r : Handling (Except Halt Dispatch) × Machine},
      Dispatched ps ((s.addRecord (.opened (LogSpan.runNext kind))).addRecord
        (.entered (LogSpan.runNext kind))) r → Dispatched ps s r := by
    intro r hr
    cases hr with
    | idle quiet clock live waits => exact .idle quiet clock live waits
    | asks quiet clock store waited waits finishes =>
      exact .asks quiet clock store waited waits finishes
  apply hspan
  unfold runNextUnspanned
  split
  · refine .of_ends hq (Thread.ends_bind ?_ (ends_leaveSpan _))
    exact fun s => ⟨_, _, rfl, Spares.of_eq ⟨rfl, rfl, rfl⟩ rfl rfl⟩
  · next handler hh =>
    rw [get?_asking hh]
    have hopened : ((s.addRecord (.opened (LogSpan.runNext kind))).addRecord
        (.entered (LogSpan.runNext kind))).Quiet := hq
    exact drive_dispatchTo (asking kinds ps liveness) rfl kind hopened (ends_leaveSpan _)

end Dispatcher

end Turnstile
