import Turnstile.Proofs.Duplicate.Checks
import Turnstile.Proofs.Duplicate.Transparency
import Turnstile.Proofs.Simulation.Keysets
import Turnstile.Proofs.Simulation.Marks
import Turnstile.Worker.Dispatcher

/-!
# Clearing the marks of jobs that have run

When a dispatch has run a job, the job is not marked as live any more, whichever way its handler ended and
whatever policy holds for it. A panic is the exception: it passes by the step that clears the mark, and the
mark stays as the handler left it.
-/

namespace Turnstile

open Machine

variable {α : Type} {s s' : Machine} {kind id : String} {job : Job}

/-! ### What leaves a mark alone -/

/-- A key other than that of a live job. -/
abbrev Liveness.Other (id key : String) : Prop := key ≠ Liveness.key id

theorem marked_of_beside (h : Beside (Liveness.Other id) s s') (hq : s.Quiet) :
    s'.Marked id ↔ s.Marked id := by
  rw [Marked, h.live? hq (not_not_intro rfl)]
  rfl

theorem beside_release (ps : DedupPolicies) (job : Job) :
    Always (Beside (Liveness.Other id)) (ps.release job) := by
  refine always_bind ?_ fun r => ?_
  · unfold Claim.release
    split
    · exact always_pure _
    · exact beside_callStore (IdempotencyKey.of_ne_livenessKey _ _ _).symm
  · split
    · exact beside_record _
    · exact always_pure _
    · exact beside_record _

theorem beside_dequeue (kind : String) :
    Always (Beside (Liveness.Other id)) (dequeue kind : StateM Machine (Option Job)) := by
  refine always_bind (always_bind (fun s => refl_of _ s) fun now' => ?_) fun _ => beside_modifyQueue _
  refine always_bind (beside_modifyQueue _) fun promoted => ?_
  split
  · exact always_bind (beside_record _) fun _ => always_pure _
  · exact always_pure _

/-! ### Around the handler -/

/-- What a dispatch answers when the handler of its job has ended. -/
def Dispatch.ofOutcome (job : Job) : Except Halt Unit → Except Halt Dispatch
  | .ok () => .ok (.succeeded job.id)
  | .error (.fault f) => .ok (.failed job.id f)
  | .error .panic => .error .panic

namespace Dispatcher

variable {d : Dispatcher (StateM Machine)} {l : Liveness}
  {handler : Job → Task (StateM Machine) Unit}

/-- The handler runs on a machine on which the job is marked as before, and what is done after it leaves
the mark alone. -/
theorem exec_execute (id : String) (d : Dispatcher (StateM Machine))
    (handler : Job → Task (StateM Machine) Unit) (job : Job) (s : Machine) :
    ∃ m, Beside (Liveness.Other id) s m ∧
      (s.exec (d.execute handler job)).1 = (m.exec (handler job).run).1 ∧
      Beside (Liveness.Other id) (m.exec (handler job).run).2 (s.exec (d.execute handler job)).2 := by
  unfold execute
  split
  · next ps _ =>
    unfold DedupPolicies.around
    split
    · exact ⟨s, refl_of _ s, rfl, refl_of _ _⟩
    · exact ⟨_, beside_release ps job s, rfl, refl_of _ _⟩
    · exact ⟨s, refl_of _ s, rfl, beside_release ps job _⟩
  · exact ⟨s, refl_of _ s, rfl, refl_of _ _⟩

theorem exec_clearLiveness (hl : d.liveness = some l) (hq : s.Quiet) (job : Job) :
    (s.exec (d.clearLiveness job)).2.Quiet ∧ ¬ (s.exec (d.clearLiveness job)).2.Marked job.id := by
  have hcalled := called_callStore s (.delete (Liveness.key job.id))
  have hcleared : ¬ (s.callStore (.delete (Liveness.key job.id))).2.Marked job.id := by
    rw [hcalled.marked hq, not_not]
    simp only [MemoryStore.call, MemoryStore.delete, MemoryStore.live?_erase, if_pos]
  obtain ⟨s', he, _, _, _⟩ := callStore_spec hq (.delete (Liveness.key job.id))
  have hrun : s.exec (Liveness.unset job.id : Attempt (StateM Machine) Unit).run = (.ok (), s') := by
    rw [Liveness.unset, exec_run_bind, exec_run_callStore, he]
    rfl
  rw [he] at hcalled hcleared
  unfold clearLiveness
  rw [hl]
  simp only [Attempt.orNote, exec_bind, hrun]
  exact ⟨hcalled.quiet hq, hcleared⟩

/-- Settling a job answers what its outcome counts as, and leaves no mark of it but after a panic. -/
theorem exec_settle (hl : d.liveness = some l) (hq : s.Quiet) (job : Job)
    (outcome : Except Halt Unit) :
    (s.exec (d.settle job outcome)).1 = Dispatch.ofOutcome job outcome ∧
      (s.exec (d.settle job outcome)).2.Quiet ∧
      ((s.exec (d.settle job outcome)).2.Marked job.id ↔
        outcome = .error .panic ∧ s.Marked job.id) := by
  obtain ⟨hquiet, hcleared⟩ := exec_clearLiveness hl hq job
  rcases outcome with (f | _) | _
  · exact ⟨rfl, hquiet, iff_of_false hcleared nofun⟩
  · exact ⟨rfl, hq, ⟨fun hm => ⟨rfl, hm⟩, And.right⟩⟩
  · exact ⟨rfl, hquiet, iff_of_false hcleared nofun⟩

/-! ### Dispatches -/

theorem exec_inSpan (id : String) (span : LogSpan) (work : StateM Machine α) (s : Machine) :
    ∃ m, Beside (Liveness.Other id) s m ∧ m.queue = s.queue ∧ m.clock = s.clock ∧
      (s.exec (inSpan span work)).1 = (m.exec work).1 ∧
      Beside (Liveness.Other id) (m.exec work).2 (s.exec (inSpan span work)).2 :=
  ⟨(s.addRecord (.opened span)).addRecord (.entered span), .of_eq rfl rfl rfl, rfl, rfl, rfl,
    .of_eq rfl rfl rfl⟩

theorem exec_dispatchTo (hl : d.liveness = some l) (hq : s.Quiet)
    (hj : (s.exec (dequeue kind)).1 = some job)
    (hh : ∀ m : Machine, m.Quiet → (m.exec (handler job).run).2.Quiet) :
    ∃ m, Beside (Liveness.Other job.id) s m ∧
      (s.exec (d.dispatchTo handler kind)).1 = Dispatch.ofOutcome job (m.exec (handler job).run).1 ∧
      (s.exec (d.dispatchTo handler kind)).2.Quiet ∧
      ((s.exec (d.dispatchTo handler kind)).2.Marked job.id ↔
        (m.exec (handler job).run).1 = .error .panic ∧
          (m.exec (handler job).run).2.Marked job.id) := by
  have htaken : Beside (Liveness.Other job.id) s (s.exec (dequeue kind)).2 := beside_dequeue kind s
  obtain ⟨m, hm, houtcome, hended⟩ := exec_execute job.id d handler job (s.exec (dequeue kind)).2
  have hbegun := trans_of (Beside (Liveness.Other job.id)) htaken hm
  have hrun : (m.exec (handler job).run).2.Quiet := hh m (hbegun.quiet hq)
  obtain ⟨hanswer, hquiet, hmarked⟩ := exec_settle hl (hended.quiet hrun) job
    ((s.exec (dequeue kind)).2.exec (d.execute handler job)).1
  rw [dispatchTo, exec_bind, hj]
  change ∃ m, _ ∧ (exec (d.execute handler job >>= d.settle job) _).1 = _ ∧
    (exec (d.execute handler job >>= d.settle job) _).2.Quiet ∧
      ((exec (d.execute handler job >>= d.settle job) _).2.Marked job.id ↔ _)
  rw [exec_bind]
  rw [houtcome] at hanswer hmarked hquiet ⊢
  exact ⟨m, hbegun, hanswer, hquiet,
    hmarked.trans (and_congr_right fun _ => marked_of_beside hended hrun)⟩

/-- A dispatch that takes a job answers what the outcome of its handler counts as, whatever the handler
does. Afterwards the job is marked as live only if the handler panicked and left it marked. -/
theorem marked_of_runNext (hl : d.liveness = some l) (hd : d.handlers.get? kind = some handler)
    (hq : s.Quiet) (hj : (s.exec (dequeue kind)).1 = some job)
    (hh : ∀ m : Machine, m.Quiet → (m.exec (handler job).run).2.Quiet) :
    ∃ m, Beside (Liveness.Other job.id) s m ∧
      (s.exec (d.runNext kind).run).1 = Dispatch.ofOutcome job (m.exec (handler job).run).1 ∧
      ((s.exec (d.runNext kind).run).2.Marked job.id ↔
        (m.exec (handler job).run).1 = .error .panic ∧
          (m.exec (handler job).run).2.Marked job.id) := by
  have hrun : (d.runNext kind).run = inSpan (LogSpan.runNext kind) (d.dispatchTo handler kind) := by
    unfold runNext runNextUnspanned
    rw [hd]
    rfl
  obtain ⟨s₁, hopened, hqueue, hclock, hanswer, hclosed⟩ := exec_inSpan job.id
    (LogSpan.runNext kind) (d.dispatchTo handler kind) s
  have hjob : (s₁.exec (dequeue kind)).1 = some job := by
    rw [(Delivery.exec_dequeue s₁ kind).1, hqueue, hclock, ← (Delivery.exec_dequeue s kind).1]
    exact hj
  obtain ⟨m, hm, hdispatched, hquiet, hmarked⟩ := exec_dispatchTo hl (hopened.quiet hq) hjob hh
  rw [hrun]
  exact ⟨m, trans_of (Beside (Liveness.Other job.id)) hopened hm, hanswer.trans hdispatched,
    (marked_of_beside hclosed hquiet).trans hmarked⟩

/-- A marked job is run by a handler that fails, under a policy that lets it keep its claim until then. -/
theorem marked_of_runNext_of_failure :
    let l : Liveness := ⟨DedupPolicy.defaultTtl⟩
    let lt : LocalTransport := { liveness := some l }
    let f : Fault := .ofCode .storeError "down"
    let handler : Job → Task (StateM Machine) Unit := fun _ => throw (.fault f)
    let d : Dispatcher (StateM Machine) :=
      { handlers := Keyed.empty.insert "k" handler
        releasing := some (DedupPolicies.ofPolicy DedupPolicy.untilExecuted), liveness := some l }
    let s := ((Machine.ofClock Instant.epoch).exec (lt.push (Job.create "k" [] "1"))).2
    s.Marked "1" ∧ (s.exec (d.runNext "k").run).1 = .ok (.failed "1" f) ∧
      ¬ (s.exec (d.runNext "k").run).2.Marked "1" := by
  intro l lt f handler d s
  have hq : s.Quiet := (lt.spares_markLive "1" (Machine.ofClock Instant.epoch)).quiet fun _ => rfl
  have hmarked : (s.store.live? s.clock (Liveness.key "1")).isSome = true := by decide +kernel
  have hl : d.liveness = some l := rfl
  have hd : d.handlers.get? "k" = some handler := rfl
  have hj : (s.exec (dequeue "k")).1 =
      some { Job.create "k" [] "1" with enqueuedAt := some Instant.epoch } := rfl
  obtain ⟨m, _, hanswer, hafter⟩ := marked_of_runNext hl hd hq hj fun _ hm => hm
  refine ⟨Option.isSome_iff_ne_none.mp hmarked, hanswer, fun hm => ?_⟩
  obtain ⟨hpanic, _⟩ := hafter.mp hm
  cases hpanic

/-- A marked job is run by a handler that panics, and is still marked when the dispatch is over. -/
theorem marked_of_panic :
    let l : Liveness := ⟨DedupPolicy.defaultTtl⟩
    let lt : LocalTransport := { liveness := some l }
    let handler : Job → Task (StateM Machine) Unit := fun _ => throw .panic
    let d : Dispatcher (StateM Machine) :=
      { handlers := Keyed.empty.insert "k" handler
        releasing := some (DedupPolicies.ofPolicy DedupPolicy.default), liveness := some l }
    let s := ((Machine.ofClock Instant.epoch).exec (lt.push (Job.create "k" [] "1"))).2
    s.Quiet ∧ ((s.exec (dequeue "k")).1.map Job.id) = some "1" ∧
      (s.exec (d.runNext "k").run).1 = .error .panic ∧
      (s.exec (d.runNext "k").run).2.Marked "1" := by
  intro l lt handler d s
  have hq : s.Quiet := (lt.spares_markLive "1" (Machine.ofClock Instant.epoch)).quiet fun _ => rfl
  have hmarked : ((s.exec (d.runNext "k").run).2.store.live? (s.exec (d.runNext "k").run).2.clock
      (Liveness.key "1")).isSome = true := by decide +kernel
  exact ⟨hq, rfl, rfl, Option.isSome_iff_ne_none.mp hmarked⟩

end Dispatcher

end Turnstile
