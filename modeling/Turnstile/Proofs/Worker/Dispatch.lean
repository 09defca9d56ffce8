import Turnstile.Proofs.Simulation.Moves
import Turnstile.Worker.Dispatcher

/-!
# What happens around a handler

A dispatcher writes to the journal, gives up claims and clears liveness keys around the handler of a
job. None of that stores anything, so what the handler ensures is what the dispatch ensures.
-/

namespace Turnstile

open Machine Thread

variable {Q ρ α : Type} {R : Machine → Machine → Prop} {P : Machine → Prop} {s : Machine}
  {kind : String} {job : Job}

theorem DedupPolicies.within_release [Freeing R] (ps : DedupPolicies) (job : Job) :
    Within R (ps.release job : Thread Q ρ Unit) := by
  refine Within.bind ?_ ?_
  · unfold Claim.release
    split
    · exact .done _
    · exact within_frees (c := .deleteIfEq _ _) trivial
  · rintro (f | _ | _)
    · exact within_note _
    · exact .done _
    · exact within_note _

namespace Dispatcher

variable {d : Dispatcher (Thread Q ρ)} {handler : Job → Task (Thread Q ρ) Unit}

theorem within_clearLiveness [Freeing R] (d : Dispatcher (Thread Q ρ)) (job : Job) :
    Within R (d.clearLiveness job) := by
  unfold clearLiveness
  split
  · exact within_orNote ((within_frees (c := .delete _) trivial).run_bind fun _ => .done _) _ _
  · exact .done _

theorem within_settle [Freeing R] (d : Dispatcher (Thread Q ρ)) (job : Job)
    (outcome : Except Halt Unit) : Within R (d.settle job outcome) := by
  rcases outcome with (f | _) | _
  · exact (within_clearLiveness d job).bind fun _ => .done _
  · exact .done _
  · exact (within_clearLiveness d job).bind fun _ => .done _

theorem ensures_record_bind [Lenient R] {x : Thread Q ρ α} {post : α → Machine → Prop}
    (r : JournalRecord) (h : ∀ s', R s s' → Ensures R P x post s') :
    Ensures R P (MonadJournal.record r >>= fun _ => x) post s := by
  refine ensures_bind (ensures_within (within_record (R := R) r) fun s' hr => ?_)
  exact ⟨(h s' hr).moment, fun _ => h s' hr⟩

theorem ensures_inSpan [Lenient R] {work : Thread Q ρ α} {post : α → Machine → Prop}
    (span : LogSpan) (h : ∀ s', R s s' → Ensures R P work post s') :
    Ensures R P (inSpan span work) post s := by
  refine ensures_record_bind _ fun s₁ hr₁ => ensures_record_bind _ fun s₂ hr₂ => ?_
  refine ensures_bind ((h s₂ (trans_of R hr₁ hr₂)).lasting.mono fun result s₃ _ hl => ?_)
  refine ensures_record_bind _ fun s₄ hr₄ => ensures_record_bind _ fun s₅ hr₅ => ?_
  refine ensures_record_bind _ fun s₆ hr₆ => ensures_record_bind _ fun s₇ hr₇ => ?_
  have hr := trans_of R (trans_of R hr₄ hr₅) (trans_of R hr₆ hr₇)
  exact ensures_done fun s₈ hr₈ => hl s₈ (trans_of R hr hr₈)

theorem ensures_execute [Freeing R] {post : Except Halt Unit → Machine → Prop}
    (h : ∀ s', R s s' → Ensures R P (handler job).run post s') :
    Ensures R P (d.execute handler job) post s := by
  unfold execute
  split
  swap
  · exact h s (refl_of R s)
  next ps _ =>
  unfold DedupPolicies.around
  split
  · exact h s (refl_of R s)
  · refine ensures_bind (ensures_within (DedupPolicies.within_release (R := R) ps job) ?_)
    exact fun s' hr => ⟨(h s' hr).moment, fun _ => h s' hr⟩
  · refine ensures_bind ((h s (refl_of R s)).lasting.mono fun result s₁ _ hl => ?_)
    refine ensures_bind (ensures_within (DedupPolicies.within_release (R := R) ps job) ?_)
    exact fun s₂ hr₂ => ⟨(hl s₂ hr₂).1, fun _ =>
      ensures_done fun s₃ hr₃ => hl s₃ (trans_of R hr₂ hr₃)⟩

theorem ensures_dispatchTo [IsPreorder Machine R] {taken : Option Job → Machine → Prop}
    {post : Except Halt Dispatch → Machine → Prop}
    (hdequeue : Ensures R P (dequeue kind : Thread Q ρ _) taken s)
    (hidle : ∀ s', taken none s' → Ensures R P (pure (.ok .idle) : Thread Q ρ _) post s')
    (hjob : ∀ job s', taken (some job) s' →
      Ensures R P (d.execute handler job >>= d.settle job) post s') :
    Ensures R P (d.dispatchTo handler kind) post s := by
  refine ensures_bind (hdequeue.mono ?_)
  rintro (_ | job) s' _ ht
  · exact hidle s' ht
  · exact hjob job s' ht

theorem ensures_runNext [Lenient R] {post : Except Halt Dispatch → Machine → Prop}
    (hd : d.handlers.get? kind = some handler)
    (h : ∀ s', R s s' → Ensures R P (d.dispatchTo handler kind) post s') :
    Ensures R P (d.runNext kind).run post s := by
  refine ensures_inSpan _ fun s' hr => ?_
  unfold runNextUnspanned
  rw [hd]
  exact h s' hr

end Dispatcher

end Turnstile
