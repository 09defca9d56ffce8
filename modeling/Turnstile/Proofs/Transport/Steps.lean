import Turnstile.Proofs.Simulation.Moves
import Turnstile.Proofs.Transport.Queue

/-!
# Steps of the transport

A job is taken in, due jobs are moved and a job is taken out in several steps, between which others may
move the machine. Each of them reads the clock once, and acts on the queue later.
-/

namespace Turnstile

open Machine Thread

variable {Q ρ : Type} {R T : Machine → Machine → Prop} {P : Machine → Prop} {s : Machine}
  {kind : String}

namespace LocalTransport

variable {lt : LocalTransport} {job : Job}

theorem within_markLive [Lenient R] {id : String}
    (hcall : ∀ (s : Machine) (c : StoreCall), c.key = Liveness.key id →
      (∀ key text ttl, c ≠ .setAdd key text ttl) → R s (s.callStore c).2) (lt : LocalTransport) :
    Within R (lt.markLive id : Thread Q ρ Unit) := by
  unfold markLive
  split
  · exact .done _
  · next liveness _ =>
    refine within_orNote ?_ _ _
    refine Within.run_bind (within_callStore fun s => hcall s _ rfl nofun) fun stored => ?_
    split
    · exact Within.run_bind (within_callStore fun s => hcall s _ rfl nofun) fun _ => .done _
    · exact .done _

theorem ensures_push [IsPreorder Machine R] [IsPreorder Machine T]
    (ht : ∀ s s', R s s' → T s s') (hlive : Within T (lt.markLive job.id : Thread Q ρ Unit))
    {post : String → Machine → Prop}
    (h : ∀ s₁, R s s₁ → ∀ s₂, T s₁ s₂ → P s₂ ∧
      ∀ s₃, R { s₂ with queue := s₂.queue.push s₁.clock (job.stamped s₁.clock) } s₃ →
        P s₃ ∧ post job.id s₃) :
    Ensures R P (lt.push job : Thread Q ρ String) post s := by
  refine ensures_bind (ensures_step fun s₁ hr => ?_)
  refine ⟨(h s₁ hr s₁ (refl_of T s₁)).1, fun s₁' hr₁ => ?_⟩
  refine ⟨(h s₁ hr s₁' (ht _ _ hr₁)).1, ?_⟩
  refine ensures_bind (ensures_of_within hlive ht (fun _ _ => id) fun s₂ ht₂ => ?_)
  have ht₂ := trans_of T (ht _ _ hr₁) ht₂
  refine ⟨(h s₁ hr s₂ ht₂).1, fun _ => ?_⟩
  refine ensures_bind (ensures_step fun s₂' hr₂ => ?_)
  obtain ⟨hp, hpush⟩ := h s₁ hr s₂' (trans_of T ht₂ (ht _ _ hr₂))
  refine ⟨hp, fun s₃ hr₃ => ⟨(hpush s₃ hr₃).1, ?_⟩⟩
  exact ensures_done fun s₄ hr₄ => hpush s₄ (trans_of R hr₃ hr₄)

theorem ensures_push_unscheduled [IsPreorder Machine R] [IsPreorder Machine T]
    (hn : job.scheduledAt = none) (ht : ∀ s s', R s s' → T s s')
    (hlive : Within T (lt.markLive job.id : Thread Q ρ Unit)) {post : String → Machine → Prop}
    (h : ∀ s₁, R s s₁ → ∀ s₂, T s₁ s₂ → P s₂ ∧
      ∀ s₃, R { s₂ with queue := s₂.queue.pushReady (job.stamped s₁.clock) } s₃ →
        P s₃ ∧ post job.id s₃) :
    Ensures R P (lt.push job : Thread Q ρ String) post s := by
  refine ensures_push ht hlive fun s₁ hr₁ s₂ hr₂ => ?_
  have hdue : (job.stamped s₁.clock).isScheduled s₁.clock = false := by
    simp only [Job.isScheduled, Job.stamped, hn]
  rw [Queue.push_of_due hdue]
  exact h s₁ hr₁ s₂ hr₂

theorem ensures_pushAll [IsPreorder Machine R] {jobs : List Job} {I : List Job → Machine → Prop}
    {post : List String → Machine → Prop}
    (hpush : ∀ job rest s, I (job :: rest) s →
      Ensures R P (lt.push job : Thread Q ρ String) (fun _ => I rest) s)
    (hend : ∀ ids s, I [] s → ∀ s', R s s' → P s' ∧ post ids s') (h : I jobs s) :
    Ensures R P (lt.pushAll jobs : Thread Q ρ (List String)) post s := by
  induction jobs generalizing s post with
  | nil => exact ensures_done fun s' hr => hend [] s h s' hr
  | cons job rest ih =>
    refine ensures_bind ((hpush job rest s h).mono fun id s' _ hi => ?_)
    refine ensures_bind (ih (fun ids s' hi s'' hr => ?_) hi)
    refine ⟨(hend ids s' hi s'' hr).1, ?_⟩
    exact ensures_done fun s₃ hr' => hend _ s' hi s₃ (trans_of R hr hr')

theorem ensures_submit [IsPreorder Machine R] {sub : Submission} {I : List Job → Machine → Prop}
    {post : Except Halt (List String) → Machine → Prop}
    (hpush : ∀ job rest s, I (job :: rest) s →
      Ensures R P (lt.push job : Thread Q ρ String) (fun _ => I rest) s)
    (hend : ∀ s, I [] s → ∀ s', R s s' → P s' ∧ ∀ r, post r s') (h : I sub.jobs s) :
    Ensures R P (sub.submit lt.toTransport : Task (Thread Q ρ) (List String)).run post s := by
  have hone (job : Job) (h : I [job] s) : Ensures R P (do
      let id ← ExceptT.lift (lt.push job)
      return [id] : Task (Thread Q ρ) (List String)).run post s := by
    refine ensures_run_lift ((hpush job [] s h).mono fun id s' _ hi => ?_)
    refine ensures_done fun s'' hr => ?_
    obtain ⟨hp, hpost⟩ := hend s' hi s'' hr
    exact ⟨hp, hpost _⟩
  cases sub with
  | one job => exact hone job h
  | later due job => exact hone _ h
  | batch jobs =>
    refine ensures_run_of_lift (ensures_pushAll hpush (fun ids s' hi s'' hr => ?_) h)
    obtain ⟨hp, hpost⟩ := hend s' hi s'' hr
    exact ⟨hp, hpost _⟩

end LocalTransport

variable [Lenient R]

theorem ensures_promoteDue {post : Nat → Machine → Prop}
    (h : ∀ s₁, R s s₁ → ∀ s₂, R s₁ s₂ → P s₂ ∧
      ∀ s₃, R { s₂ with queue := s₂.queue.promoteDue s₁.clock } s₃ → P s₃ ∧ ∀ n, post n s₃) :
    Ensures R P (promoteDue : Thread Q ρ Nat) post s := by
  refine ensures_bind (ensures_step fun s₁ hr => ?_)
  refine ⟨(h s₁ hr s₁ (refl_of R s₁)).1, fun s₁' hr₁ => ⟨(h s₁ hr s₁' hr₁).1, ?_⟩⟩
  refine ensures_bind (ensures_step fun s₂ hr₂ => ?_)
  obtain ⟨hp, hmoved⟩ := h s₁ hr s₂ (trans_of R hr₁ hr₂)
  refine ⟨hp, fun s₃ hr₃ => ⟨(hmoved s₃ hr₃).1, ?_⟩⟩
  have hafter {s₃ : Machine} (n : Nat)
      (hr₃ : R { s₂ with queue := s₂.queue.promoteDue s₁.clock } s₃) :
      Ensures R P (pure n : Thread Q ρ Nat) post s₃ := by
    refine ensures_done fun s₄ hr₄ => ?_
    obtain ⟨hp, hpost⟩ := hmoved s₄ (trans_of R hr₃ hr₄)
    exact ⟨hp, hpost n⟩
  have hrest (n : Nat) : Ensures R P (do
      if 0 < n then note (.scheduledPromoted n)
      return n : Thread Q ρ Nat) post s₃ := by
    split
    · refine ensures_bind (ensures_within (within_note (R := R) _) fun s₄ hr₄ => ?_)
      have hr' := trans_of R hr₃ hr₄
      exact ⟨(hmoved s₄ hr').1, fun _ => hafter n hr'⟩
    · exact hafter n hr₃
  exact hrest _

theorem ensures_dequeue {post : Option Job → Machine → Prop}
    (h : ∀ s₁, R s s₁ → ∀ s₂, R s₁ s₂ → P s₂ ∧
      ∀ s₃, R { s₂ with queue := s₂.queue.promoteDue s₁.clock } s₃ → P s₃ ∧
        ∀ s₄, R { s₃ with queue := (s₃.queue.pop kind).2 } s₄ →
          P s₄ ∧ post (s₃.queue.pop kind).1 s₄) :
    Ensures R P (dequeue kind : Thread Q ρ (Option Job)) post s := by
  refine ensures_bind (ensures_promoteDue fun s₁ hr₁ s₂ hr₂ => ?_)
  obtain ⟨hp, hmoved⟩ := h s₁ hr₁ s₂ hr₂
  refine ⟨hp, fun s₃ hr₃ => ⟨(hmoved s₃ hr₃).1, fun _ => ?_⟩⟩
  exact ensures_step fun s₄ hr₄ => hmoved s₄ (trans_of R hr₃ hr₄)

end Turnstile
