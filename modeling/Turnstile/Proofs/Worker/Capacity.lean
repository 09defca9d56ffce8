import Turnstile.Proofs.Transport.Steps
import Turnstile.Proofs.Worker.Parts

/-!
# Capacity

What a worker reads off the running set and the queue while others move the machine, and the jobs that
it makes.
-/

namespace Turnstile

open Machine Thread

variable {Q ρ : Type} {R : Machine → Machine → Prop} {P : Machine → Prop} {s : Machine}
  {kind : String} {most : Int} {w : Worker (Thread Q ρ)} {lt : LocalTransport}

namespace Worker

section

variable [Lenient R]

theorem ensures_runningCount (hk : w.running.kind = kind) {post : Nat → Machine → Prop}
    (h : ∀ s₁, R s s₁ → s₁.Quiet ∧ P s₁ ∧
      ∀ s₂, R s₁ s₂ → P s₂ ∧ post (s₁.members kind).length s₂) :
    Ensures R P w.runningCount post s := by
  obtain rfl := hk
  refine ensures_bind (ensures_callStore fun s₁ hr₁ => ?_)
  obtain ⟨hq, hp, hafter⟩ := h s₁ hr₁
  refine ⟨hp, fun s₂ hr₂ => ?_⟩
  have hcall : R s₁ (s₁.callStore (.setCount w.running.key)).2 :=
    Lenient.reads (c := .setCount w.running.key) trivial (called_callStore s₁ _)
  have hr₂ := trans_of R hcall hr₂
  refine ⟨(hafter s₂ hr₂).1, ?_⟩
  have hdone {n : Nat} (hn : n = (s₁.members w.running.kind).length) {s₂ : Machine}
      (hr₂ : R s₁ s₂) : Ensures R P (pure n : Thread Q ρ Nat) post s₂ := by
    subst hn
    exact ensures_done fun s₃ hr₃ => hafter s₃ (trans_of R hr₂ hr₃)
  rw [(callStore_eq hq _).1]
  rcases MemoryStore.call_setCount s₁.store s₁.clock w.running.key with he | ⟨f, he, hm⟩
  · rw [he]
    exact hdone rfl hr₂
  · rw [he]
    have hnone : 0 = (s₁.members w.running.kind).length := (congrArg List.length hm).symm
    refine ensures_bind (ensures_within (within_note (R := R) _) fun s₃ hr₃ => ?_)
    have hr₃ := trans_of R hr₂ hr₃
    exact ⟨(hafter s₃ hr₃).1, fun _ => hdone hnone hr₃⟩

theorem within_hasCapacity (hw : w.Serves kind most R) : Within R w.hasCapacity := by
  unfold hasCapacity
  rw [hw.maxRunning, pure_bind]
  exact (within_runningCount w).bind fun _ => .done _

theorem ensures_hasCapacity (hw : w.Serves kind most R) {post : Bool → Machine → Prop}
    (h : ∀ s₁, R s s₁ → s₁.Quiet ∧ P s₁ ∧ ∀ s₂, R s₁ s₂ →
      P s₂ ∧ post (decide (0 < most - signed (s₁.members kind).length)) s₂) :
    Ensures R P w.hasCapacity post s := by
  unfold hasCapacity
  rw [hw.maxRunning, pure_bind]
  refine ensures_bind (ensures_runningCount (P := P) hw.runningKind fun s₁ hr₁ => ?_)
  obtain ⟨hq, hp, hafter⟩ := h s₁ hr₁
  refine ⟨hq, hp, fun s₂ hr₂ => ⟨(hafter s₂ hr₂).1, ?_⟩⟩
  exact ensures_done fun s₃ hr₃ => hafter s₃ (trans_of R hr₂ hr₃)

theorem ensures_queuedCount (hw : w.Serves kind most R) (ht : w.transport = lt.toTransport)
    {post : Nat → Machine → Prop}
    (h : ∀ s₁, R s s₁ → P s₁ ∧ ∀ s₂, R s₁ s₂ → P s₂ ∧ post (s₁.queue.readyJobs kind).length s₂) :
    Ensures R P w.queuedCount post s := by
  have hkind : w.kind = kind := hw.loadKind
  unfold queuedCount Attempt.orNote
  rw [ht, hkind]
  refine ensures_bind (ensures_run_lift (ensures_step fun s₁ hr₁ => ?_))
  obtain ⟨hp, hafter⟩ := h s₁ hr₁
  refine ⟨hp, fun s₂ hr₂ => ⟨(hafter s₂ hr₂).1, ?_⟩⟩
  refine ensures_done fun s₃ hr₃ => ?_
  have hr₃ := trans_of R hr₂ hr₃
  exact ⟨(hafter s₃ hr₃).1, ensures_done fun s₄ hr₄ => hafter s₄ (trans_of R hr₃ hr₄)⟩

/-- What waits is read before what runs. -/
theorem ensures_remainingCapacity (hw : w.Serves kind most R) (ht : w.transport = lt.toTransport)
    {post : Nat → Machine → Prop}
    (h : ∀ s₁, R s s₁ → ∀ s₂, R s₁ s₂ → s₂.Quiet ∧ P s₂ ∧ ∀ s₃, R s₂ s₃ → P s₃ ∧
      post (most - signed (s₂.members kind).length - signed (s₁.queue.readyJobs kind).length).toNat
        s₃) :
    Ensures R P w.remainingCapacity post s := by
  unfold remainingCapacity
  refine ensures_bind (ensures_queuedCount hw ht fun s₁ hr₁ => ?_)
  refine ⟨(h s₁ hr₁ s₁ (refl_of R s₁)).2.1, fun s₂ hr₂ => ⟨(h s₁ hr₁ s₂ hr₂).2.1, ?_⟩⟩
  rw [hw.maxRunning, pure_bind]
  refine ensures_bind (ensures_runningCount hw.runningKind fun s₃ hr₃ => ?_)
  obtain ⟨hq, hp, hafter⟩ := h s₁ hr₁ s₃ (trans_of R hr₂ hr₃)
  refine ⟨hq, hp, fun s₄ hr₄ => ⟨(hafter s₄ hr₄).1, ?_⟩⟩
  exact ensures_done fun s₅ hr₅ => hafter s₅ (trans_of R hr₄ hr₅)

end

/-! ### New jobs -/

/-- The jobs that a worker makes have names that were not given out before. -/
theorem ensures_copies [Names] [IsPreorder Machine R] (hk : w.load.kind = kind)
    (hissue : ∀ s : Machine, R s { s with issued := s.issued + 1 })
    (hissued : ∀ s s', R s s' → s.issued ≤ s'.issued) (hp : ∀ s', R s s' → P s')
    (args : List Json) (count : Nat) :
    Ensures R P (w.copies args count) (fun jobs s' => R s s' ∧ ∃ numbers : List Nat,
      jobs = numbers.map (fun i => Job.create kind args (jobIdOf i)) ∧ numbers.length = count ∧
        numbers.Pairwise (· < ·) ∧ ∀ i ∈ numbers, s.issued ≤ i ∧ i < s'.issued) s := by
  obtain rfl := hk
  induction count generalizing s with
  | zero => exact ensures_done fun s' hr => ⟨hp s' hr, hr, [], rfl, rfl, .nil, nofun⟩
  | succ count ih =>
    refine ensures_bind (ensures_step fun s₁ hr₁ => ⟨hp s₁ hr₁, fun s₂ hr₂ => ?_⟩)
    have hr₂' := trans_of R hr₁ (trans_of R (hissue s₁) hr₂)
    refine ⟨hp s₂ hr₂', ?_⟩
    have hrest := ih (s := s₂) fun s' hr => hp s' (trans_of R hr₂' hr)
    refine ensures_bind (hrest.lasting.mono fun rest s₃ _ hl => ?_)
    refine ensures_done fun s₄ hr₄ => ?_
    obtain ⟨hp₄, hr, numbers, hjobs, hcount, hsorted, hrange⟩ := hl s₄ hr₄
    have hbefore := hissued s s₁ hr₁
    have hafter := hissued _ s₂ hr₂
    have hlast := hissued s₂ s₄ hr
    change s₁.issued + 1 ≤ s₂.issued at hafter
    refine ⟨hp₄, trans_of R hr₂' hr, s₁.issued :: numbers, ?_, ?_, ?_, ?_⟩
    · rw [hjobs]
      rfl
    · rw [List.length_cons, hcount]
    · refine List.Pairwise.cons (fun i hi => ?_) hsorted
      have hi := (hrange i hi).1
      omega
    · intro i hi
      rcases List.mem_cons.mp hi with rfl | hi
      · omega
      · have hi := hrange i hi
        omega

/-- A fan-out submits its new jobs one after the other; `I` says what holds while some are still to
come. -/
theorem ensures_fanOut [Names] [Lenient R] (hk : w.load.kind = kind)
    (ht : w.transport = lt.toTransport)
    (hissue : ∀ s : Machine, R s { s with issued := s.issued + 1 })
    (hissued : ∀ s s', R s s' → s.issued ≤ s'.issued) (hp : ∀ s', R s s' → P s')
    {args : List Json} {count : Nat} {I : List Job → Machine → Prop}
    {post : Except Halt Nat → Machine → Prop}
    (hstart : ∀ s₁, R s s₁ → ∀ numbers : List Nat, numbers.length = count →
      numbers.Pairwise (· < ·) → (∀ i ∈ numbers, s.issued ≤ i ∧ i < s₁.issued) →
      I (numbers.map fun i => Job.create kind args (jobIdOf i)) s₁)
    (hpush : ∀ job rest s, I (job :: rest) s →
      Ensures R P (lt.push job : Thread Q ρ String) (fun _ => I rest) s)
    (hend : ∀ s, I [] s → ∀ s', R s s' → P s' ∧ post (.ok count) s') :
    Ensures R P (w.fanOut args count).run post s := by
  rw [fanOut_run]
  split
  · next hc =>
    subst hc
    exact ensures_done fun s' hr => hend s' (hstart s' hr [] rfl .nil nofun) s' (refl_of R s')
  refine ensures_bind ((ensures_copies hk hissue hissued hp args count).mono ?_)
  rintro jobs s₁ _ ⟨hr₁, numbers, rfl, hcount, hsorted, hrange⟩
  rw [ht]
  refine ensures_run_lift (LocalTransport.ensures_pushAll hpush ?_
    (hstart s₁ hr₁ numbers hcount hsorted hrange))
  intro ids s₂ hi s₃ hr₃
  refine ⟨(hend s₂ hi s₃ hr₃).1, ensures_run_lift (ensures_within (within_note _) fun s₄ hr₄ => ?_)⟩
  have hr₄ := trans_of R hr₃ hr₄
  refine ⟨(hend s₂ hi s₄ hr₄).1, fun _ => ensures_done fun s₅ hr₅ => ?_⟩
  exact hend s₂ hi s₅ (trans_of R hr₄ hr₅)

end Worker

end Turnstile
