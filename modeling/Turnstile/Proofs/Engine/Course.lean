import Turnstile.Proofs.Engine.Thread
import Turnstile.Proofs.Store.Ideal

/-!
# The course of a thread

A thread runs while others move its machine. `Ensures` says what holds at every moment of its course
and at its end, whatever the others do along a relation. A part of a thread that is `Within` such a
relation does no more than the others may do.
-/

namespace Turnstile

namespace Thread

variable {Q ρ α β ε : Type} {R G : Machine → Machine → Prop} {P : Machine → Prop}
  {s s' s'' : Machine} {x y : Thread Q ρ α} {post post' : α → Machine → Prop}

/-- Where a thread and its machine come while others move the machine. -/
inductive Reaches (R : Machine → Machine → Prop) (x : Thread Q ρ α) (s : Machine) :
    Thread Q ρ α → Machine → Prop
  | start : Reaches R x s x s
  | call {c : StoreCall} {next : Except Fault c.Answer → Thread Q ρ α} {s' : Machine}
      (h : Reaches R x s (call c next) s') :
      Reaches R x s (next (s'.callStore c).1) (s'.callStore c).2
  | step {effect : Machine → Machine} {next : Machine → Thread Q ρ α} {s' : Machine}
      (h : Reaches R x s (step effect next) s') : Reaches R x s (next s') (effect s')
  | answer {q : Q} {next : ρ → Thread Q ρ α} {s' : Machine} (r : ρ)
      (h : Reaches R x s (await q next) s') : Reaches R x s (next r) s'
  | meanwhile {y : Thread Q ρ α} {s' s'' : Machine} (h : Reaches R x s y s') (hr : R s' s'') :
      Reaches R x s y s''

theorem Reaches.trans {x y z : Thread Q ρ α} (h : Reaches R x s y s') (h' : Reaches R y s' z s'') :
    Reaches R x s z s'' := by
  induction h' with
  | start => exact h
  | call _ ih => exact .call ih
  | step _ ih => exact .step ih
  | answer r _ ih => exact .answer r ih
  | meanwhile _ hr ih => exact .meanwhile ih hr

theorem reaches_drive (x : Thread Q ρ α) (s : Machine) :
    Reaches R x s (x.drive s).1 (x.drive s).2 := by
  induction x generalizing s with
  | done a => exact .start
  | call c next ih => exact Reaches.trans (.call .start) (ih _ _)
  | step effect next ih => exact Reaches.trans (.step .start) (ih _ _)
  | await q next ih => exact .start

/-! ### What a thread ensures -/

/-- `P` holds at every moment, and `post` of the answer once there is one. -/
def Ensures (R : Machine → Machine → Prop) (P : Machine → Prop) :
    Thread Q ρ α → (α → Machine → Prop) → Machine → Prop
  | done a, post, s => ∀ s', R s s' → P s' ∧ post a s'
  | call c next, post, s =>
    ∀ s', R s s' → P s' ∧ Ensures R P (next (s'.callStore c).1) post (s'.callStore c).2
  | step effect next, post, s => ∀ s', R s s' → P s' ∧ Ensures R P (next s') post (effect s')
  | await _ next, post, s => ∀ s', R s s' → P s' ∧ ∀ r, Ensures R P (next r) post s'

theorem Ensures.mono (h : Ensures R P x post s)
    (hpost : ∀ a s', P s' → post a s' → post' a s') : Ensures R P x post' s := by
  induction x generalizing s with
  | done a =>
    intro s' hr
    obtain ⟨hp, ha⟩ := h s' hr
    exact ⟨hp, hpost a s' hp ha⟩
  | call c next ih =>
    intro s' hr
    obtain ⟨hp, hn⟩ := h s' hr
    exact ⟨hp, ih _ hn⟩
  | step effect next ih =>
    intro s' hr
    obtain ⟨hp, hn⟩ := h s' hr
    exact ⟨hp, ih _ hn⟩
  | await q next ih =>
    intro s' hr
    obtain ⟨hp, hn⟩ := h s' hr
    exact ⟨hp, fun r => ih r (hn r)⟩

theorem ensures_done {a : α} (h : ∀ s', R s s' → P s' ∧ post a s') :
    Ensures R P (pure a : Thread Q ρ α) post s := h

theorem ensures_step {effect : Machine → α × Machine}
    (h : ∀ s', R s s' → P s' ∧ ∀ s'', R (effect s').2 s'' → P s'' ∧ post (effect s').1 s'') :
    Ensures R P (Machine.step effect : Thread Q ρ α) post s := h

theorem ensures_callStore {c : StoreCall} {post : Except Fault c.Answer → Machine → Prop}
    (h : ∀ s', R s s' → P s' ∧
      ∀ s'', R (s'.callStore c).2 s'' → P s'' ∧ post (s'.callStore c).1 s'') :
    Ensures R P (MonadStore.callStore c : Thread Q ρ (Except Fault c.Answer)) post s := h

section

variable [IsPreorder Machine R]

theorem Ensures.meanwhile (h : Ensures R P x post s) (hr : R s s') : Ensures R P x post s' := by
  cases x <;> exact fun s'' hr' => h s'' (trans_of R hr hr')

theorem Ensures.moment (h : Ensures R P x post s) : P s := by
  cases x <;> exact (h s (refl_of R s)).1

theorem Ensures.of_reaches (h : Ensures R P x post s) (hr : Reaches R x s y s') :
    Ensures R P y post s' := by
  induction hr with
  | start => exact h
  | call hr ih => exact (ih _ (refl_of R _)).2
  | step hr ih => exact (ih _ (refl_of R _)).2
  | answer r hr ih => exact (ih _ (refl_of R _)).2 r
  | meanwhile hr he ih => exact ih.meanwhile he

/-- A thread that asks no questions comes to its end when nobody disturbs it. -/
theorem Ensures.drive {x : Thread Empty ρ α} (h : Ensures R P x post s) :
    ∃ a s', x.drive s = (done a, s') ∧ P s' ∧ post a s' := by
  induction x generalizing s with
  | done a => exact ⟨a, s, rfl, h s (refl_of R s)⟩
  | call c next ih => exact ih _ (h s (refl_of R s)).2
  | step effect next ih => exact ih _ (h s (refl_of R s)).2
  | await q next ih => exact q.elim

theorem ensures_bind {f : α → Thread Q ρ β} {post : β → Machine → Prop}
    (h : Ensures R P x (fun a s' => Ensures R P (f a) post s') s) :
    Ensures R P (x >>= f) post s := by
  induction x generalizing s with
  | done a => exact (h s (refl_of R s)).2
  | call c next ih =>
    intro s' hr
    obtain ⟨hp, hn⟩ := h s' hr
    exact ⟨hp, ih _ hn⟩
  | step effect next ih =>
    intro s' hr
    obtain ⟨hp, hn⟩ := h s' hr
    exact ⟨hp, ih _ hn⟩
  | await q next ih =>
    intro s' hr
    obtain ⟨hp, hn⟩ := h s' hr
    exact ⟨hp, fun r => ih r (hn r)⟩

/-- What is ensured at the end goes on to hold. -/
theorem Ensures.lasting (h : Ensures R P x post s) :
    Ensures R P x (fun a s' => ∀ s'', R s' s'' → P s'' ∧ post a s'') s := by
  induction x generalizing s with
  | done a =>
    intro s' hr
    exact ⟨(h s' hr).1, fun s'' hr' => h s'' (trans_of R hr hr')⟩
  | call c next ih =>
    intro s' hr
    obtain ⟨hp, hn⟩ := h s' hr
    exact ⟨hp, ih _ hn⟩
  | step effect next ih =>
    intro s' hr
    obtain ⟨hp, hn⟩ := h s' hr
    exact ⟨hp, ih _ hn⟩
  | await q next ih =>
    intro s' hr
    obtain ⟨hp, hn⟩ := h s' hr
    exact ⟨hp, fun r => ih r (hn r)⟩

theorem ensures_run_bind {x : ExceptT ε (Thread Q ρ) α} {f : α → ExceptT ε (Thread Q ρ) β}
    {post : Except ε β → Machine → Prop}
    (h : Ensures R P x.run (fun
      | .ok a => fun s' => Ensures R P (f a).run post s'
      | .error e => fun s' => Ensures R P (done (.error e) : Thread Q ρ (Except ε β)) post s') s) :
    Ensures R P (x >>= f).run post s := by
  rw [ExceptT.run_bind]
  refine ensures_bind (h.mono ?_)
  rintro (e | a) s' hp hr
  · exact hr
  · exact hr

theorem ensures_run_lift {x : Thread Q ρ α} {f : α → ExceptT ε (Thread Q ρ) β}
    {post : Except ε β → Machine → Prop}
    (h : Ensures R P x (fun a s' => Ensures R P (f a).run post s') s) :
    Ensures R P ((ExceptT.lift x : ExceptT ε (Thread Q ρ) α) >>= f).run post s := by
  have hrun : ((ExceptT.lift x : ExceptT ε (Thread Q ρ) α) >>= f).run =
      x >>= fun a => (f a).run := by
    rw [ExceptT.run_bind, ExceptT.run_lift, map_eq_pure_bind, bind_assoc]
    rfl
  rw [hrun]
  exact ensures_bind h

theorem ensures_run_of_lift {x : Thread Q ρ α} {post : Except ε α → Machine → Prop}
    (h : Ensures R P x (fun a => post (.ok a)) s) :
    Ensures R P (ExceptT.lift x : ExceptT ε (Thread Q ρ) α).run post s :=
  ensures_bind (h.lasting.mono fun _ _ _ hl => ensures_done hl)

end

/-! ### Threads within a relation -/

/-- A thread that moves machines along a relation only, however it is answered. -/
inductive Within (G : Machine → Machine → Prop) : Thread Q ρ α → Prop
  | done (a : α) : Within G (done a)
  | call {c : StoreCall} {next : Except Fault c.Answer → Thread Q ρ α}
      (hc : ∀ s : Machine, G s (s.callStore c).2) (hn : ∀ r, Within G (next r)) :
      Within G (call c next)
  | step {effect : Machine → Machine} {next : Machine → Thread Q ρ α}
      (he : ∀ s, G s (effect s)) (hn : ∀ s, Within G (next s)) : Within G (step effect next)
  | await {q : Q} {next : ρ → Thread Q ρ α} (hn : ∀ r, Within G (next r)) : Within G (await q next)

theorem Within.weaken {G' : Machine → Machine → Prop} (h : Within G x)
    (hg : ∀ s s', G s s' → G' s s') : Within G' x := by
  induction h with
  | done a => exact .done a
  | call hc hn ih => exact .call (fun s => hg _ _ (hc s)) ih
  | step he hn ih => exact .step (fun s => hg _ _ (he s)) ih
  | await hn ih => exact .await ih

theorem Within.bind {f : α → Thread Q ρ β} (hx : Within G x) (hf : ∀ a, Within G (f a)) :
    Within G (x >>= f) := by
  induction hx with
  | done a => exact hf a
  | call hc hn ih => exact .call hc ih
  | step he hn ih => exact .step he ih
  | await hn ih => exact .await ih

theorem Within.run_bind {x : ExceptT ε (Thread Q ρ) α} {f : α → ExceptT ε (Thread Q ρ) β}
    (hx : Within G x.run) (hf : ∀ a, Within G (f a).run) : Within G (x >>= f).run := by
  rw [ExceptT.run_bind]
  refine hx.bind ?_
  rintro (e | a)
  · exact .done _
  · exact hf a

theorem Within.run_lift (hx : Within G x) :
    Within G (ExceptT.lift x : ExceptT ε (Thread Q ρ) α).run :=
  hx.bind fun _ => .done _

theorem within_step {effect : Machine → α × Machine} (h : ∀ s, G s (effect s).2) :
    Within G (Machine.step effect : Thread Q ρ α) := .step h fun _ => .done _

theorem within_callStore {c : StoreCall} (h : ∀ s : Machine, G s (s.callStore c).2) :
    Within G (callStore c : Attempt (Thread Q ρ) c.Answer).run := .call h fun _ => .done _

/-- To those who are prepared for a relation, a thread within it is nothing new. -/
theorem ensures_of_within {T : Machine → Machine → Prop} [IsPreorder Machine T] (hx : Within G x)
    (hr : ∀ s s', R s s' → T s s') (hg : ∀ s s', G s s' → T s s')
    (h : ∀ s', T s s' → P s' ∧ ∀ a, post a s') : Ensures R P x post s := by
  induction hx generalizing s with
  | done a =>
    intro s' hs
    obtain ⟨hp, ha⟩ := h s' (hr _ _ hs)
    exact ⟨hp, ha a⟩
  | call hc hn ih =>
    intro s' hs
    exact ⟨(h s' (hr _ _ hs)).1,
      ih _ fun s'' hs' => h s'' (trans_of T (trans_of T (hr _ _ hs) (hg _ _ (hc s'))) hs')⟩
  | step he hn ih =>
    intro s' hs
    exact ⟨(h s' (hr _ _ hs)).1,
      ih _ fun s'' hs' => h s'' (trans_of T (trans_of T (hr _ _ hs) (hg _ _ (he s'))) hs')⟩
  | await hn ih =>
    intro s' hs
    exact ⟨(h s' (hr _ _ hs)).1, fun r => ih r fun s'' hs' => h s'' (trans_of T (hr _ _ hs) hs')⟩

theorem ensures_within [IsPreorder Machine R] (hx : Within R x)
    (h : ∀ s', R s s' → P s' ∧ ∀ a, post a s') : Ensures R P x post s :=
  ensures_of_within hx (fun _ _ => id) (fun _ _ => id) h

section

variable [IsPreorder Machine R] {K : Machine → Prop}

/-- What follows within the relation takes nothing back. -/
theorem Ensures.bind_within {f : α → Thread Q ρ β} (h : Ensures R P x (fun _ => K) s)
    (hf : ∀ a, Within R (f a)) : Ensures R P (x >>= f) (fun _ => K) s := by
  refine ensures_bind (h.lasting.mono fun a s' _ hl => ensures_within (hf a) fun s'' hr => ?_)
  obtain ⟨hp, hk⟩ := hl s'' hr
  exact ⟨hp, fun _ => hk⟩

theorem Ensures.run_bind_within {x : ExceptT ε (Thread Q ρ) α}
    {f : α → ExceptT ε (Thread Q ρ) β} (h : Ensures R P x.run (fun _ => K) s)
    (hf : ∀ a, Within R (f a).run) : Ensures R P (x >>= f).run (fun _ => K) s := by
  rw [ExceptT.run_bind]
  refine h.bind_within ?_
  rintro (e | a)
  · exact .done _
  · exact hf a

end

end Thread

end Turnstile
