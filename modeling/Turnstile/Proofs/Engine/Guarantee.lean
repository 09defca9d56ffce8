import Turnstile.Proofs.Simulation.Moves

/-!
# Guarantees of a thread

A thread may count on something that holds of its machine at every moment, and on answers that do not
occur. `Respects` says what it does in return: it moves the machine along a relation only, whatever
others do between its steps.
-/

namespace Turnstile.Thread

variable {Q ρ α β ε : Type} {F : Machine → Prop} {G : Machine → Machine → Prop}
  {A : (c : StoreCall) → Except Fault c.Answer → Prop} {x : Thread Q ρ α} {post post' : α → Prop}

/-- While `F` holds and no call is answered against `A`, the thread moves its machine along `G`; and
`post` holds of its result. -/
def Respects (F : Machine → Prop) (G : Machine → Machine → Prop)
    (A : (c : StoreCall) → Except Fault c.Answer → Prop) : Thread Q ρ α → (α → Prop) → Prop
  | done a, post => post a
  | call c next, post => ∀ s, F s → A c (s.callStore c).1 →
    G s (s.callStore c).2 ∧ Respects F G A (next (s.callStore c).1) post
  | step effect next, post => ∀ s, F s → G s (effect s) ∧ Respects F G A (next s) post
  | await _ next, post => ∀ r, Respects F G A (next r) post

theorem Respects.mono (h : Respects F G A x post) (hpost : ∀ a, post a → post' a) :
    Respects F G A x post' := by
  induction x with
  | done a => exact hpost a h
  | call c next ih =>
    intro s hf ha
    obtain ⟨hg, hn⟩ := h s hf ha
    exact ⟨hg, ih _ hn⟩
  | step effect next ih =>
    intro s hf
    obtain ⟨hg, hn⟩ := h s hf
    exact ⟨hg, ih _ hn⟩
  | await q next ih => exact fun r => ih r (h r)

theorem Respects.bind {f : α → Thread Q ρ β} {post : β → Prop}
    (h : Respects F G A x fun a => Respects F G A (f a) post) : Respects F G A (x >>= f) post := by
  induction x with
  | done a => exact h
  | call c next ih =>
    intro s hf ha
    obtain ⟨hg, hn⟩ := h s hf ha
    exact ⟨hg, ih _ hn⟩
  | step effect next ih =>
    intro s hf
    obtain ⟨hg, hn⟩ := h s hf
    exact ⟨hg, ih _ hn⟩
  | await q next ih => exact fun r => ih r (h r)

/-- What holds of the result of an attempt that did not fail. -/
def Succeeds (post : α → Prop) : Except ε α → Prop
  | .ok a => post a
  | .error _ => True

theorem Succeeds.of_forall {p : α → Prop} (h : ∀ a, p a) (r : Except ε α) : Succeeds p r := by
  cases r with
  | error e => exact trivial
  | ok a => exact h a

theorem respects_pure {a : α} {p : α → Prop} (h : p a) :
    Respects F G A (pure a : ExceptT ε (Thread Q ρ) α).run (Succeeds p) := h

theorem Respects.run_bind {x : ExceptT ε (Thread Q ρ) α} {f : α → ExceptT ε (Thread Q ρ) β}
    {p : α → Prop} {post : β → Prop} (hx : Respects F G A x.run (Succeeds p))
    (hf : ∀ a, p a → Respects F G A (f a).run (Succeeds post)) :
    Respects F G A (x >>= f).run (Succeeds post) := by
  rw [ExceptT.run_bind]
  refine (hx.mono ?_).bind
  rintro (e | a) ha
  · exact trivial
  · exact hf a ha

theorem Respects.run_lift {post : α → Prop} (h : Respects F G A x post) :
    Respects F G A (ExceptT.lift x : ExceptT ε (Thread Q ρ) α).run (Succeeds post) :=
  (h.mono fun _ ha => ha).bind

theorem respects_callStore {c : StoreCall} {p : c.Answer → Prop}
    (h : ∀ s, F s → A c (s.callStore c).1 → G s (s.callStore c).2 ∧ Succeeds p (s.callStore c).1) :
    Respects F G A (callStore c : Attempt (Thread Q ρ) c.Answer).run (Succeeds p) := h

theorem respects_within {G' : Machine → Machine → Prop} (hx : Within G' x)
    (hg : ∀ s s', F s → G' s s' → G s s') : Respects F G A x fun _ => True := by
  induction hx with
  | done a => exact trivial
  | call hc hn ih => exact fun s hf _ => ⟨hg _ _ hf (hc s), ih _⟩
  | step he hn ih => exact fun s hf => ⟨hg _ _ hf (he s), ih _⟩
  | await hn ih => exact fun r => ih r

end Turnstile.Thread
