import Turnstile.Proofs.Engine.Thread

/-!
# The calls of one thread and their moments

What a thread has become is told by its own calls and their answers, whoever took turns with it. Each
call parts a run in two: what led up to it, and what went on from its answer. So whatever a thread was
answered was true of a machine that the run came by.
-/

namespace Turnstile.Thread

variable {Q ρ α : Type} {κ : Type} [DecidableEq κ]

/-- A call whose answer is known. -/
theorem Interleaved.called {init : κ → Thread Q ρ α} {starts : Machine → Prop}
    {elsewhere : Machine → Machine → Prop} {log : List (Made κ)} {threads : κ → Thread Q ρ α}
    {s s' : Machine} (who : κ) {c : StoreCall} {next : Except Fault c.Answer → Thread Q ρ α}
    {r : Except Fault c.Answer} (h : Interleaved init starts elsewhere log threads s)
    (hw : threads who = .call c next) (hc : s.callStore c = (r, s')) :
    Interleaved init starts elsewhere (⟨s.clock, who, c, r⟩ :: log)
      (Function.update threads who (next r)) s' := by
  have hcall := h.call who hw
  rw [hc] at hcall
  exact hcall

/-- In a run that has come to `log`, `threads` and `s`, the call `made` was made on the machine `sₘ`. -/
def MadeOn (init : κ → Thread Q ρ α) (starts : Machine → Prop)
    (elsewhere : Machine → Machine → Prop) (log : List (Made κ)) (threads : κ → Thread Q ρ α)
    (s : Machine) (made : Made κ) (sₘ : Machine) : Prop :=
  ∃ later earlier before next,
    log = later ++ made :: earlier ∧ Interleaved init starts elsewhere earlier before sₘ ∧
    before made.who = .call made.call next ∧ made.time = sₘ.clock ∧
    made.answer = (sₘ.callStore made.call).1 ∧
    Interleaved (Function.update before made.who (next made.answer))
      (· = (sₘ.callStore made.call).2) elsewhere later threads s

variable {init : κ → Thread Q ρ α} {starts : Machine → Prop} {elsewhere : Machine → Machine → Prop}
  {log : List (Made κ)} {threads : κ → Thread Q ρ α} {s : Machine} {made : Made κ}

theorem Interleaved.madeOn (h : Interleaved init starts elsewhere log threads s)
    (hmem : made ∈ log) : ∃ sₘ, MadeOn init starts elsewhere log threads s made sₘ := by
  induction h with
  | start => cases hmem
  | @call log threads s who c next hr hw ih =>
    rcases List.mem_cons.mp hmem with rfl | hold
    · exact ⟨s, [], log, threads, next, rfl, hr, hw, rfl, rfl, .start rfl⟩
    · obtain ⟨sₘ, later, earlier, before, next', rfl, hbefore, hcall, ht, ha, hafter⟩ := ih hold
      exact ⟨sₘ, _ :: later, earlier, before, next', rfl, hbefore, hcall, ht, ha,
        hafter.call who hw⟩
  | step who hr hw ih =>
    obtain ⟨sₘ, later, earlier, before, next', hlog, hbefore, hcall, ht, ha, hafter⟩ := ih hmem
    exact ⟨sₘ, later, earlier, before, next', hlog, hbefore, hcall, ht, ha, hafter.step who hw⟩
  | answer who r hr hw ih =>
    obtain ⟨sₘ, later, earlier, before, next', hlog, hbefore, hcall, ht, ha, hafter⟩ := ih hmem
    exact ⟨sₘ, later, earlier, before, next', hlog, hbefore, hcall, ht, ha, hafter.answer who r hw⟩
  | elsewhere hr he ih =>
    obtain ⟨sₘ, later, earlier, before, next', hlog, hbefore, hcall, ht, ha, hafter⟩ := ih hmem
    exact ⟨sₘ, later, earlier, before, next', hlog, hbefore, hcall, ht, ha, hafter.elsewhere he⟩

/-! ### The calls of one thread -/

/-- The calls that one thread has made, the newest first. -/
def callsOf (who : κ) (log : List (Made κ)) : List (Made κ) := log.filter fun made => made.who = who

@[simp] theorem mem_callsOf {who : κ} : made ∈ callsOf who log ↔ made ∈ log ∧ made.who = who := by
  simp [callsOf]

theorem callsOf_cons_self : callsOf made.who (made :: log) = made :: callsOf made.who log :=
  List.filter_cons_of_pos (by simp)

theorem callsOf_cons_of_ne {who : κ} (h : made.who ≠ who) :
    callsOf who (made :: log) = callsOf who log :=
  List.filter_cons_of_neg (by simpa using h)

/-- What holds of every thread at first, and of what a thread becomes with each step that it takes,
holds of all threads together with their own calls. -/
theorem Interleaved.own {P : κ → List (Made κ) → Thread Q ρ α → Prop}
    (h : Interleaved init starts elsewhere log threads s) (hinit : ∀ who, P who [] (init who))
    (hcall : ∀ who calls c next, P who calls (.call c next) → ∀ t r,
      P who (⟨t, who, c, r⟩ :: calls) (next r))
    (hstep : ∀ who calls effect next, P who calls (.step effect next) → ∀ s, P who calls (next s))
    (hanswer : ∀ who calls q next, P who calls (.await q next) → ∀ r, P who calls (next r)) :
    ∀ who, P who (callsOf who log) (threads who) := by
  have hupdate {log : List (Made κ)} {threads : κ → Thread Q ρ α} {who : κ} {x : Thread Q ρ α}
      (ih : ∀ who, P who (callsOf who log) (threads who)) (hx : P who (callsOf who log) x) :
      ∀ other, P other (callsOf other log) (Function.update threads who x other) :=
    (Function.forall_update_iff threads fun other => P other (callsOf other log)).mpr
      ⟨hx, fun other _ => ih other⟩
  induction h with
  | start => exact hinit
  | @call log threads s who c next hr hw ih =>
    intro other
    have hown := ih who
    rw [hw] at hown
    by_cases ho : other = who
    · subst ho
      rw [Function.update_self]
      have hnext := hcall _ _ _ _ hown s.clock (s.callStore c).1
      rwa [← callsOf_cons_self] at hnext
    · rw [Function.update_of_ne ho, callsOf_cons_of_ne fun he => ho he.symm]
      exact ih other
  | @step log threads s who effect next hr hw ih =>
    have hown := ih who
    rw [hw] at hown
    exact hupdate ih (hstep _ _ _ _ hown s)
  | @answer log threads s who q next r hr hw ih =>
    have hown := ih who
    rw [hw] at hown
    exact hupdate ih (hanswer _ _ _ _ hown r)
  | elsewhere hr he ih => exact ih

end Turnstile.Thread
