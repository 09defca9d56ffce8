import Turnstile.Proofs.Time.Deadline
import Turnstile.Store.Memory

/-!
# When a slot expires

The deadline of a slot and the time left until then are computed in bounded kinds of time: moves along
the time line have a longest length, and instants have a first and a last one. None of these bounds shows.
A slot expires when its lifetime has passed since it was written, counted in nanoseconds, and never if no
instant lies there; until then the time left is the rest of the lifetime.
-/

namespace Turnstile.Slot

variable {now t d : Instant} {ttl : Duration} {due : Int}

/-- A slot whose deadline is past the last instant never expires. -/
theorem isExpired_ofNanos? (value : StoredValue) (hfirst : Instant.first.toNanos ≤ due)
    (ht : t.Representable) :
    isExpired { value, deadline := Instant.ofNanos? due } t = false ↔ t.count < due := by
  cases hd : Instant.ofNanos? due with
  | none =>
    have hlast := Instant.count_lt_of_ofNanos?_eq_none hd hfirst ht.2.1
    simp only [isExpired, hlast]
  | some d =>
    rw [← Instant.lt_ofNanos?_iff hd]
    simp only [isExpired, decide_eq_false_iff_not, not_le]

theorem isExpired_of_written (value : StoredValue) (hnow : now.Plain) (ttl : Duration)
    (ht : t.Representable) :
    isExpired { value, deadline := now.deadline? ttl } t = true ↔
      now.toNanos + ttl.nanos ≤ t.count := by
  have hfirst : Instant.first.toNanos ≤ now.toNanos + ttl.nanos := by
    have hstart := Instant.first_le_toNanos hnow
    omega
  rw [Instant.deadline?_of_plain hnow, ← Bool.not_eq_false, isExpired_ofNanos? value hfirst ht]
  exact Int.not_lt

theorem timeLeft_of_written (hnow : now.Plain) (ht : t.Plain) (hd : now.deadline? ttl = some d) :
    (t.timeLeft d).nanos = (now.toNanos + ttl.nanos - t.toNanos).toNat := by
  obtain ⟨hplain, hnanos⟩ := Instant.plain_of_deadline? hnow hd
  rw [Instant.timeLeft_of_plain ht hplain, hnanos]

/-- A slot that is written for a while has a deadline if an instant lies just that far ahead. It counts as
expired from then on, and what is left of its lifetime is exact until then and nothing afterwards. Neither
the difference of the two instants nor the time left is too long to be represented. In a leap second, the
excess of which takes no time here, nothing expires that has not expired before. -/
theorem expires_when_due (value : StoredValue) (hnow : now.Plain) (ttl : Duration) :
    let slot : Slot := { value, deadline := now.deadline? ttl }
    let due : Int := now.toNanos + ttl.nanos
    (slot.deadline = none ↔ Instant.last.toNanos < due) ∧
      (∀ d, slot.deadline = some d → d.Plain ∧ d.toNanos = due) ∧
      (∀ t : Instant, t.Plain →
        (slot.isExpired t = true ↔ due ≤ t.toNanos) ∧
          ∀ d, slot.deadline = some d →
            (d.nanosSince t).natAbs ≤ Instant.longestMove.nanos ∧ t.timeLeft d ≤ Duration.max ∧
              (slot.isExpired t = false →
                ((t.timeLeft d).nanos : Int) = due - t.toNanos ∧ 0 < (t.timeLeft d).nanos) ∧
              (slot.isExpired t = true → t.timeLeft d = Duration.zero)) ∧
      ∀ t : Instant, t.Representable → (slot.isExpired t = true ↔ due ≤ t.count) := by
  intro slot due
  have hover (t : Instant) (ht : t.Representable) : slot.isExpired t = true ↔ due ≤ t.count :=
    isExpired_of_written value hnow ttl ht
  have hdeadline (d : Instant) (hd : slot.deadline = some d) : d.Plain ∧ d.toNanos = due :=
    Instant.plain_of_deadline? hnow hd
  refine ⟨Instant.deadline?_eq_none_iff hnow ttl, hdeadline, fun t ht => ?_, hover⟩
  have hexpired : slot.isExpired t = true ↔ due ≤ t.toNanos := by
    rw [hover t ht.representable, Instant.count_of_plain ht]
  refine ⟨hexpired, fun d hd => ?_⟩
  have hstop : d.Representable := (hdeadline d hd).1.representable
  have hleft : (t.timeLeft d).nanos = (due - t.toNanos).toNat := timeLeft_of_written hnow ht hd
  refine ⟨Instant.natAbs_nanosSince_le hstop ht.representable,
    Instant.timeLeft_le_max ht.representable hstop, fun hlive => ?_, fun hgone => ?_⟩
  · have hahead : ¬ due ≤ t.toNanos := by
      rw [← hexpired, hlive]
      exact Bool.false_ne_true
    omega
  · have hpast : due ≤ t.toNanos := hexpired.mp hgone
    have hnothing : (t.timeLeft d).nanos = 0 := by omega
    exact congrArg Duration.mk hnothing

/-- What is written at the first instant for the length of the whole line expires at the last instant. A
nanosecond before it has a nanosecond left, and with a nanosecond more it never expires. -/
theorem expires_when_due_of_whole_line :
    let line : Nat := 16544868105599999999999
    let slot (length : Nat) : Slot :=
      { value := .text "v", deadline := Instant.first.deadline? ⟨length⟩ }
    let eve : Instant := ⟨Instant.lastSecond, 999999998⟩
    Instant.first.Plain ∧ Instant.last.Plain ∧ eve.Plain ∧
      (slot line).isExpired Instant.last = true ∧
      (slot line).deadline = some Instant.last ∧ (slot line).isExpired eve = false ∧
      (eve.timeLeft Instant.last).nanos = 1 ∧
      (slot (line + 1)).deadline = none ∧ (slot (line + 1)).isExpired Instant.last = false := by
  intro line slot eve
  have hfirst : Instant.first.Plain := by decide
  have hlast : Instant.last.Plain := by decide
  have heve : eve.Plain := by decide
  obtain ⟨_, _, hdue, _⟩ := expires_when_due (.text "v") hfirst ⟨line⟩
  obtain ⟨hendless, _, hdue', _⟩ := expires_when_due (.text "v") hfirst ⟨line + 1⟩
  have hdeadline : (slot line).deadline = some Instant.last := by decide
  have hlive : (slot line).isExpired eve = false := by decide
  obtain ⟨_, hleft⟩ := hdue eve heve
  obtain ⟨_, _, hexact, _⟩ := hleft Instant.last hdeadline
  obtain ⟨hnanos, _⟩ := hexact hlive
  refine ⟨hfirst, hlast, heve, (hdue Instant.last hlast).1.mpr (by decide), hdeadline, hlive, ?_,
    hendless.mpr (by decide), ?_⟩
  · have hone : ((eve.timeLeft Instant.last).nanos : Int) = 1 := hnanos.trans (by decide)
    omega
  · rw [← Bool.not_eq_true, (hdue' Instant.last hlast).1]
    decide

end Turnstile.Slot
