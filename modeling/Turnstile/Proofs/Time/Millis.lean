import Mathlib.Algebra.Group.Nat.Defs
import Turnstile.Proofs.Time.Deadline

/-!
# Whole milliseconds

A clock that counts milliseconds shows instants that are told by their count. Order, deadlines and
the time left are then those of the counts.
-/

namespace Turnstile.Instant

/-- Instants that a clock with a resolution of a millisecond shows. -/
def Whole (t : Instant) : Prop := t.Plain ∧ t.nano % 1000000 = 0

instance (t : Instant) : Decidable t.Whole := inferInstanceAs (Decidable (_ ∧ _))

variable {a b t d : Instant}

theorem Whole.toNanos_eq (h : t.Whole) : t.toNanos = t.toMillis * 1000000 := by
  obtain ⟨_, hnano⟩ := h
  simp only [toNanos, toMillis]
  omega

theorem Whole.le_iff (ha : a.Whole) (hb : b.Whole) : a ≤ b ↔ a.toMillis ≤ b.toMillis := by
  rw [le_iff_toNanos_le ha.1 hb.1, ha.toNanos_eq, hb.toNanos_eq]
  omega

theorem Whole.toMillis_inj (ha : a.Whole) (hb : b.Whole) : a.toMillis = b.toMillis ↔ a = b := by
  constructor
  · intro h
    have hab : a ≤ b := (ha.le_iff hb).mpr (Int.le_of_eq h)
    have hba : b ≤ a := (hb.le_iff ha).mpr (Int.le_of_eq h.symm)
    exact le_antisymm hab hba
  · exact congrArg toMillis

theorem Whole.ofMillis?_toMillis (h : t.Whole) : ofMillis? t.toMillis = some t := by
  unfold ofMillis?
  rw [ofNanos?_eq_some_iff]
  exact ⟨h.1, h.toNanos_eq⟩

/-- The count is a double without rounding. -/
theorem Whole.natAbs_toMillis_le (h : t.Whole) : t.toMillis.natAbs ≤ 2 ^ 53 := by
  obtain ⟨⟨hfirst, hlast, hnano⟩, _⟩ := h
  simp only [firstSecond] at hfirst
  simp only [lastSecond] at hlast
  simp only [toMillis]
  omega

theorem Whole.deadline (h : t.Whole) {k : Nat} (hd : t.deadline? (Duration.ofMillis k) = some d) :
    d.Whole ∧ d.toMillis = t.toMillis + k := by
  obtain ⟨hplain, hnanos⟩ := plain_of_deadline? h.1 hd
  obtain ⟨⟨_, _, hlt⟩, hmod⟩ := h
  have hlt' := hplain.2.2
  simp only [toNanos, Duration.ofMillis] at hnanos
  refine ⟨⟨hplain, by omega⟩, ?_⟩
  simp only [toMillis]
  omega

theorem Whole.timeLeft_eq (ht : t.Whole) (hd : d.Whole) :
    t.timeLeft d = Duration.ofMillis (d.toMillis - t.toMillis).toNat := by
  have hnanos := timeLeft_of_plain ht.1 hd.1
  rw [ht.toNanos_eq, hd.toNanos_eq] at hnanos
  obtain ⟨nanos, hleft⟩ : ∃ nanos, t.timeLeft d = ⟨nanos⟩ := ⟨_, rfl⟩
  rw [hleft] at hnanos ⊢
  simp only [Duration.ofMillis, Duration.mk.injEq]
  change nanos = _ at hnanos
  omega

end Turnstile.Instant
