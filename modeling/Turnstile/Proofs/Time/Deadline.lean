import Mathlib.Order.Defs.LinearOrder
import Turnstile.Time.Instant

/-!
# Deadlines in exact arithmetic

Outside leap seconds an instant is a count of nanoseconds, and a deadline is the sum of two such
counts wherever that sum can be represented. Instants of every kind are linearly ordered.
-/

namespace Turnstile.Instant

/-! ### Order -/

instance : LinearOrder Instant where
  le_refl a := Or.inr ⟨rfl, Nat.le_refl _⟩
  le_trans a b c hab hbc := by
    simp only [le_def] at hab hbc ⊢
    omega
  le_antisymm a b hab hba := by
    obtain ⟨sa, na⟩ := a
    obtain ⟨sb, nb⟩ := b
    simp only [le_def] at hab hba
    have hs : sa = sb := by omega
    have hn : na = nb := by omega
    rw [hs, hn]
  le_total a b := by
    simp only [le_def]
    omega
  lt_iff_le_not_ge a b := by
    simp only [le_def, lt_def]
    omega
  toDecidableLE := fun a b => inferInstance

/-! ### Counting nanoseconds -/

theorem le_iff_toNanos_le {a b : Instant} (ha : a.Plain) (hb : b.Plain) :
    a ≤ b ↔ a.toNanos ≤ b.toNanos := by
  obtain ⟨_, _, hna⟩ := ha
  obtain ⟨_, _, hnb⟩ := hb
  simp only [le_def, toNanos]
  omega

theorem ofNanos?_eq_some_iff {n : Int} {t : Instant} :
    ofNanos? n = some t ↔ t.Plain ∧ t.toNanos = n := by
  obtain ⟨s, k⟩ := t
  simp only [ofNanos?, Plain, toNanos]
  constructor
  · intro h
    split at h
    · next hr =>
      cases h
      omega
    · cases h
  · rintro ⟨⟨hf, hl, hk⟩, rfl⟩
    have hs : (s * 1000000000 + (k : Int)) / 1000000000 = s := by omega
    have hn : ((s * 1000000000 + (k : Int)) % 1000000000).toNat = k := by omega
    rw [hs, hn, if_pos ⟨hf, hl⟩]

theorem ofNanos?_eq_none_iff {n : Int} :
    ofNanos? n = none ↔ n < first.toNanos ∨ last.toNanos < n := by
  have hr : ofNanos? n = none ↔
      ¬ (firstSecond ≤ n / 1000000000 ∧ n / 1000000000 ≤ lastSecond) := by
    simp only [ofNanos?, ite_eq_right_iff, reduceCtorEq, imp_false]
  rw [hr]
  simp only [first, last, toNanos, firstSecond, lastSecond]
  omega

/-! ### Deadlines -/

theorem isLeap_of_plain {t : Instant} (h : t.Plain) : t.isLeap = false := by
  obtain ⟨_, _, hn⟩ := h
  simp only [isLeap, decide_eq_false_iff_not]
  omega

/-- No instant is farther away than the longest move. -/
theorem ofNanos?_eq_none_of_far {t : Instant} {d : Duration} {n : Int} (ht : firstSecond ≤ t.second)
    (hd : ¬ d ≤ longestMove) (hn : t.toNanos + d.nanos ≤ n + 1000000000) : ofNanos? n = none := by
  apply ofNanos?_eq_none_iff.mpr
  right
  simp only [Duration.le_def, longestMove, Duration.ofMillis, Nat.pow_eq] at hd
  simp only [firstSecond] at ht
  simp only [toNanos, last, lastSecond] at hn ⊢
  omega

/-- The limit on moves takes nothing away. -/
theorem deadline?_of_plain {t : Instant} (h : t.Plain) (d : Duration) :
    t.deadline? d = ofNanos? (t.toNanos + d.nanos) := by
  unfold deadline?
  split
  · simp only [shift?, isLeap_of_plain h, Bool.false_eq_true, if_false]
  · next hd => exact (ofNanos?_eq_none_of_far h.1 hd (by omega)).symm

theorem plain_of_deadline? {t d : Instant} {ttl : Duration} (h : t.Plain)
    (hd : t.deadline? ttl = some d) : d.Plain ∧ d.toNanos = t.toNanos + ttl.nanos := by
  rw [deadline?_of_plain h] at hd
  exact ofNanos?_eq_some_iff.mp hd

theorem timeLeft_of_plain {t later : Instant} (h : t.Plain) (hl : later.Plain) :
    (t.timeLeft later).nanos = (later.toNanos - t.toNanos).toNat := by
  have hleap : nanosSince later t = later.toNanos - t.toNanos := by
    simp only [nanosSince, isLeap_of_plain h, isLeap_of_plain hl, Bool.false_eq_true, if_false,
      ite_self, toNanos]
    omega
  simp only [timeLeft, hleap]

theorem first_le_toNanos {t : Instant} (h : t.Plain) : first.toNanos ≤ t.toNanos := by
  obtain ⟨hf, _, _⟩ := h
  simp only [first, toNanos]
  omega

/-- A lifetime is endless just if it leads past the last instant. -/
theorem deadline?_eq_none_iff {t : Instant} (h : t.Plain) (d : Duration) :
    t.deadline? d = none ↔ last.toNanos < t.toNanos + d.nanos := by
  have hfirst := first_le_toNanos h
  rw [deadline?_of_plain h, ofNanos?_eq_none_iff]
  omega

/-! ### Leap seconds included -/

/-- A move forward leads to a later instant, and a move back to an earlier one. -/
theorem lt_shift? {t u : Instant} {delta : Int} (hn : t.nano < 2000000000)
    (hu : t.shift? delta = some u) : (0 < delta → t < u) ∧ (delta < 0 → u < t) := by
  have hmoved {n : Int} (hm : ofNanos? n = some u) :
      0 ≤ u.nano ∧ u.nano < 1000000000 ∧ u.second * 1000000000 + u.nano = n := by
    obtain ⟨⟨_, _, hnano⟩, he⟩ := ofNanos?_eq_some_iff.mp hm
    exact ⟨Nat.zero_le _, hnano, he⟩
  unfold shift? at hu
  simp only [isLeap, decide_eq_true_eq] at hu
  simp only [lt_def]
  split at hu
  · split at hu
    · cases hu
      refine ⟨fun _ => Or.inr ⟨rfl, ?_⟩, fun _ => Or.inr ⟨rfl, ?_⟩⟩
      · change t.nano < ((t.nano : Int) + delta).toNat
        omega
      · change ((t.nano : Int) + delta).toNat < t.nano
        omega
    · split at hu
      · obtain ⟨_, _, he⟩ := hmoved hu
        omega
      · obtain ⟨_, _, he⟩ := hmoved hu
        omega
  · obtain ⟨_, _, he⟩ := hmoved hu
    simp only [toNanos] at he
    omega

theorem lt_of_deadline? {t d : Instant} {ttl : Duration} (hn : t.nano < 2000000000)
    (h0 : 0 < ttl.nanos) (hd : t.deadline? ttl = some d) : t < d := by
  unfold deadline? at hd
  split at hd
  · exact (lt_shift? hn hd).1 (by omega)
  · cases hd

/-- The difference of two instants leaves out the excess of a leap second that has ended, unless it
leads to a later time of the day. -/
def LosesExcess (t later : Instant) : Prop :=
  t.isLeap ∧ t.second < later.second ∧ later.second % 86400 ≤ t.second % 86400

instance (t later : Instant) : Decidable (t.LosesExcess later) :=
  inferInstanceAs (Decidable (_ ∧ _ ∧ _))

theorem timeLeft_deadline? {t d : Instant} {ttl : Duration} (hn : t.nano < 2000000000)
    (hd : t.deadline? ttl = some d) (hloss : ¬ t.LosesExcess d) : t.timeLeft d = ttl := by
  have hshift : t.shift? ttl.nanos = some d := by
    unfold deadline? at hd
    split at hd
    · exact hd
    · cases hd
  have hsince : nanosSince d t = ttl.nanos := by
    unfold shift? at hshift
    simp only [LosesExcess, isLeap, decide_eq_true_eq] at hshift hloss
    simp only [nanosSince, isLeap, decide_eq_true_eq]
    split at hshift
    · next hleap =>
      simp only [hleap, true_and, not_and] at hloss
      split at hshift
      · next hstays =>
        cases hshift
        simp
        omega
      · next hleaves =>
        split at hshift
        · obtain ⟨⟨_, _, hdn⟩, hde⟩ := ofNanos?_eq_some_iff.mp hshift
          simp only [toNanos] at hde
          have hlater : d.second % 86400 > t.second % 86400 := by
            have hend := hloss (by omega)
            omega
          rw [if_pos hlater, if_pos hleap]
          omega
        · omega
    · obtain ⟨⟨_, _, hdn⟩, hde⟩ := ofNanos?_eq_some_iff.mp hshift
      simp only [toNanos] at hde
      split
      · omega
      · split <;> omega
  simp only [timeLeft, hsince, Int.toNat_natCast]

theorem lt_of_back? {t d : Instant} {ttl : Duration} (hn : t.nano < 2000000000)
    (h0 : 0 < ttl.nanos) (hd : t.back? ttl = some d) : d < t := by
  unfold back? at hd
  split at hd
  · exact (lt_shift? hn hd).2 (by omega)
  · cases hd

/-! ### Ages -/

/-- Instants that can be represented, in leap seconds and elsewhere. -/
def Representable (t : Instant) : Prop :=
  firstSecond ≤ t.second ∧ t.second ≤ lastSecond ∧ t.nano < 2000000000

instance (t : Instant) : Decidable t.Representable := inferInstanceAs (Decidable (_ ∧ _ ∧ _))

theorem Plain.representable {t : Instant} (h : t.Plain) : t.Representable := by
  obtain ⟨hf, hl, hn⟩ := h
  exact ⟨hf, hl, by omega⟩

/-- The line from the first to the last instant is shorter than the longest move. -/
theorem natAbs_nanosSince_le {a b : Instant} (ha : a.Representable) (hb : b.Representable) :
    (a.nanosSince b).natAbs ≤ longestMove.nanos := by
  obtain ⟨haf, hal, han⟩ := ha
  obtain ⟨hbf, hbl, hbn⟩ := hb
  simp only [firstSecond, lastSecond] at haf hal hbf hbl
  simp only [nanosSince, longestMove, Duration.ofMillis, Nat.pow_eq]
  split
  · split <;> omega
  · split
    · split <;> omega
    · omega

theorem timeLeft_le_max {t later : Instant} (ht : t.Representable) (hl : later.Representable) :
    t.timeLeft later ≤ Duration.max := by
  have hmove := natAbs_nanosSince_le hl ht
  have hlongest : longestMove ≤ Duration.max := by decide
  simp only [Duration.le_def] at hlongest ⊢
  simp only [timeLeft]
  omega

/-- How old something of the instant `u` is at `t`, in nanoseconds. The excess of a leap second counts
until that second is over. -/
def age (t u : Instant) : Int :=
  if u.second = t.second then (t.nano : Int) - u.nano
  else if u.second < t.second then
    t.toNanos - (u.second * 1000000000 + min (u.nano : Int) 1000000000)
  else t.toNanos - u.toNanos - if t.isLeap then 1000000000 else 0

theorem age_of_plain {t u : Instant} (ht : t.Plain) (hu : u.Plain) :
    t.age u = t.toNanos - u.toNanos := by
  obtain ⟨-, -, hnt⟩ := ht
  obtain ⟨-, -, hnu⟩ := hu
  simp only [age, isLeap, decide_eq_true_eq, toNanos]
  split
  · omega
  · split <;> omega

/-- Which instants come before such a count of nanoseconds. Those in the excess of a leap second come
before the next second only. -/
theorem exists_ofNanos?_iff {n : Int} {u : Instant} (hu : firstSecond ≤ u.second)
    (hn : n ≤ last.toNanos) : (∃ c, ofNanos? n = some c ∧ u ≤ c) ↔
      u.second * 1000000000 + min (u.nano : Int) 1000000000 ≤ n := by
  have hle {c : Instant} (hc : ofNanos? n = some c) :
      u ≤ c ↔ u.second * 1000000000 + min (u.nano : Int) 1000000000 ≤ n := by
    obtain ⟨⟨-, -, hnano⟩, rfl⟩ := ofNanos?_eq_some_iff.mp hc
    simp only [le_def, toNanos]
    omega
  constructor
  · rintro ⟨c, hc, huc⟩
    exact (hle hc).mp huc
  · intro hun
    cases hc : ofNanos? n with
    | none =>
      have hout := ofNanos?_eq_none_iff.mp hc
      simp only [toNanos, first, last] at hout hn
      omega
    | some c => exact ⟨c, rfl, (hle hc).mpr hun⟩

/-- A move back ends in the leap second in which it starts, or leaves it, or starts in none. -/
theorem shift?_back (t : Instant) (d : Nat) (ht : t.nano < 2000000000) :
    (t.isLeap = true ∧ d < 1000000000 ∧ t.shift? (-(d : Int)) = some ⟨t.second, t.nano - d⟩) ∨
      ((t.isLeap = true → 1000000000 ≤ d) ∧ t.shift? (-(d : Int)) = ofNanos? (t.toNanos - d)) := by
  unfold shift?
  cases hleap : t.isLeap with
  | false => exact Or.inr ⟨nofun, by simp [toNanos, Int.sub_eq_add_neg]⟩
  | true =>
    simp only [if_true]
    split
    · next hd =>
      refine Or.inl ⟨trivial, by omega, ?_⟩
      congr 2
      omega
    · next hd =>
      refine Or.inr ⟨fun _ => by omega, ?_⟩
      rw [if_neg (by omega)]
      rfl

theorem le_back?_iff {t u : Instant} (ht : t.Representable) (hu : u.Representable) (d : Duration) :
    (∃ cutoff, t.back? d = some cutoff ∧ u ≤ cutoff) ↔ (d.nanos : Int) ≤ t.age u := by
  obtain ⟨htf, htl, htn⟩ := ht
  obtain ⟨huf, hul, hun⟩ := hu
  unfold back? age
  simp only [isLeap, decide_eq_true_eq]
  split
  · rcases shift?_back t d.nanos htn with ⟨hleap, hd, hshift⟩ | ⟨hd, hshift⟩
    · rw [hshift]
      simp only [isLeap, decide_eq_true_eq] at hleap
      simp only [Option.some.injEq, exists_eq_left', le_def, toNanos]
      split
      · omega
      · split <;> omega
    · simp only [isLeap, decide_eq_true_eq] at hd
      rw [hshift, exists_ofNanos?_iff huf ?_]
      · simp only [toNanos]
        split
        · omega
        · split <;> omega
      · simp only [toNanos, last]
        omega
  · next hd =>
    simp only [Duration.le_def, longestMove, Duration.ofMillis, Nat.pow_eq] at hd
    simp only [firstSecond, lastSecond] at htf htl huf hul
    refine iff_of_false nofun fun hle => ?_
    simp only [toNanos] at hle
    split at hle
    · omega
    · split at hle <;> omega

/-! ### Lifetimes from a due time on -/

/-- Nanoseconds since 1970-01-01T00:00:00Z on a line on which the excess of a leap second takes no
time. -/
def count (t : Instant) : Int := t.second * 1000000000 + min (t.nano : Int) 999999999

theorem count_of_plain {t : Instant} (h : t.Plain) : t.count = t.toNanos := by
  obtain ⟨_, _, hn⟩ := h
  simp only [count, toNanos]
  omega

theorem lt_iff_count_lt {t d : Instant} (hd : d.Plain) : t < d ↔ t.count < d.count := by
  obtain ⟨_, _, hdn⟩ := hd
  simp only [lt_def, count]
  omega

theorem lt_ofNanos?_iff {t d : Instant} {n : Int} (hd : ofNanos? n = some d) :
    t < d ↔ t.count < n := by
  obtain ⟨hplain, hnanos⟩ := ofNanos?_eq_some_iff.mp hd
  rw [lt_iff_count_lt hplain, count_of_plain hplain, hnanos]

theorem count_lt_of_ofNanos?_eq_none {t : Instant} {n : Int} (hn : ofNanos? n = none)
    (hfirst : first.toNanos ≤ n) (ht : t.second ≤ lastSecond) : t.count < n := by
  rcases ofNanos?_eq_none_iff.mp hn with hlow | hhigh
  · omega
  · simp only [last, toNanos] at hhigh
    simp only [count]
    omega

theorem nanosSince_of_due {now due : Instant} (hdue : due.Plain) (hlt : now < due)
    (hloss : ¬ now.LosesExcess due) :
    nanosSince due now = due.toNanos - now.toNanos + if now.isLeap then 1000000000 else 0 := by
  obtain ⟨_, _, hdn⟩ := hdue
  simp only [lt_def] at hlt
  simp only [LosesExcess, isLeap, decide_eq_true_eq] at hloss
  simp only [nanosSince, isLeap, decide_eq_true_eq, toNanos]
  split
  · split <;> omega
  · split
    · rw [if_neg (by omega), if_neg (by omega)]
      omega
    · rw [if_neg (by omega)]
      omega

/-- A lifetime that lasts until a due time and for a while after that ends so long after the due
time. -/
theorem deadline?_of_due {now due : Instant} {e ttl : Duration} (hnow : now.Representable)
    (hdue : due.Plain) (hlt : now < due) (hloss : ¬ now.LosesExcess due)
    (he : e.nanos = (now.timeLeft due).nanos + ttl.nanos) :
    now.deadline? e = ofNanos? (due.toNanos + ttl.nanos) := by
  have hsince := nanosSince_of_due hdue hlt hloss
  obtain ⟨hnf, hnl, hnn⟩ := hnow
  obtain ⟨hdf, hdl, hdn⟩ := hdue
  simp only [timeLeft] at he
  simp only [lt_def] at hlt
  unfold deadline?
  cases hleap : now.isLeap with
  | true =>
    simp only [hleap, if_true, toNanos] at hsince
    simp only [isLeap, decide_eq_true_eq] at hleap
    -- the due time lies after the leap second, which the move therefore leaves
    have hleaves : ¬ (e.nanos < 1000000000 ∧ (now.nano : Int) + e.nanos < 2000000000) := by omega
    split
    · simp only [shift?, isLeap, hleap, decide_true, if_true, Int.natAbs_natCast, if_neg hleaves]
      rw [if_pos (by omega)]
      congr 1
      simp only [toNanos]
      omega
    · next hd =>
      exact (ofNanos?_eq_none_of_far hnf hd (by simp only [toNanos]; omega)).symm
  | false =>
    simp only [hleap, Bool.false_eq_true, if_false, toNanos] at hsince
    simp only [isLeap, decide_eq_false_iff_not] at hleap
    split
    · simp only [shift?, isLeap, decide_eq_true_eq, if_neg hleap]
      congr 1
      simp only [toNanos]
      omega
    · next hd =>
      exact (ofNanos?_eq_none_of_far hnf hd (by simp only [toNanos]; omega)).symm

/-! ### Shorter lifetimes -/

theorem ofNanos?_mono {m n : Int} {u : Instant} (hm : first.toNanos ≤ m) (hmn : m ≤ n)
    (hu : ofNanos? n = some u) : ∃ v, ofNanos? m = some v ∧ v ≤ u := by
  obtain ⟨hplain, hnanos⟩ := ofNanos?_eq_some_iff.mp hu
  cases hv : ofNanos? m with
  | none =>
    have hin : ¬ ofNanos? n = none := by simp only [hu, reduceCtorEq, not_false_eq_true]
    rw [ofNanos?_eq_none_iff] at hv hin
    omega
  | some v =>
    obtain ⟨hvplain, hvnanos⟩ := ofNanos?_eq_some_iff.mp hv
    exact ⟨v, rfl, (le_iff_toNanos_le hvplain hplain).mpr (by omega)⟩

/-- A longer move forward ends no earlier, and it can be made only where the shorter one can. -/
theorem shift?_mono {t u : Instant} {a b : Nat} (ht : t.Representable) (hab : a ≤ b)
    (hu : t.shift? b = some u) : ∃ v, t.shift? a = some v ∧ v ≤ u := by
  obtain ⟨hsecond, _, hn⟩ := ht
  have hfirst : first.toNanos ≤ t.second * 1000000000 := by
    simp only [first, toNanos]
    omega
  unfold shift? at hu ⊢
  simp only [isLeap, decide_eq_true_eq] at hu ⊢
  split at hu
  · next hleap =>
    rw [if_pos hleap]
    split at hu
    -- Both end in the leap second.
    · cases hu
      refine ⟨_, if_pos ⟨by omega, by omega⟩, ?_⟩
      simp only [le_def, true_and]
      omega
    -- The longer one ends after the leap second, the shorter one in it or after it.
    · rw [if_pos (by omega)] at hu
      split
      · obtain ⟨⟨_, _, hnano⟩, hnanos⟩ := ofNanos?_eq_some_iff.mp hu
        refine ⟨_, rfl, Or.inl ?_⟩
        simp only [toNanos] at hnanos
        show t.second < u.second
        omega
      · rw [if_pos (by omega)]
        exact ofNanos?_mono (by omega) (by omega) hu
  · next hplain =>
    rw [if_neg hplain]
    exact ofNanos?_mono (by simp only [toNanos] at hfirst ⊢; omega) (by omega) hu

theorem deadline?_mono {t u : Instant} {a b : Duration} (ht : t.Representable) (hab : a ≤ b)
    (hu : t.deadline? b = some u) : ∃ v, t.deadline? a = some v ∧ v ≤ u := by
  unfold deadline? at hu ⊢
  split at hu
  · next hb =>
    have ha : a ≤ longestMove := Nat.le_trans hab hb
    rw [if_pos ha]
    exact shift?_mono ht hab hu
  · cases hu

end Turnstile.Instant
