import Mathlib.Algebra.Group.Nat.Defs
import Mathlib.Order.Monotone.Defs
import Mathlib.Order.Nat
import Turnstile.Settings.Basic

/-!
# Delays between attempts

A linear delay is computed with a sum and a product that are cut off at the largest number of
milliseconds, which is never seen behind its own longest delay.

With the settings of a lease, fixed and linear delays are multiples of the retry delay, cut off at the
largest number of milliseconds. They are computed from the retry delay modulo 2⁶⁴ milliseconds, which
shortens a delay exactly if the retry delay does not fit and the multiple of the rest stays below the
cut-off.
-/

namespace Turnstile

namespace Duration

theorem ofMillis_le_iff {a b : Nat} : ofMillis a ≤ ofMillis b ↔ a ≤ b := by
  simp only [le_def, ofMillis]
  omega

theorem ofMillis_inj {a b : Nat} : ofMillis a = ofMillis b ↔ a = b := by
  simp only [ofMillis, mk.injEq]
  omega

end Duration

namespace Backoff

open Duration (ofMillis_le_iff ofMillis_inj)

/-! ### Linear delays -/

variable {initialMs incrementMs maxMs : Nat}

theorem delayMs_linear (hmax : maxMs ≤ maxWord) (attempt : Nat) (jitter : Double) :
    (linear initialMs incrementMs maxMs).delayMs attempt jitter =
      min (initialMs + incrementMs * attempt) maxMs := by
  simp only [delayMs, addCapped, mulCapped]
  omega

/-- A linear delay whose longest value fits in 64 bits is the exact one, whatever its start, its increment
and the attempt. It never decreases from attempt to attempt and stays at its longest value once it has
reached it. -/
theorem delay_of_linear (initialMs incrementMs : Nat) (hmax : maxMs ≤ maxWord) :
    let delay := (linear initialMs incrementMs maxMs).delay
    (∀ attempt jitter,
      delay attempt jitter = Duration.ofMillis (min (initialMs + incrementMs * attempt) maxMs)) ∧
      ∀ attempt later jitter jitter', attempt ≤ later →
        delay attempt jitter ≤ delay later jitter' ∧
          (delay attempt jitter = Duration.ofMillis maxMs →
            delay later jitter' = Duration.ofMillis maxMs) := by
  intro delay
  have hexact (attempt : Nat) (jitter : Double) : delay attempt jitter =
      Duration.ofMillis (min (initialMs + incrementMs * attempt) maxMs) :=
    congrArg Duration.ofMillis (delayMs_linear hmax attempt jitter)
  refine ⟨hexact, fun attempt later jitter jitter' hlater => ?_⟩
  have hgrows : incrementMs * attempt ≤ incrementMs * later := Nat.mul_le_mul_left _ hlater
  rw [hexact, hexact, ofMillis_le_iff, ofMillis_inj, ofMillis_inj]
  constructor
  · omega
  · intro hreached
    omega

/-- The product of a delay that grows by the largest number of milliseconds is cut off from the third
attempt on, the sum from the second. -/
theorem delay_of_linear_at_largest :
    let delay := (linear 1 maxWord maxWord).delay
    maxWord ≤ maxWord ∧ 1 ≤ 4294967295 ∧
      delay 0 (Double.zero false) = Duration.ofMillis 1 ∧
      delay 1 (Double.zero false) = Duration.ofMillis maxWord ∧
      delay 4294967295 (Double.zero false) = Duration.ofMillis maxWord := by
  intro delay
  obtain ⟨hexact, hlater⟩ := delay_of_linear 1 maxWord (Nat.le_refl maxWord)
  have hone : delay 1 (Double.zero false) = Duration.ofMillis maxWord := hexact 1 _
  obtain ⟨_, hstays⟩ := hlater 1 4294967295 (Double.zero false) (Double.zero false) (by decide)
  exact ⟨Nat.le_refl _, by decide, hexact 0 _, hone, hstays hone⟩

end Backoff

/-- The kinds of delay that need no rounding, with the milliseconds to wait for a retry delay and an
attempt, in exact arithmetic. -/
inductive BackoffKind.Steady : BackoffKind → (Nat → Nat → Nat) → Prop
  | fixed : Steady .fixed fun d _ => d
  | linear : Steady .linear fun d attempt => min ((attempt + 1) * d) (10 * d)

namespace LeaseSettings

open Backoff
open Duration (ofMillis_le_iff ofMillis_inj)

variable {s : LeaseSettings} {exact : Nat → Nat → Nat} {attempt : Nat} {jitter : Double}

/-- The wait after an attempt loses nothing to the width of the numbers: the retry delay fits in 64 bits,
or what is left of it reaches the cut-off all the same. -/
def Unshortened (s : LeaseSettings) (exact : Nat → Nat → Nat) (attempt : Nat) : Prop :=
  s.retryDelay.millis < 2 ^ 64 ∨ maxWord ≤ exact (s.retryDelay.millis % 2 ^ 64) attempt

/-! ### Multiples of the retry delay -/

theorem multiple_of_steady {kind : BackoffKind} (h : BackoffKind.Steady kind exact) :
    ∃ k : Nat → Nat, Monotone k ∧ (∀ attempt, 0 < k attempt) ∧
      ∀ d attempt, exact d attempt = k attempt * d := by
  cases h with
  | fixed =>
    refine ⟨fun _ => 1, fun _ _ _ => le_refl 1, fun _ => Nat.one_pos, ?_⟩
    intro d _
    exact (Nat.one_mul d).symm
  | linear =>
    refine ⟨fun attempt => min (attempt + 1) 10, ?_, ?_, ?_⟩
    · intro a b hab
      show min (a + 1) 10 ≤ min (b + 1) 10
      omega
    · intro attempt
      show 0 < min (attempt + 1) 10
      omega
    · intro d attempt
      exact Nat.mul_min_mul_right _ _ _

theorem delayMs_le_maxWord (s : LeaseSettings) : s.delayMs ≤ maxWord := by
  have hword : s.delayMs < 2 ^ 64 := Nat.mod_lt _ (by decide)
  simp only [maxWord, Nat.pow_eq]
  omega

/-- Where the sums and products are cut off makes no difference. -/
theorem toBackoff_delayMs (h : BackoffKind.Steady s.backoff exact) (attempt : Nat) (jitter : Double) :
    s.toBackoff.delayMs attempt jitter =
      min (exact (s.retryDelay.millis % 2 ^ 64) attempt) maxWord := by
  have hword := s.delayMs_le_maxWord
  show _ = min (exact s.delayMs attempt) maxWord
  generalize hkind : s.backoff = kind at h
  cases h with
  | fixed =>
    simp only [toBackoff, hkind, Backoff.delayMs]
    omega
  | linear =>
    have hlongest : mulCapped s.delayMs 10 ≤ maxWord := min_le_right _ _
    simp only [toBackoff, hkind]
    rw [delayMs_linear hlongest, mulCapped, Nat.add_mul, Nat.one_mul,
      Nat.mul_comm s.delayMs attempt, Nat.mul_comm s.delayMs 10]
    omega

theorem toBackoff_delayMs_eq_iff (h : BackoffKind.Steady s.backoff exact) :
    s.toBackoff.delayMs attempt jitter = min (exact s.retryDelay.millis attempt) maxWord ↔
      s.Unshortened exact attempt := by
  obtain ⟨k, _, hpos, hk⟩ := multiple_of_steady h
  rw [toBackoff_delayMs h, Unshortened, hk, hk]
  by_cases hfits : s.retryDelay.millis < 2 ^ 64
  · simp only [Nat.mod_eq_of_lt hfits, hfits, true_or]
  · have hreached : s.retryDelay.millis ≤ k attempt * s.retryDelay.millis :=
      Nat.le_mul_of_pos_left _ (hpos attempt)
    simp only [maxWord, Nat.pow_eq]
    omega

/-! ### Longer retry delays -/

theorem toBackoff_delayMs_mono (h : BackoffKind.Steady s.backoff exact)
    (hs : s.Unshortened exact attempt) {shorter : Duration} (hle : shorter ≤ s.retryDelay) :
    { s with retryDelay := shorter }.toBackoff.delayMs attempt jitter ≤
      s.toBackoff.delayMs attempt jitter := by
  obtain ⟨k, _, _, hk⟩ := multiple_of_steady h
  have hmillis : shorter.millis ≤ s.retryDelay.millis := Nat.div_le_div_right hle
  rw [toBackoff_delayMs h, toBackoff_delayMs (s := { s with retryDelay := shorter }) h]
  rcases hs with hfits | hreached
  · have hfits' : shorter.millis < 2 ^ 64 := by omega
    rw [Nat.mod_eq_of_lt hfits, Nat.mod_eq_of_lt hfits', hk, hk]
    have hmul := Nat.mul_le_mul_left (k attempt) hmillis
    omega
  · omega

theorem unshortened_of_mono (h : BackoffKind.Steady s.backoff exact)
    (hmono : ∀ shorter, shorter ≤ s.retryDelay →
      { s with retryDelay := shorter }.toBackoff.delayMs attempt jitter ≤
        s.toBackoff.delayMs attempt jitter) : s.Unshortened exact attempt := by
  by_cases hfits : s.retryDelay.millis < 2 ^ 64
  · exact Or.inl hfits
  · right
    obtain ⟨k, _, hpos, hk⟩ := multiple_of_steady h
    -- The longest retry delay that fits is shorter than this one and reaches the cut-off.
    have hlongest : (Duration.ofMillis maxWord).millis % 2 ^ 64 = maxWord := by decide
    have hshorter : Duration.ofMillis maxWord ≤ s.retryDelay := by
      simp only [Duration.millis] at hfits
      simp only [Duration.le_def, Duration.ofMillis, maxWord, Nat.pow_eq]
      omega
    have hle := hmono _ hshorter
    have hcapped := toBackoff_delayMs (s := { s with retryDelay := Duration.ofMillis maxWord }) h
      attempt jitter
    rw [hcapped, toBackoff_delayMs h, hlongest, hk maxWord] at hle
    have hreached : maxWord ≤ k attempt * maxWord := Nat.le_mul_of_pos_left _ (hpos attempt)
    omega

/-! ### Delays that are waited -/

/-- A fixed or linear delay never exceeds the exact one and never decreases from attempt to attempt.
It is the exact one, and no shorter than with any shorter retry delay, exactly if it loses nothing to the
width of the numbers. -/
theorem delay_of_steady (h : BackoffKind.Steady s.backoff exact) (attempt : Nat) (jitter : Double) :
    (s.toBackoff.delay attempt jitter =
        Duration.ofMillis (min (exact s.retryDelay.millis attempt) maxWord) ↔
      s.Unshortened exact attempt) ∧
      s.toBackoff.delay attempt jitter ≤
        Duration.ofMillis (min (exact s.retryDelay.millis attempt) maxWord) ∧
      (∀ later, attempt ≤ later →
        s.toBackoff.delay attempt jitter ≤ s.toBackoff.delay later jitter) ∧
      ((∀ shorter, shorter ≤ s.retryDelay →
        { s with retryDelay := shorter }.toBackoff.delay attempt jitter ≤
          s.toBackoff.delay attempt jitter) ↔ s.Unshortened exact attempt) := by
  obtain ⟨k, hgrows, _, hk⟩ := multiple_of_steady h
  simp only [Backoff.delay, ofMillis_le_iff, ofMillis_inj]
  refine ⟨toBackoff_delayMs_eq_iff h, ?_, ?_, ?_⟩
  · rw [toBackoff_delayMs h, hk, hk]
    have hrest := Nat.mul_le_mul_left (k attempt) (Nat.mod_le s.retryDelay.millis (2 ^ 64))
    omega
  · intro later hlater
    rw [toBackoff_delayMs h, toBackoff_delayMs h, hk, hk]
    have hmul := Nat.mul_le_mul_right (s.retryDelay.millis % 2 ^ 64) (hgrows hlater)
    omega
  · constructor
    · exact unshortened_of_mono h
    · intro hs shorter hle
      exact toBackoff_delayMs_mono h hs hle

/-- Without settings of its own a lease is retried every ten milliseconds. -/
theorem delay_of_steady_default :
    BackoffKind.Steady default.backoff (fun d _ => d) ∧
      default.toBackoff.delay 4294967295 (Double.zero false) = Duration.ofMillis 10 := by
  have hfixed : BackoffKind.Steady default.backoff (fun d _ => d) := .fixed
  obtain ⟨hexact, _⟩ := delay_of_steady hfixed 4294967295 (Double.zero false)
  exact ⟨hfixed, hexact.mpr (Or.inl (by decide))⟩

/-- A retry delay of 384 milliseconds more than 2⁶⁴ is accepted and leads to delays of 384 milliseconds,
while a retry delay of a second leads to delays of a second. -/
theorem delay_shortened :
    let s (backoff : BackoffKind) (retryDelay : Duration) : LeaseSettings :=
      { default with backoff, retryDelay }
    let long := Duration.ofSeconds 18446744073709552
    { Settings.default "development" with lease := s .fixed long }.check = .ok () ∧
      long ≤ Duration.max ∧ min long.millis maxWord = 18446744073709551615 ∧
      (s .fixed long).toBackoff.delayMs 0 (Double.zero false) = 384 ∧
      (s .linear long).toBackoff.delayMs 1 (Double.zero false) = 768 ∧
      Duration.ofSeconds 1 ≤ long ∧
      (s .fixed (Duration.ofSeconds 1)).toBackoff.delayMs 0 (Double.zero false) = 1000 := by
  intro s long
  have htrouble :
      { Settings.default "development" with lease := s .fixed long }.trouble? = none := by decide
  exact ⟨by rw [Settings.check, htrouble], by decide, by decide, by decide, by decide, by decide,
    by decide⟩

end LeaseSettings

end Turnstile
