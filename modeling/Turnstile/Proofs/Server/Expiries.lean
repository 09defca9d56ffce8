import Turnstile.Proofs.Server.Keys
import Turnstile.Proofs.Store.Memory
import Turnstile.Settings.Basic

/-!
# Expiries that are sent

The expiry sent for a time to live is its whole milliseconds modulo 2⁶⁴. It is at least as long as what
was asked for exactly if these fit in 64 bits, or if their low 64 bits are all set. The store of one
process keeps every time to live in full.
-/

namespace Turnstile

/-! ### Calls with a time to live -/

/-- The calls that write under a key with a time to live. -/
inductive StoreCall.Lasting (key : String) : (Duration → StoreCall) → Prop
  | setAdd (member : String) : Lasting key (.setAdd key member)
  | setIfAbsent (value : String) : Lasting key (.setIfAbsent key value)
  | expireIfEq (expected : String) : Lasting key (.expireIfEq key expected)

namespace Server

/-- The expiry that a command asks for, as it is written. -/
def Command.expiry? : Command → Option String
  | .pexpire _ expiry => some (toString expiry)
  | .setNew _ _ expiry => some (toString expiry)
  | .script .expireIfEq _ _ arguments => arguments.head?
  | _ => none

def Request.expiries : Request → List String
  | .one c => c.expiry?.toList
  | .transaction commands => commands.filterMap Command.expiry?

/-- The milliseconds fit in 64 bits, or the low 64 bits of their number are all set. -/
def Lossless (d : Duration) : Prop := d.millis < 2 ^ 64 ∨ d.millis % 2 ^ 64 = 2 ^ 64 - 1

variable {key keyspace : String} {write : Duration → StoreCall} {now later : Instant}
  {d d' : Duration}

theorem request_of_lasting (h : StoreCall.Lasting key write) :
    ∃ r, Request.ofCall? keyspace now (write d) = some r ∧
      r.expiries = [toString (expiryMillis d)] := by
  cases h with
  | setAdd member => exact ⟨_, rfl, rfl⟩
  | setIfAbsent value => exact ⟨_, rfl, rfl⟩
  | expireIfEq expected => exact ⟨_, rfl, rfl⟩

/-! ### The number of milliseconds -/

theorem millis_mono (h : d' ≤ d) : d'.millis ≤ d.millis := Nat.div_le_div_right h

theorem expiryMillis_of_lt (h : d.millis < 2 ^ 64) : expiryMillis d = max d.millis 1 := by
  rw [expiryMillis, Nat.pow_eq, Nat.mod_eq_of_lt h]

theorem expiryMillis_lt (d : Duration) : expiryMillis d < 2 ^ 64 := by
  simp only [expiryMillis, Nat.pow_eq]
  omega

theorem le_expiryMillis_iff (d : Duration) :
    min d.millis (2 ^ 64 - 1) ≤ expiryMillis d ↔ Lossless d := by
  simp only [expiryMillis, Nat.pow_eq, Lossless]
  omega

theorem expiryMillis_mono (h : Lossless d) (hle : d' ≤ d) : expiryMillis d' ≤ expiryMillis d := by
  have hmillis := millis_mono hle
  have hword := expiryMillis_lt d'
  rcases h with hfits | hset
  · have hfits' : d'.millis < 2 ^ 64 := by omega
    rw [expiryMillis_of_lt hfits, expiryMillis_of_lt hfits']
    omega
  · simp only [expiryMillis, Nat.pow_eq] at hword ⊢
    omega

theorem lossless_of_expiryMillis_mono (h : ∀ d', d' ≤ d → expiryMillis d' ≤ expiryMillis d) :
    Lossless d := by
  by_cases hfits : d.millis < 2 ^ 64
  · exact Or.inl hfits
  -- The longest expiry is that of a time to live which is shorter than any that does not fit.
  · have hlongest : expiryMillis (Duration.ofMillis (2 ^ 64 - 1)) = 2 ^ 64 - 1 :=
      expiryMillis_ofMillis (by decide) (by decide)
    have hshorter : Duration.ofMillis (2 ^ 64 - 1) ≤ d := by
      simp only [Duration.millis] at hfits
      simp only [Duration.le_def, Duration.ofMillis]
      omega
    have hle := h _ hshorter
    rw [hlongest] at hle
    apply (le_expiryMillis_iff d).mp
    omega

end Server

/-! ### The store of one process -/

namespace MemoryStore

variable {s : MemoryStore} {key : String} {write : Duration → StoreCall} {now later : Instant}
  {d d' : Duration}

/-- What is written does not depend on the time to live, apart from the deadline. -/
theorem call_of_lasting (h : StoreCall.Lasting key write) (s : MemoryStore) (now : Instant) :
    (∀ d, (s.call now (write d)).2 = s) ∨
      ∃ value, ∀ d, (s.call now (write d)).2 =
        Keyed.insert s key { value, deadline := now.deadline? d } := by
  cases h with
  | setAdd member =>
    simp only [call, setAdd]
    split
    · exact Or.inl fun _ => rfl
    · exact Or.inr ⟨_, fun _ => rfl⟩
  | setIfAbsent value =>
    simp only [call, setIfAbsent]
    split
    · exact Or.inl fun _ => rfl
    · exact Or.inr ⟨_, fun _ => rfl⟩
  | expireIfEq expected =>
    simp only [call, expireIfEq]
    split
    · exact Or.inr ⟨_, fun _ => rfl⟩
    · exact Or.inl fun _ => rfl

/-- What is gone would be gone with a shorter time to live. -/
theorem gone_of_shorter (h : StoreCall.Lasting key write) (hnow : now.Representable) (hle : d' ≤ d)
    (hgone : (s.call now (write d)).2.live? later key = none) :
    (s.call now (write d')).2.live? later key = none := by
  rcases call_of_lasting h s now with hsame | ⟨value, hwrites⟩
  · rw [hsame] at hgone ⊢
    exact hgone
  · rw [hwrites, live?_insert, if_pos rfl] at hgone ⊢
    simp only [ite_eq_left_iff, reduceCtorEq, imp_false, not_not] at hgone ⊢
    rw [Slot.isExpired_iff] at hgone ⊢
    obtain ⟨stop, hstop, hover⟩ := hgone
    obtain ⟨stop', hstop', hearlier⟩ := Instant.deadline?_mono hnow hle hstop
    exact ⟨stop', hstop', le_trans hearlier hover⟩

end MemoryStore

/-! ### What is sent and what was asked for -/

namespace Server

variable {key : String} {write : Duration → StoreCall}

/-- A call with a time to live asks for one expiry, which is at least a millisecond and fits in 64 bits.
It is not shorter than the time to live, nor than what is sent for any shorter one, exactly if no
milliseconds are lost. In the store of one process what is written lasts at least as long as with any
shorter time to live. -/
theorem expiry_of_lasting (h : StoreCall.Lasting key write) (keyspace : String) (now : Instant)
    (d : Duration) :
    (∃ r, Request.ofCall? keyspace now (write d) = some r ∧
        r.expiries = [toString (expiryMillis d)]) ∧
      1 ≤ expiryMillis d ∧ expiryMillis d < 2 ^ 64 ∧
      (min d.millis (2 ^ 64 - 1) ≤ expiryMillis d ↔ Lossless d) ∧
      ((∀ d', d' ≤ d → expiryMillis d' ≤ expiryMillis d) ↔ Lossless d) ∧
      ∀ (s : MemoryStore) (later : Instant) (d' : Duration), now.Representable → d' ≤ d →
        (s.call now (write d)).2.live? later key = none →
        (s.call now (write d')).2.live? later key = none := by
  refine ⟨request_of_lasting h, le_max_right _ _, expiryMillis_lt d, le_expiryMillis_iff d, ?_, ?_⟩
  · constructor
    · exact lossless_of_expiryMillis_mono
    · exact fun hd d' => expiryMillis_mono hd
  · intro s later d' hnow hle hgone
    exact MemoryStore.gone_of_shorter h hnow hle hgone

/-- A lease of a minute is asked for as a minute. -/
theorem expiry_of_lasting_minute :
    StoreCall.Lasting "lease" (.setIfAbsent "lease" "t") ∧
      (∃ r, Request.ofCall? "jobgate:" Instant.epoch
          (.setIfAbsent "lease" "t" LeaseSettings.default.ttl) = some r ∧
        r.expiries = ["60000"]) ∧
      LeaseSettings.default.ttl.millis ≤ expiryMillis LeaseSettings.default.ttl := by
  have hw : StoreCall.Lasting "lease" (.setIfAbsent "lease" "t") := .setIfAbsent "t"
  obtain ⟨hsent, _, _, henough, _⟩ :=
    expiry_of_lasting hw "jobgate:" Instant.epoch LeaseSettings.default.ttl
  exact ⟨hw, hsent, henough.mpr (Or.inl (by decide))⟩

/-- Every time to live of these settings is 384 milliseconds more than 2⁶⁴, and the settings are accepted.
The expiry sent is what is left over 2⁶⁴ and shorter than that of a second, while the store of one process
keeps what is written for good. -/
theorem expiry_cut_short :
    let ttl := Duration.ofSeconds 18446744073709552
    let s : Settings :=
      { Settings.default "development" with
        running := { RunningSettings.default with entryTtl := ttl }
        dedup := { DedupPolicy.default with ttl }
        lease := { LeaseSettings.default with ttl }
        liveness := { ttl } }
    s.check = .ok () ∧ ttl ≤ Duration.max ∧
      (∃ r, Request.ofCall? "jobgate:" Instant.epoch (.setIfAbsent "lease" "t" ttl) = some r ∧
        r.expiries = ["384"]) ∧
      expiryMillis ttl < min ttl.millis (2 ^ 64 - 1) ∧
      Duration.ofSeconds 1 ≤ ttl ∧ expiryMillis ttl < expiryMillis (Duration.ofSeconds 1) ∧
      MemoryStore.call Keyed.empty Instant.epoch (.setIfAbsent "lease" "t" ttl) =
        (.ok true, Keyed.empty.insert "lease" { value := .text "t", deadline := none }) := by
  intro ttl s
  have htrouble : s.trouble? = none := by decide
  exact ⟨by rw [Settings.check, htrouble], by decide, ⟨_, rfl, by decide⟩, by decide, by decide,
    by decide, rfl⟩

end Server

end Turnstile
