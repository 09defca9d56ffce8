import Turnstile.Proofs.Simulation.Calls
import Turnstile.Proofs.Store.Ownership

/-!
# What answers tell

What the answers of a quiet machine say about the slots that its store holds.
-/

namespace Turnstile.Machine

variable {s : Machine} {key token : String} {ttl : Duration}

theorem holds_of_get (hq : s.Quiet) (h : (s.callStore (.get key)).1 = .ok (some token)) :
    s.store.holds s.clock key token = true := by
  rw [(callStore_eq hq _).1] at h
  rcases s.store.call_get s.clock key with ⟨_, he⟩ | ⟨token', d, hl, he⟩ | ⟨members, d, _, he⟩
  · rw [he] at h
    cases h
  · rw [he] at h
    cases h
    exact MemoryStore.holds_iff.mpr ⟨_, hl, rfl⟩
  · rw [he] at h
    cases h

theorem free_of_get (hq : s.Quiet) (h : (s.callStore (.get key)).1 = .ok none) :
    s.store.live? s.clock key = none := by
  rw [(callStore_eq hq _).1] at h
  rcases s.store.call_get s.clock key with ⟨hl, _⟩ | ⟨token', d, _, he⟩ | ⟨members, d, _, he⟩
  · exact hl
  · rw [he] at h
    cases h
  · rw [he] at h
    cases h

/-- A call that takes a key found it free. -/
theorem insert_of_setIfAbsent (hq : s.Quiet)
    (h : (s.callStore (.setIfAbsent key token ttl)).1 = .ok true) :
    s.store.live? s.clock key = none ∧ (s.callStore (.setIfAbsent key token ttl)).2.store =
      Keyed.insert s.store key (Slot.ofToken token (s.clock.deadline? ttl)) := by
  obtain ⟨hanswer, hstore, _⟩ := callStore_eq hq (.setIfAbsent key token ttl)
  rw [hanswer] at h
  rw [hstore]
  rcases s.store.call_setIfAbsent s.clock key token ttl with ⟨hf, he⟩ | ⟨slot, _, he⟩
  · rw [he]
    exact ⟨hf, rfl⟩
  · rw [he] at h
    cases h

end Turnstile.Machine
