import Mathlib.Data.List.Basic
import Turnstile.Proofs.Time.Deadline
import Turnstile.Store.Memory

/-!
# Calls to the store of one process

What is live under a key determines what a call does to it: a call reads and writes the live slot
under its one key, and dropping slots that have expired changes no live slot.
-/

namespace Turnstile

namespace Slot

theorem isExpired_iff {slot : Slot} {now : Instant} :
    slot.isExpired now = true ↔ ∃ d, slot.deadline = some d ∧ d ≤ now := by
  unfold isExpired
  cases slot.deadline with
  | none => simp
  | some d => simp

theorem isExpired_mono {slot : Slot} {now later : Instant} (h : now ≤ later)
    (hs : slot.isExpired now = true) : slot.isExpired later = true := by
  rw [isExpired_iff] at hs ⊢
  obtain ⟨d, hd, hle⟩ := hs
  exact ⟨d, hd, le_trans hle h⟩

end Slot

namespace MemoryStore

variable {s : MemoryStore} {now later : Instant} {key key' : String} {slot : Slot}

/-! ### Live slots -/

theorem live?_eq_some_iff :
    s.live? now key = some slot ↔ s.get? key = some slot ∧ slot.isExpired now = false := by
  simp only [live?, Option.filter_eq_some_iff, Bool.not_eq_true']

theorem live?_empty : live? Keyed.empty now key = none := rfl

theorem live?_insert :
    live? (Keyed.insert s key slot) now key' =
      if key = key' then (if slot.isExpired now then none else some slot)
      else s.live? now key' := by
  simp only [live?, Keyed.get?_insert]
  split
  · cases h : slot.isExpired now <;> simp [h]
  · rfl

theorem live?_erase :
    live? (Keyed.erase s key) now key' = if key = key' then none else s.live? now key' := by
  simp only [live?, Keyed.get?_erase]
  split <;> rfl

theorem live?_later (h : now ≤ later) :
    s.live? later key = (s.live? now key).filter fun slot => !slot.isExpired later := by
  simp only [live?, Option.filter_filter]
  congr 1
  funext slot
  cases hn : slot.isExpired now with
  | false => simp
  | true => simp [Slot.isExpired_mono h hn]

theorem get?_dropExpired_ne (h : key ≠ key') :
    Keyed.get? (s.dropExpired now key) key' = s.get? key' := by
  unfold dropExpired
  split
  · split
    · rw [Keyed.get?_erase, if_neg h]
    · rfl
  · rfl

theorem live?_dropExpired : (s.dropExpired now key).live? now key' = s.live? now key' := by
  by_cases h : key = key'
  · subst h
    unfold dropExpired
    cases hk : s.get? key with
    | none => rfl
    | some slot =>
      cases he : slot.isExpired now with
      | true =>
        simp only [he, if_true]
        rw [live?_erase, if_pos rfl, live?, hk, Option.filter_some, he]
        rfl
      | false => simp only [he, Bool.false_eq_true, if_false]
  · simp only [live?, get?_dropExpired_ne h]

/-! ### What a call leaves alone -/

theorem call_effect (s : MemoryStore) (now : Instant) (c : StoreCall) :
    (s.call now c).2 = s ∨ (s.call now c).2 = s.dropExpired now c.key ∨
      (s.call now c).2 = Keyed.erase s c.key ∨
      ∃ slot, (s.call now c).2 = Keyed.insert s c.key slot := by
  cases c <;>
    simp only [call, setAdd, setRemove, setCount, setMembers, setIfAbsent, get, ttl, delete,
      deleteIfEq, expireIfEq, read, StoreCall.key] <;>
    grind

theorem call_get?_ne (c : StoreCall) (h : c.key ≠ key) :
    Keyed.get? (s.call now c).2 key = s.get? key := by
  rcases call_effect s now c with he | he | he | ⟨slot, he⟩ <;> rw [he]
  · exact get?_dropExpired_ne h
  · rw [Keyed.get?_erase, if_neg h]
  · rw [Keyed.get?_insert, if_neg h]

theorem call_live?_ne (c : StoreCall) (h : c.key ≠ key) :
    (s.call now c).2.live? later key = s.live? later key := by
  simp only [live?, call_get?_ne c h]

theorem call_error {c : StoreCall} {f : Fault} (h : (s.call now c).1 = .error f) :
    f = Fault.wrongKindOfValue c.key ∧ (s.call now c).2 = s := by
  cases c <;>
    simp only [call, setAdd, setRemove, setCount, setMembers, setIfAbsent, get, ttl, delete,
      deleteIfEq, expireIfEq, read, StoreCall.key] at h ⊢ <;>
    grind [Except.map]

end MemoryStore

end Turnstile
