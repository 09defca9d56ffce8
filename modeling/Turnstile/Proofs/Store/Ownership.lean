import Turnstile.Proofs.Store.Memory

/-!
# Keys that tokens own

Some keys are only ever written by taking them when they are free, and given up or extended only by
the token that they hold. Claims on such a key say which tokens were written and not given up, and
under which deadlines; the live slot is then the one claim that is in force.
-/

namespace Turnstile

def Slot.ofToken (token : String) (deadline : Option Instant) : Slot :=
  { value := .text token, deadline }

namespace MemoryStore

/-- The live slot under a key is the claim that is in force. -/
def Owned (s : MemoryStore) (now : Instant) (key : String)
    (claims : String → Option Instant → Prop) : Prop :=
  ∀ slot, s.live? now key = some slot ↔
    ∃ token d, claims token d ∧ slot = Slot.ofToken token d ∧ slot.isExpired now = false

variable {s s' : MemoryStore} {now later : Instant} {key token token' : String} {slot : Slot}
  {claims claims' : String → Option Instant → Prop} {d d' : Option Instant} {ttl : Duration}

theorem isExpired_ofToken : (Slot.ofToken token d).isExpired now = false ↔ ∀ t, d = some t → now < t := by
  cases d with
  | none => simp [Slot.ofToken, Slot.isExpired]
  | some t => simp [Slot.ofToken, Slot.isExpired]

namespace Owned

theorem live?_of_claim (h : s.Owned now key claims) (hc : claims token d)
    (hd : (Slot.ofToken token d).isExpired now = false) :
    s.live? now key = some (Slot.ofToken token d) :=
  (h _).mpr ⟨token, d, hc, rfl, hd⟩

theorem unique (h : s.Owned now key claims) (hc : claims token d)
    (hd : (Slot.ofToken token d).isExpired now = false) (hc' : claims token' d')
    (hd' : (Slot.ofToken token' d').isExpired now = false) : token = token' ∧ d = d' := by
  have hs := (h.live?_of_claim hc hd).symm.trans (h.live?_of_claim hc' hd')
  simp only [Slot.ofToken, Option.some.injEq, Slot.mk.injEq, StoredValue.text.injEq] at hs
  exact hs

theorem of_free (hf : s.live? now key = none)
    (hc : ∀ token d, claims token d → (Slot.ofToken token d).isExpired now = true) :
    s.Owned now key claims := by
  intro slot
  rw [hf]
  refine ⟨nofun, ?_⟩
  rintro ⟨token, d, hcl, rfl, hd⟩
  rw [hc token d hcl] at hd
  cases hd

theorem expired_of_free (h : s.Owned now key claims) (hf : s.live? now key = none)
    (hc : claims token d) : (Slot.ofToken token d).isExpired now = true := by
  cases hd : (Slot.ofToken token d).isExpired now with
  | true => rfl
  | false =>
    have hl := h.live?_of_claim hc hd
    rw [hf] at hl
    cases hl

theorem of_le (h : s.Owned now key claims) (hn : now ≤ later) : s.Owned later key claims := by
  intro slot
  rw [live?_later hn, Option.filter_eq_some_iff, h slot]
  constructor
  · rintro ⟨⟨token, d, hc, hs, _⟩, he⟩
    exact ⟨token, d, hc, hs, by simpa using he⟩
  · rintro ⟨token, d, hc, hs, he⟩
    refine ⟨⟨token, d, hc, hs, ?_⟩, by simpa using he⟩
    cases hn' : slot.isExpired now with
    | false => rfl
    | true =>
      rw [Slot.isExpired_mono hn hn'] at he
      cases he

theorem of_live?_eq (h : s.Owned now key claims) (hl : s'.live? now key = s.live? now key) :
    s'.Owned now key claims := by
  intro slot
  rw [hl]
  exact h slot

/-- Claims that are not in force do not matter. -/
theorem congr (h : s.Owned now key claims)
    (hc : ∀ token d, (Slot.ofToken token d).isExpired now = false →
      (claims token d ↔ claims' token d)) : s.Owned now key claims' := by
  intro slot
  rw [h slot]
  constructor
  · rintro ⟨token, d, hcl, rfl, hd⟩
    exact ⟨token, d, (hc token d hd).mp hcl, rfl, hd⟩
  · rintro ⟨token, d, hcl, rfl, hd⟩
    exact ⟨token, d, (hc token d hd).mpr hcl, rfl, hd⟩

theorem insert (h : s.Owned now key claims)
    (hl : ∀ slot, s.live? now key = some slot → slot.value = .text token)
    (hnew : claims' token d)
    (hc : ∀ token' d', claims' token' d' → (token' = token ∧ d' = d) ∨
      (claims token' d' ∧ token' ≠ token)) :
    Owned (Keyed.insert s key (Slot.ofToken token d)) now key claims' := by
  intro slot
  rw [live?_insert, if_pos rfl]
  constructor
  · intro hs
    split at hs
    · cases hs
    · next he =>
      cases hs
      exact ⟨token, d, hnew, rfl, by simpa using he⟩
  · rintro ⟨token', d', hcl, rfl, hd'⟩
    rcases hc token' d' hcl with ⟨rfl, rfl⟩ | ⟨hold, hne⟩
    · rw [hd']
      rfl
    · have ht := hl _ (h.live?_of_claim hold hd')
      simp only [Slot.ofToken, StoredValue.text.injEq] at ht
      exact absurd ht hne

theorem erase (h : s.Owned now key claims)
    (hl : ∀ slot, s.live? now key = some slot → slot.value = .text token)
    (hc : ∀ token' d', claims' token' d' → claims token' d' ∧ token' ≠ token) :
    Owned (Keyed.erase s key) now key claims' := by
  refine of_free (by rw [live?_erase, if_pos rfl]) ?_
  intro token' d' hcl
  obtain ⟨hold, hne⟩ := hc token' d' hcl
  cases hd : (Slot.ofToken token' d').isExpired now with
  | true => rfl
  | false =>
    have ht := hl _ (h.live?_of_claim hold hd)
    simp only [Slot.ofToken, StoredValue.text.injEq] at ht
    exact absurd ht hne

end Owned

/-! ### What owners and others are answered -/

theorem call_setIfAbsent (s : MemoryStore) (now : Instant) (key token : String) (ttl : Duration) :
    (s.live? now key = none ∧ s.call now (.setIfAbsent key token ttl) =
        (.ok true, Keyed.insert s key (Slot.ofToken token (now.deadline? ttl)))) ∨
      ∃ slot, s.live? now key = some slot ∧
        s.call now (.setIfAbsent key token ttl) = (.ok false, s) := by
  simp only [call, setIfAbsent]
  cases hl : s.live? now key with
  | none => exact Or.inl ⟨rfl, rfl⟩
  | some slot => exact Or.inr ⟨slot, rfl, rfl⟩

theorem holds_iff : s.holds now key token = true ↔
    ∃ slot, s.live? now key = some slot ∧ slot.value = .text token := by
  unfold holds
  cases s.live? now key with
  | none => simp
  | some slot => simp

theorem call_get (s : MemoryStore) (now : Instant) (key : String) :
    (s.live? now key = none ∧ (s.call now (.get key)).1 = .ok none) ∨
      (∃ token d, s.live? now key = some (Slot.ofToken token d) ∧
        s.call now (.get key) = (.ok (some token), s)) ∨
      ∃ members d, s.live? now key = some { value := .set members, deadline := d } ∧
        s.call now (.get key) = (.error (Fault.wrongKindOfValue key), s) := by
  simp only [call, get, read]
  cases hl : s.live? now key with
  | none => exact Or.inl ⟨rfl, rfl⟩
  | some slot =>
    obtain ⟨value | members, d⟩ := slot
    · exact Or.inr (Or.inl ⟨value, d, rfl, rfl⟩)
    · exact Or.inr (Or.inr ⟨members, d, rfl, rfl⟩)

theorem call_expireIfEq (s : MemoryStore) (now : Instant) (key token : String) (ttl : Duration) :
    (s.holds now key token = true ∧ s.call now (.expireIfEq key token ttl) =
        (.ok true, Keyed.insert s key (Slot.ofToken token (now.deadline? ttl)))) ∨
      (s.holds now key token = false ∧
        s.call now (.expireIfEq key token ttl) = (.ok false, s)) := by
  simp only [call, expireIfEq]
  cases hh : s.holds now key token with
  | true => exact Or.inl ⟨rfl, rfl⟩
  | false => exact Or.inr ⟨rfl, rfl⟩

theorem call_deleteIfEq (s : MemoryStore) (now : Instant) (key token : String) :
    (s.holds now key token = true ∧
        s.call now (.deleteIfEq key token) = (.ok true, Keyed.erase s key)) ∨
      (s.holds now key token = false ∧ s.call now (.deleteIfEq key token) = (.ok false, s)) := by
  simp only [call, deleteIfEq]
  cases hh : s.holds now key token with
  | true => exact Or.inl ⟨rfl, rfl⟩
  | false => exact Or.inr ⟨rfl, rfl⟩

namespace Owned

theorem holds_iff_claim (h : s.Owned now key claims) : s.holds now key token = true ↔
    ∃ d, claims token d ∧ (Slot.ofToken token d).isExpired now = false := by
  rw [holds_iff]
  constructor
  · rintro ⟨slot, hl, hv⟩
    obtain ⟨token', d, hc, rfl, hd⟩ := (h slot).mp hl
    simp only [Slot.ofToken, StoredValue.text.injEq] at hv
    subst hv
    exact ⟨d, hc, hd⟩
  · rintro ⟨d, hc, hd⟩
    exact ⟨_, h.live?_of_claim hc hd, rfl⟩

theorem call_deleteIfEq (h : s.Owned now key claims)
    (hc : ∀ token' d', claims' token' d' ↔ claims token' d' ∧ token' ≠ token) :
    (s.call now (.deleteIfEq key token)).2.Owned now key claims' := by
  rcases s.call_deleteIfEq now key token with ⟨hh, he⟩ | ⟨hh, he⟩
  · rw [he]
    refine h.erase ?_ fun token' d' hcl => (hc token' d').mp hcl
    intro slot hl
    obtain ⟨slot', hl', hv⟩ := holds_iff.mp hh
    rw [hl] at hl'
    cases hl'
    exact hv
  · rw [he]
    refine h.congr fun token' d' hd => ?_
    rw [hc token' d']
    refine ⟨fun hcl => ⟨hcl, ?_⟩, And.left⟩
    rintro rfl
    rw [h.holds_iff_claim.mpr ⟨d', hcl, hd⟩] at hh
    cases hh

theorem call_get (h : s.Owned now key claims) :
    ∃ r, (s.call now (.get key)).1 = .ok r ∧ ∀ token, r = some token ↔
      ∃ d, claims token d ∧ (Slot.ofToken token d).isExpired now = false := by
  cases hl : s.live? now key with
  | none =>
    refine ⟨none, by simp only [call, get, read, hl], ?_⟩
    intro token
    constructor
    · intro ht
      cases ht
    · rintro ⟨d, hc, hd⟩
      rw [h.expired_of_free hl hc] at hd
      cases hd
  | some slot =>
    obtain ⟨token, d, hc, rfl, hd⟩ := (h slot).mp hl
    refine ⟨some token, by simp only [call, get, read, hl, Slot.ofToken, Except.map], ?_⟩
    intro token'
    constructor
    · rintro ⟨⟩
      exact ⟨d, hc, hd⟩
    · rintro ⟨d', hc', hd'⟩
      rw [(h.unique hc hd hc' hd').1]

end Owned

end MemoryStore

end Turnstile
