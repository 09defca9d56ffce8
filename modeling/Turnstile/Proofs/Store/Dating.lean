import Turnstile.Proofs.Store.Membership

/-!
# When members were added

The times at which the members of a set were added. A member that is added again keeps its time, and
the removal of others neither removes it nor changes its time.
-/

namespace Turnstile.MemoryStore

variable {s s' : MemoryStore} {now : Instant} {key id : String} {fresh : Instant → Prop}

theorem mem_membersAt {text : String} : text ∈ s.membersAt now key ↔
    ∃ ms d t, s.live? now key = some { value := .set ms, deadline := d } ∧ (text, t) ∈ ms := by
  unfold membersAt
  rcases s.live? now key with _ | ⟨_ | ms, d⟩
  · simp
  · simp
  · simp

theorem mem_removeMembers {ms : List (String × Instant)} {texts : List String} {t : Instant}
    (h : id ∉ texts) : (id, t) ∈ (removeMembers ms texts).1 ↔ (id, t) ∈ ms := by
  induction texts generalizing ms with
  | nil => rfl
  | cons text rest ih =>
    obtain ⟨hne, hrest⟩ := not_or.mp (List.mem_cons.not.mp h)
    have hone : (id, t) ∈ (removeMember ms text).1 ↔ (id, t) ∈ ms := by
      simp only [removeMember, discard_eq_filter, List.mem_filter, decide_eq_true_eq]
      exact and_iff_left hne
    exact (ih hrest).trans hone

/-- The live slot under a key, if there is one, is a set, and where a text is a member it was added at
such a time. -/
def Dated (s : MemoryStore) (now : Instant) (key id : String) (fresh : Instant → Prop) : Prop :=
  ∀ slot, s.live? now key = some slot → ∃ ms, slot.value = .set ms ∧ ∀ t, (id, t) ∈ ms → fresh t

namespace Dated

theorem of_live?_eq (h : s.Dated now key id fresh) (hl : s'.live? now key = s.live? now key) :
    s'.Dated now key id fresh := by
  intro slot hs
  exact h slot (hl ▸ hs)

theorem insert {ms : List (String × Instant)} {d : Option Instant}
    (h : ∀ t, (id, t) ∈ ms → fresh t) :
    Dated (Keyed.insert s key { value := .set ms, deadline := d }) now key id fresh := by
  intro slot hs
  rw [live?_insert, if_pos rfl] at hs
  split at hs
  · cases hs
  · cases hs
    exact ⟨ms, rfl, h⟩

theorem mem_insert {ms : List (String × Instant)} {d : Option Instant} {t : Instant}
    (hd : ∀ u, d = some u → now < u) (hm : (id, t) ∈ ms) :
    id ∈ membersAt (Keyed.insert s key { value := .set ms, deadline := d }) now key := by
  have halive : Slot.isExpired { value := .set ms, deadline := d } now = false := by
    cases d with
    | none => rfl
    | some u => simpa [Slot.isExpired] using hd u rfl
  refine mem_membersAt.mpr ⟨ms, d, t, ?_, hm⟩
  rw [live?_insert, if_pos rfl, halive]
  rfl

theorem setAdd (h : s.Dated now key id fresh) (hnow : fresh now) {ttl : Duration}
    (httl : ∀ d, now.deadline? ttl = some d → now < d) :
    (∃ added, (s.call now (.setAdd key id ttl)).1 = .ok added) ∧
      (s.call now (.setAdd key id ttl)).2.Dated now key id fresh ∧
      id ∈ (s.call now (.setAdd key id ttl)).2.membersAt now key := by
  have hadded (ms : List (String × Instant)) (hms : ∀ t, (id, t) ∈ ms → fresh t) :
      (∀ t, (id, t) ∈ (if (Keyed.lookup id ms).isNone then ms ++ [(id, now)] else ms) → fresh t) ∧
        ∃ t, (id, t) ∈ (if (Keyed.lookup id ms).isNone then ms ++ [(id, now)] else ms) := by
    cases hl : Keyed.lookup id ms with
    | none =>
      refine ⟨fun t ht => ?_, now, by simp⟩
      simp only [Option.isNone_none, if_true, List.mem_append, List.mem_singleton,
        Prod.mk.injEq] at ht
      rcases ht with hold | ⟨_, rfl⟩
      · exact hms t hold
      · exact hnow
    | some u =>
      obtain ⟨t, ht⟩ := lookup_isSome_iff.mp (by rw [hl]; rfl)
      exact ⟨fun t ht => hms t (by simpa using ht), t, by simpa using ht⟩
  simp only [call, MemoryStore.setAdd]
  cases hl : s.live? now key with
  | none =>
    obtain ⟨hfresh, t, ht⟩ := hadded [] fun t ht => absurd ht List.not_mem_nil
    exact ⟨⟨_, rfl⟩, insert hfresh, mem_insert httl ht⟩
  | some slot =>
    obtain ⟨ms, hv, hms⟩ := h slot hl
    obtain ⟨hfresh, t, ht⟩ := hadded ms hms
    simp only [hv]
    exact ⟨⟨_, rfl⟩, insert hfresh, mem_insert httl ht⟩

theorem setRemove (h : s.Dated now key id fresh) {texts : List String} (hid : id ∉ texts) :
    (s.call now (.setRemove key texts)).2.Dated now key id fresh ∧
      (id ∈ s.membersAt now key → id ∈ (s.call now (.setRemove key texts)).2.membersAt now key) := by
  simp only [call, MemoryStore.setRemove]
  cases hl : s.live? now key with
  | none =>
    have hsame : (s.dropExpired now key).live? now key = s.live? now key := live?_dropExpired
    refine ⟨h.of_live?_eq hsame, fun hm => ?_⟩
    rw [membersAt_of_live?_none hl] at hm
    cases hm
  | some slot =>
    obtain ⟨ms, hv, hms⟩ := h slot hl
    obtain ⟨value, d⟩ := slot
    obtain rfl : value = .set ms := hv
    simp only
    have hkept (t : Instant) : (id, t) ∈ (removeMembers ms texts).1 ↔ (id, t) ∈ ms :=
      mem_removeMembers hid
    split
    · next hempty =>
      refine ⟨fun slot hs => ?_, fun hm => ?_⟩
      · rw [live?_erase, if_pos rfl] at hs
        cases hs
      · obtain ⟨ms', d', t, hl', ht⟩ := mem_membersAt.mp hm
        rw [hl] at hl'
        cases hl'
        rw [← hkept, List.isEmpty_iff.mp hempty] at ht
        cases ht
    · refine ⟨insert fun t ht => hms t ((hkept t).mp ht), fun hm => ?_⟩
      obtain ⟨ms', d', t, hl', ht⟩ := mem_membersAt.mp hm
      rw [hl] at hl'
      cases hl'
      refine mem_insert (fun u hu => ?_) ((hkept t).mpr ht)
      have halive := (live?_eq_some_iff.mp hl).2
      simpa [Slot.isExpired, hu] using halive

theorem setMembers (h : s.Dated now key id fresh) {members : List SetMember}
    (ha : (s.call now (.setMembers key)).1 = .ok members) :
    ∀ m ∈ members, m.member = id → fresh m.addedAt := by
  simp only [call, MemoryStore.setMembers, read] at ha
  cases hl : s.live? now key with
  | none =>
    rw [hl] at ha
    cases ha
    intro m hm
    cases hm
  | some slot =>
    obtain ⟨ms, hv, hms⟩ := h slot hl
    rw [hl] at ha
    simp only [hv, Except.map] at ha
    cases ha
    rintro m hm rfl
    have hm' : m ∈ listed ms := hm
    simp only [listed, List.mem_mergeSort, List.mem_map] at hm'
    obtain ⟨⟨text, t⟩, ht, rfl⟩ := hm'
    exact hms t ht

end Dated

end Turnstile.MemoryStore
