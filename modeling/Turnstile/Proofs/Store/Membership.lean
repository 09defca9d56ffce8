import Turnstile.Proofs.Store.Members

/-!
# Who is in a set

The texts of the members of the live set under a key, and what calls do to them. Only adding makes a
member, and then no more than one; the members that are left by any other call, and by time, are some
of those that were there.
-/

namespace Turnstile

/-- A call that stores nothing: it reads, removes or deletes. -/
def StoreCall.Frees : StoreCall → Prop
  | setAdd .. | setIfAbsent .. | expireIfEq .. => False
  | _ => True

theorem StoreCall.frees_of_reads {c : StoreCall} (h : c.Reads) : c.Frees := by
  cases c <;> trivial

namespace MemoryStore

open scoped List

variable {s : MemoryStore} {now later : Instant} {key : String}

/-- The members of the live set under a key. -/
def membersAt (s : MemoryStore) (now : Instant) (key : String) : List String :=
  match s.live? now key with
  | some { value := .set ms, .. } => ms.map Prod.fst
  | _ => []

/-! ### Members of a slot -/

theorem membersAt_of_live?_eq {s' : MemoryStore} {now' : Instant}
    (h : s'.live? now' key = s.live? now key) : s'.membersAt now' key = s.membersAt now key := by
  simp only [membersAt, h]

theorem membersAt_of_live?_none (h : s.live? now key = none) : s.membersAt now key = [] := by
  simp only [membersAt, h]

theorem membersAt_insert_text (value : String) (deadline : Option Instant) :
    membersAt (Keyed.insert s key { value := .text value, deadline }) now key = [] := by
  simp only [membersAt, live?_insert, if_true]
  split <;> rename_i h
  · split at h <;> cases h
  · rfl

theorem membersAt_insert_set (ms : List (String × Instant)) (deadline : Option Instant) :
    membersAt (Keyed.insert s key { value := .set ms, deadline }) now key <+ ms.map Prod.fst := by
  simp only [membersAt, live?_insert, if_true]
  split <;> rename_i h
  · split at h <;> cases h
    exact List.Sublist.refl _
  · exact List.nil_sublist _

theorem membersAt_erase : membersAt (Keyed.erase s key) now key = [] := by
  refine membersAt_of_live?_none ?_
  rw [live?_erase, if_pos rfl]

theorem membersAt_later (h : now ≤ later) : s.membersAt later key <+ s.membersAt now key := by
  simp only [membersAt, live?_later h]
  cases s.live? now key with
  | none => exact List.Sublist.refl _
  | some slot =>
    cases hs : slot.isExpired later with
    | false =>
      simp only [Option.filter_some, hs, Bool.not_false, if_true]
      exact List.Sublist.refl _
    | true =>
      simp only [Option.filter_some, hs, Bool.not_true, Bool.false_eq_true, if_false]
      exact List.nil_sublist _

/-! ### Calls -/

theorem live?_read {α : Type} (f : Slot → Except Fault α) (key key' : String) :
    (s.read now key f).2.live? now key' = s.live? now key' := by
  unfold read
  split
  · rfl
  · exact live?_dropExpired

theorem live?_call_of_reads {c : StoreCall} (h : c.Reads) :
    (s.call now c).2.live? now key = s.live? now key := by
  cases c <;> simp only [StoreCall.Reads] at h <;> exact live?_read _ _ _

theorem membersAt_call_of_reads {c : StoreCall} (h : c.Reads) :
    (s.call now c).2.membersAt now key = s.membersAt now key :=
  membersAt_of_live?_eq (live?_call_of_reads h)

/-- A call that stores nothing makes no key appear. -/
theorem live?_call_of_frees {c : StoreCall} (hc : c.Frees) (h : s.live? now key = none) :
    (s.call now c).2.live? now key = none := by
  by_cases hk : c.key = key
  swap
  · rwa [call_live?_ne c hk]
  by_cases hr : c.Reads
  · rwa [live?_call_of_reads hr]
  have herased : live? (Keyed.erase s key) now key = none := by
    rw [live?_erase, if_pos rfl]
  cases c with
  | setRemove key' texts =>
    obtain rfl : key' = key := hk
    simp only [call, setRemove, h, live?_dropExpired]
  | delete key' =>
    obtain rfl : key' = key := hk
    exact herased
  | deleteIfEq key' expected =>
    obtain rfl : key' = key := hk
    simp only [call, deleteIfEq]
    split
    · exact herased
    · exact h
  | setAdd | setIfAbsent | expireIfEq => exact absurd hc id
  | setCount | setMembers | get | ttl => exact absurd trivial hr

theorem removeMembers_sublist (ms : List (String × Instant)) (texts : List String) :
    (removeMembers ms texts).1 <+ ms := by
  induction texts generalizing ms with
  | nil => exact List.Sublist.refl _
  | cons text rest ih =>
    have hone : (removeMember ms text).1 <+ ms := by
      simp only [removeMember, discard_eq_filter]
      exact List.filter_sublist
    exact (ih _).trans hone

theorem membersAt_setRemove (s : MemoryStore) (now : Instant) (key : String) (texts : List String) :
    (s.call now (.setRemove key texts)).2.membersAt now key <+ s.membersAt now key := by
  simp only [call, setRemove]
  rcases hl : s.live? now key with _ | ⟨_ | ms, d⟩
  · rw [membersAt_of_live?_eq live?_dropExpired]
  · exact List.Sublist.refl _
  · have hrest := (removeMembers_sublist ms texts).map Prod.fst
    have hold : s.membersAt now key = ms.map Prod.fst := by simp only [membersAt, hl]
    rw [hold]
    simp only
    split
    · rw [membersAt_erase]
      exact List.nil_sublist _
    · exact (membersAt_insert_set _ d).trans hrest

/-- A member that is removed is no member any more, and the others are as many as before at most. -/
theorem membersAt_remove (s : MemoryStore) (now : Instant) (key text : String) :
    (s.call now (.setRemove key [text])).2.membersAt now key <+
      (s.membersAt now key).filter (· ≠ text) := by
  simp only [call, setRemove]
  rcases hl : s.live? now key with _ | ⟨_ | ms, d⟩
  · have hold := membersAt_of_live?_none hl
    rw [membersAt_of_live?_eq live?_dropExpired, hold]
    exact List.nil_sublist _
  · have hold : s.membersAt now key = [] := by simp only [membersAt, hl]
    rw [hold]
    exact List.nil_sublist _
  · have hold : s.membersAt now key = ms.map Prod.fst := by simp only [membersAt, hl]
    have hrest : (removeMembers ms [text]).1 = ms.filter fun e => e.1 ≠ text := by
      simp only [removeMembers, removeMember, discard_eq_filter]
    have hmap : (ms.filter fun e => e.1 ≠ text).map Prod.fst =
        (ms.map Prod.fst).filter (· ≠ text) := by
      rw [List.filter_map]
      rfl
    rw [hold, ← hmap]
    simp only [hrest]
    split
    · rw [membersAt_erase]
      exact List.nil_sublist _
    · exact membersAt_insert_set _ d

theorem membersAt_setAdd (s : MemoryStore) (now : Instant) (key text : String) (ttl : Duration) :
    (s.call now (.setAdd key text ttl)).2.membersAt now key <+ s.membersAt now key ++ [text] := by
  simp only [call, setAdd]
  rcases hl : s.live? now key with _ | ⟨_ | ms, d⟩
  · exact (membersAt_insert_set _ _).trans (List.sublist_append_right _ _)
  · exact List.sublist_append_left _ _
  · have hold : s.membersAt now key = ms.map Prod.fst := by simp only [membersAt, hl]
    rw [hold]
    refine (membersAt_insert_set _ _).trans ?_
    split
    · rw [List.map_append, List.map_singleton]
    · exact List.sublist_append_left _ _

/-- No call but an addition makes a member. -/
theorem membersAt_call (s : MemoryStore) (now : Instant) {c : StoreCall}
    (h : ∀ text ttl, c ≠ .setAdd key text ttl) :
    (s.call now c).2.membersAt now key <+ s.membersAt now key := by
  by_cases hk : c.key = key
  swap
  · rw [membersAt_of_live?_eq (call_live?_ne c hk)]
  by_cases hr : c.Reads
  · rw [membersAt_call_of_reads hr]
  cases c with
  | setAdd key' text ttl =>
    obtain rfl : key' = key := hk
    exact absurd rfl (h text ttl)
  | setRemove key' texts =>
    obtain rfl : key' = key := hk
    exact membersAt_setRemove s now key' texts
  | setCount _ => exact absurd trivial hr
  | setMembers _ => exact absurd trivial hr
  | get _ => exact absurd trivial hr
  | ttl _ => exact absurd trivial hr
  | setIfAbsent key' value ttl =>
    obtain rfl : key' = key := hk
    simp only [call, setIfAbsent]
    split
    · exact List.Sublist.refl _
    · rw [membersAt_insert_text]
      exact List.nil_sublist _
  | delete key' =>
    obtain rfl : key' = key := hk
    simp only [call, delete, membersAt_erase]
    exact List.nil_sublist _
  | deleteIfEq key' expected =>
    obtain rfl : key' = key := hk
    simp only [call, deleteIfEq]
    split
    · rw [membersAt_erase]
      exact List.nil_sublist _
    · exact List.Sublist.refl _
  | expireIfEq key' expected ttl =>
    obtain rfl : key' = key := hk
    simp only [call, expireIfEq]
    split
    · rw [membersAt_insert_text]
      exact List.nil_sublist _
    · exact List.Sublist.refl _

/-- A count tells the number of members, and fails only where there is no set. -/
theorem call_setCount (s : MemoryStore) (now : Instant) (key : String) :
    (s.call now (.setCount key)).1 = .ok (s.membersAt now key).length ∨
      ∃ f, (s.call now (.setCount key)).1 = .error f ∧ s.membersAt now key = [] := by
  simp only [call, setCount, read, membersAt]
  rcases s.live? now key with _ | ⟨_ | ms, d⟩
  · exact Or.inl rfl
  · exact Or.inr ⟨_, rfl, rfl⟩
  · left
    simp only [Except.map, Option.getD_some, List.length_map]

end MemoryStore

end Turnstile
