import Turnstile.Proofs.Store.Members

/-!
# The store of one process as an ideal store

What a store of one process shows at a time is an ideal store. Every call answers as the ideal store
does and leaves what the ideal store has left, so the replies of a whole run are the same, however
many expired slots linger in the table.
-/

namespace Turnstile

/-! ### What a store shows -/

def StoredValue.ideal : StoredValue → IdealValue
  | .text value => .text value
  | .set members => .set (MemoryStore.membersOf members)

def Slot.ideal (slot : Slot) : IdealEntry :=
  { value := slot.value.ideal, deadline := slot.deadline }

namespace MemoryStore

variable {s : MemoryStore} {i : IdealStore} {now later : Instant} {key : String} {slot : Slot}

/-- What can be seen of the store at a time. -/
def view (s : MemoryStore) (now : Instant) : IdealStore :=
  fun key => (s.live? now key).map Slot.ideal

/-- No set lists a member twice. -/
def Listed (s : MemoryStore) : Prop :=
  ∀ key ms deadline, s.get? key = some { value := .set ms, deadline } → Distinct ms

theorem isLive_ideal : slot.ideal.isLive now = !slot.isExpired now := by
  simp only [IdealEntry.isLive, Slot.ideal, Slot.isExpired]
  cases slot.deadline with
  | none => rfl
  | some d =>
    simp only [Option.all_some, ← decide_not, not_le]

theorem upTo_view (h : now ≤ later) : (s.view now).upTo later = s.view later := by
  funext key
  simp only [IdealStore.upTo, view, live?_later h, Option.filter_map]
  congr 2
  funext slot
  exact isLive_ideal

theorem filter_view (s : MemoryStore) (now : Instant) (key : String) :
    (s.view now key).filter (fun e => e.isLive now) = s.view now key :=
  congrFun (upTo_view le_rfl) key

theorem view_insert :
    view (Keyed.insert s key slot) now key = (some slot.ideal).filter fun e => e.isLive now := by
  simp only [view, live?_insert, if_true, Option.filter_some, isLive_ideal]
  cases slot.isExpired now <;> rfl

theorem view_erase : view (Keyed.erase s key) now key = none := by
  simp only [view, live?_erase, if_true, Option.map_none]

theorem view_dropExpired : (s.dropExpired now key).view now = s.view now := by
  funext key'
  simp only [view, live?_dropExpired]

theorem distinct_of_live? (hs : s.Listed) {ms : List (String × Instant)} {d : Option Instant}
    (h : s.live? now key = some { value := .set ms, deadline := d }) : Distinct ms :=
  hs key ms d (live?_eq_some_iff.mp h).1

theorem view_read {α : Type} (f : Slot → Except Fault α) :
    (s.read now key f).2.view now = s.view now := by
  unfold read
  split
  · rfl
  · exact view_dropExpired

theorem holds_eq (expected : String) :
    s.holds now key expected = (s.view now key).any fun e => e.value = .text expected := by
  unfold holds view
  rcases s.live? now key with _ | ⟨value | ms, d⟩
  · rfl
  · simp only [Option.map_some, Option.any_some, Slot.ideal, StoredValue.ideal,
      StoredValue.text.injEq, IdealValue.text.injEq]
  · rfl

/-! ### One call -/

theorem answer_eq (hs : s.Listed) (c : StoreCall) :
    (s.call now c).1 = (IdealEntry.respond now (s.view now c.key) c).1 := by
  cases c with
  | setAdd key member ttl =>
    simp only [call, setAdd, view, StoreCall.key]
    rcases s.live? now key with _ | ⟨_ | ms, d⟩
    · rfl
    · rfl
    · exact congrArg Except.ok lookup_isNone_eq
  | setRemove key texts =>
    simp only [call, setRemove, view, StoreCall.key]
    rcases hl : s.live? now key with _ | ⟨_ | ms, d⟩
    · rfl
    · rfl
    · exact congrArg Except.ok (removeMembers_count (distinct_of_live? hs hl) texts)
  | setCount key =>
    simp only [call, setCount, read, view, StoreCall.key]
    rcases hl : s.live? now key with _ | ⟨_ | ms, d⟩
    · rfl
    · rfl
    · exact congrArg Except.ok (card_membersOf (distinct_of_live? hs hl)).symm
  | setMembers key =>
    simp only [call, setMembers, read, view, StoreCall.key]
    rcases hl : s.live? now key with _ | ⟨_ | ms, d⟩
    · rfl
    · rfl
    · exact congrArg Except.ok (sort_membersOf (distinct_of_live? hs hl)).symm
  | setIfAbsent key value ttl =>
    simp only [call, setIfAbsent, view, StoreCall.key]
    cases s.live? now key <;> rfl
  | get key =>
    simp only [call, get, read, view, StoreCall.key]
    rcases s.live? now key with _ | ⟨_ | ms, d⟩ <;> rfl
  | ttl key =>
    simp only [call, MemoryStore.ttl, read, view, StoreCall.key]
    cases s.live? now key <;> rfl
  | delete key =>
    simp only [call, delete, view, StoreCall.key, IdealEntry.respond, Option.isSome_map]
  | deleteIfEq key expected =>
    change (s.deleteIfEq now key expected).1 =
      (IdealEntry.respond now (s.view now key) (.deleteIfEq key expected)).1
    simp only [deleteIfEq, holds_eq, IdealEntry.respond]
    split <;> rfl
  | expireIfEq key expected ttl =>
    change (s.expireIfEq now key expected ttl).1 =
      (IdealEntry.respond now (s.view now key) (.expireIfEq key expected ttl)).1
    simp only [expireIfEq, holds_eq, IdealEntry.respond]
    split <;> rfl

theorem view_call_of_reads {c : StoreCall} (h : c.Reads) :
    (s.call now c).2.view now = s.view now := by
  cases c <;> simp only [StoreCall.Reads] at h <;> exact view_read _

theorem view_call_self (hs : s.Listed) (c : StoreCall) :
    (s.call now c).2.view now c.key =
      (IdealEntry.respond now (s.view now c.key) c).2.filter fun e => e.isLive now := by
  by_cases hr : c.Reads
  · rw [IdealEntry.respond_of_reads hr, view_call_of_reads hr]
    exact (filter_view _ _ _).symm
  cases c with
  | setAdd key member ttl =>
    have hv := filter_view s now key
    simp only [call, setAdd, StoreCall.key]
    rcases hl : s.live? now key with _ | ⟨_ | ms, d⟩ <;>
      simp only [view, hl, Option.map_none, Option.map_some, Slot.ideal, StoredValue.ideal,
        IdealEntry.respond] at hv ⊢
    · exact view_insert.trans (by rfl)
    · exact hv.symm
    · refine view_insert.trans ?_
      simp only [Slot.ideal, StoredValue.ideal, membersOf_add]
  | setRemove key texts =>
    have hv := filter_view s now key
    simp only [call, setRemove, StoreCall.key]
    rcases hl : s.live? now key with _ | ⟨_ | ms, d⟩ <;>
      simp only [view, hl, Option.map_none, Option.map_some, Slot.ideal, StoredValue.ideal,
        IdealEntry.respond] at hv ⊢
    · simp only [live?_dropExpired, hl, Option.map_none, Option.filter_none]
    · exact hv.symm
    · have hd := distinct_of_live? hs hl
      simp only [IdealEntry.ofSet?, (removeMembers_eq hd texts).1, isEmpty_iff_membersOf,
        membersOf_filter]
      split
      · exact view_erase
      · refine view_insert.trans ?_
        simp only [Slot.ideal, StoredValue.ideal, membersOf_filter]
  | setCount key => exact absurd trivial hr
  | setMembers key => exact absurd trivial hr
  | setIfAbsent key value ttl =>
    have hv := filter_view s now key
    simp only [call, setIfAbsent, StoreCall.key]
    cases hl : s.live? now key <;>
      simp only [view, hl, Option.map_none, Option.map_some, IdealEntry.respond] at hv ⊢
    · exact view_insert
    · exact hv.symm
  | get key => exact absurd trivial hr
  | ttl key => exact absurd trivial hr
  | delete key => exact view_erase
  | deleteIfEq key expected =>
    change view (s.deleteIfEq now key expected).2 now key =
      (IdealEntry.respond now (s.view now key) (.deleteIfEq key expected)).2.filter _
    simp only [deleteIfEq, holds_eq, IdealEntry.respond]
    split
    · exact view_erase
    · exact (filter_view _ _ _).symm
  | expireIfEq key expected ttl =>
    change view (s.expireIfEq now key expected ttl).2 now key =
      (IdealEntry.respond now (s.view now key) (.expireIfEq key expected ttl)).2.filter _
    simp only [expireIfEq, holds_eq, IdealEntry.respond]
    split
    · exact view_insert
    · exact (filter_view _ _ _).symm

theorem view_call (hs : s.Listed) (c : StoreCall) :
    (s.call now c).2.view now = ((s.view now).call now c).2.upTo now := by
  funext key
  simp only [IdealStore.call, upTo_view (le_refl now), IdealStore.upTo]
  by_cases hk : c.key = key
  · subst hk
    rw [Function.update_self, view_call_self hs, filter_view]
  · rw [Function.update_of_ne (Ne.symm hk), filter_view]
    exact congrArg _ (call_live?_ne c hk)

/-! ### Members are listed once -/

theorem listed_insert (hs : s.Listed) (h : ∀ ms, slot.value = .set ms → Distinct ms) :
    Listed (Keyed.insert s key slot) := by
  intro key' ms d hg
  rw [Keyed.get?_insert] at hg
  split at hg
  · cases hg
    exact h ms rfl
  · exact hs key' ms d hg

theorem listed_erase (hs : s.Listed) : Listed (Keyed.erase s key) := by
  intro key' ms d hg
  rw [Keyed.get?_erase] at hg
  split at hg
  · cases hg
  · exact hs key' ms d hg

theorem listed_dropExpired (hs : s.Listed) : (s.dropExpired now key).Listed := by
  unfold dropExpired
  split
  · split
    · exact listed_erase hs
    · exact hs
  · exact hs

theorem listed_read {α : Type} (hs : s.Listed) (f : Slot → Except Fault α) :
    (s.read now key f).2.Listed := by
  unfold read
  split
  · exact hs
  · exact listed_dropExpired hs

theorem listed_empty : Listed Keyed.empty := by
  intro key ms d hg
  rw [Keyed.get?_empty] at hg
  cases hg

theorem listed_setAdd (hs : s.Listed) (member : String) (ttl : Duration) :
    (s.setAdd now key member ttl).2.Listed := by
  unfold setAdd
  rcases hl : s.live? now key with _ | ⟨_ | ms, d⟩
  · refine listed_insert hs ?_
    rintro _ ⟨⟩
    exact distinct_add List.nodup_nil
  · exact hs
  · refine listed_insert hs ?_
    rintro _ ⟨⟩
    exact distinct_add (distinct_of_live? hs hl)

theorem listed_setRemove (hs : s.Listed) (texts : List String) :
    (s.setRemove now key texts).2.Listed := by
  unfold setRemove
  rcases hl : s.live? now key with _ | ⟨_ | ms, d⟩
  · exact listed_dropExpired hs
  · exact hs
  · have hd := distinct_of_live? hs hl
    simp only [(removeMembers_eq hd texts).1]
    split
    · exact listed_erase hs
    · refine listed_insert hs ?_
      rintro _ ⟨⟩
      exact distinct_filter hd _

theorem listed_call (hs : s.Listed) (now : Instant) (c : StoreCall) : (s.call now c).2.Listed := by
  cases c with
  | setAdd key member ttl => exact listed_setAdd hs member ttl
  | setRemove key texts => exact listed_setRemove hs texts
  | setCount key => exact listed_read hs _
  | setMembers key => exact listed_read hs _
  | setIfAbsent key value ttl =>
    simp only [call, setIfAbsent]
    split
    · exact hs
    · exact listed_insert hs fun _ he => by cases he
  | get key => exact listed_read hs _
  | ttl key => exact listed_read hs _
  | delete key => exact listed_erase hs
  | deleteIfEq key expected =>
    simp only [call, deleteIfEq]
    split
    · exact listed_erase hs
    · exact hs
  | expireIfEq key expected ttl =>
    simp only [call, expireIfEq]
    split
    · exact listed_insert hs fun _ he => by cases he
    · exact hs

/-! ### Runs -/

/-- A store shows at a time what is left of an ideal store. -/
def Shows (s : MemoryStore) (now : Instant) (i : IdealStore) : Prop := s.view now = i.upTo now

theorem Shows.of_le (h : s.Shows now i) (hn : now ≤ later) : s.Shows later i := by
  unfold Shows at h ⊢
  rw [← upTo_view hn, h, IdealStore.upTo_upTo hn]

theorem Shows.call (h : s.Shows now i) (hs : s.Listed) (c : StoreCall) :
    (s.call now c).1 = (i.call now c).1 ∧ (s.call now c).2.Shows now (i.call now c).2 := by
  unfold Shows at h ⊢
  rw [view_call hs, answer_eq hs, h, IdealStore.call_upTo]
  exact ⟨rfl, rfl⟩

theorem Shows.replies (h : s.Shows now i) (hs : s.Listed) {calls : List TimedCall}
    (hf : Forward calls) (hn : From now calls) :
    (replies MemoryStore.call s calls).1 = (replies IdealStore.call i calls).1 ∧
      (replies MemoryStore.call s calls).2.Listed ∧
      ∀ later, now ≤ later → Until calls later →
        (replies MemoryStore.call s calls).2.Shows later (replies IdealStore.call i calls).2 := by
  induction calls generalizing s i now with
  | nil => exact ⟨rfl, hs, fun later hl _ => h.of_le hl⟩
  | cons e rest ih =>
    obtain ⟨t, c⟩ := e
    obtain ⟨hfrom, hrest⟩ := forward_cons.mp hf
    have ht : now ≤ t := hn _ List.mem_cons_self
    obtain ⟨hanswer, hshows⟩ := (h.of_le ht).call hs c
    obtain ⟨hreplies, hlisted, hlater⟩ := ih hshows (listed_call hs t c) hrest hfrom
    refine ⟨?_, hlisted, ?_⟩
    · simp only [Turnstile.replies, hanswer, hreplies]
    · intro later _ hu
      exact hlater later (hu _ List.mem_cons_self) fun e he => hu e (List.mem_cons_of_mem _ he)

end MemoryStore

end Turnstile
