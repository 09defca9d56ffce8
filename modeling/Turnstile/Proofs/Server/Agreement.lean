import Turnstile.Proofs.Server.Keys
import Turnstile.Proofs.Store.Ideal
import Turnstile.Proofs.Store.Members
import Turnstile.Proofs.Store.Memory
import Turnstile.Server.Store

/-!
# A server agrees with the store of one process

A server whose clock is the client's and counts milliseconds answers every call as the store of one
process does, under any keyspace and beside anything that it holds outside of it. What is live under a
key of the store is what the server has under that key's full name.
-/

namespace Turnstile.Server

/-! ### Calls that are served -/

inductive ValueSort
  | text
  | set
deriving DecidableEq, Repr

end Turnstile.Server

namespace Turnstile

open Server (ValueSort)

def StoredValue.sort : StoredValue → ValueSort
  | .text _ => .text
  | .set _ => .set

namespace StoreCall

/-- Whether a call may be made on a key with a sort of values. -/
def Suits (sort : ValueSort) : StoreCall → Prop
  | setAdd .. | setRemove .. | setCount _ | setMembers _ => sort = .set
  | setIfAbsent .. | get _ | deleteIfEq .. | expireIfEq .. => sort = .text
  | ttl _ | delete _ => True

def lifetime? : StoreCall → Option Duration
  | setAdd _ _ d | setIfAbsent _ _ d | expireIfEq _ _ d => some d
  | _ => none

end StoreCall

namespace Server

/-- A lifetime of whole milliseconds that ends at a representable instant. -/
def Lifetime (now : Instant) (d : Duration) : Prop :=
  ∃ k, 0 < k ∧ d = Duration.ofMillis k ∧ (now.deadline? d).isSome

structure Served (sort : String → ValueSort) (e : TimedCall) : Prop where
  clock : e.1.Whole
  suits : e.2.Suits (sort e.2.key)
  lifetime : ∀ d, e.2.lifetime? = some d → Lifetime e.1 d

variable {now later : Instant} {d : Duration} {stop : Instant} {k : Nat}

theorem Lifetime.spec (hclock : now.Whole) (h : Lifetime now d) :
    ∃ stop, now.deadline? d = some stop ∧ stop.Whole ∧ now < stop ∧
      0 < expiryMillis d ∧ expiryMillis d < 2 ^ 63 ∧ now.toMillis + expiryMillis d = stop.toMillis ∧
      stop.toMillis < Keys.timeLimit := by
  obtain ⟨k, hpos, rfl, hsome⟩ := h
  obtain ⟨stop, hstop⟩ := Option.isSome_iff_exists.mp hsome
  obtain ⟨hwhole, hmillis⟩ := hclock.deadline hstop
  have hnow := hclock.natAbs_toMillis_le
  have hlast := hwhole.natAbs_toMillis_le
  have hk : k < 2 ^ 63 := by omega
  have hexpiry : expiryMillis (Duration.ofMillis k) = k := expiryMillis_ofMillis hpos (by omega)
  have hlt : now < stop := by
    rw [← not_le, hwhole.le_iff hclock]
    omega
  have hlimit : Keys.timeLimit = 2 ^ 63 := rfl
  rw [hexpiry]
  exact ⟨stop, hstop, hwhole, hlt, hpos, hk, hmillis.symm, by omega⟩

/-! ### What a server has for a slot -/

def Held.ofValue : StoredValue → Held
  | .text value => .text value
  | .set members => .sorted (scored members)

def Item.ofSlot (slot : Slot) : Item :=
  { held := Held.ofValue slot.value, deadline := slot.deadline.map Instant.toMillis }

/-- A slot for a sort of values that a server can have. -/
structure Slot.Sound (sort : ValueSort) (slot : Slot) : Prop where
  sort : slot.value.sort = sort
  deadline : ∀ d, slot.deadline = some d → d.Whole
  members : ∀ ms, slot.value = .set ms → ms ≠ [] ∧ ∀ e ∈ ms, e.2.Whole

variable {slot : Slot} {valueSort : ValueSort}

theorem lasts_iff (hclock : now.Whole) (h : Slot.Sound valueSort slot) :
    Keys.Lasts (Item.ofSlot slot) now.toMillis ↔ slot.isExpired now = false := by
  obtain ⟨value, deadline⟩ := slot
  cases deadline with
  | none => simp [Keys.Lasts, Item.ofSlot, Slot.isExpired]
  | some d =>
    have hle := (h.deadline d rfl).le_iff hclock
    simp only [Keys.Lasts, Item.ofSlot, Slot.isExpired, Option.map_some, Option.some.injEq,
      forall_eq', decide_eq_false_iff_not, hle]
    omega

/-- A server has under a keyspace what is live in a store. -/
structure Mirrors (keyspace : String) (sort : String → ValueSort) (now : Instant) (m : MemoryStore)
    (s : Keys) : Prop where
  same : ∀ key, s.live? now.toMillis (fullKey keyspace key) = (m.live? now key).map Item.ofSlot
  sound : ∀ key slot, m.live? now key = some slot → Slot.Sound (sort key) slot

namespace Mirrors

variable {keyspace key : String} {sort : String → ValueSort} {m : MemoryStore} {s s' : Keys}

theorem empty (h : ∀ key, s.get? (fullKey keyspace key) = none) :
    Mirrors keyspace sort now Keyed.empty s where
  same key := Keys.live?_of_get?_eq_none (h key)
  sound key slot hslot := by
    rw [MemoryStore.live?_empty] at hslot
    cases hslot

theorem forward (h : Mirrors keyspace sort now m s) (hnow : now.Whole) (hlater : later.Whole)
    (hle : now ≤ later) : Mirrors keyspace sort later m s where
  same key := by
    apply Option.ext
    intro item
    rw [Keys.live?_later ((hnow.le_iff hlater).mp hle), h.same key, MemoryStore.live?_later hle]
    simp only [Option.map_eq_some_iff, Option.filter_eq_some_iff, Bool.not_eq_true']
    constructor
    · intro hitem
      obtain ⟨⟨slot, hslot, rfl⟩, hlasts⟩ := hitem
      exact ⟨slot, ⟨hslot, (lasts_iff hlater (h.sound key slot hslot)).mp hlasts⟩, rfl⟩
    · intro hitem
      obtain ⟨slot, ⟨hslot, halive⟩, rfl⟩ := hitem
      exact ⟨⟨slot, hslot, rfl⟩, (lasts_iff hlater (h.sound key slot hslot)).mpr halive⟩
  sound key slot hslot := by
    rw [MemoryStore.live?_later hle, Option.filter_eq_some_iff] at hslot
    exact h.sound key slot hslot.1

/-! ### Changes on both sides -/

theorem write (h : Mirrors keyspace sort now m s) (hsound : Slot.Sound (sort key) slot)
    (halive : slot.isExpired now = false)
    (hs' : ∀ name, s'.live? now.toMillis name =
      if fullKey keyspace key = name then some (Item.ofSlot slot) else s.live? now.toMillis name) :
    Mirrors keyspace sort now (Keyed.insert m key slot) s' where
  same key' := by
    rw [hs', MemoryStore.live?_insert, halive, h.same key']
    by_cases hk : key = key'
    · rw [if_pos hk, if_pos (congrArg _ hk)]
      rfl
    · rw [if_neg hk, if_neg (mt fullKey_inj.mp hk)]
  sound key' slot' hslot := by
    rw [MemoryStore.live?_insert, halive] at hslot
    by_cases hk : key = key'
    · rw [if_pos hk] at hslot
      cases hslot
      exact hk ▸ hsound
    · rw [if_neg hk] at hslot
      exact h.sound key' slot' hslot

theorem insert (h : Mirrors keyspace sort now m s) (hclock : now.Whole)
    (hsound : Slot.Sound (sort key) slot) (halive : slot.isExpired now = false) :
    Mirrors keyspace sort now (Keyed.insert m key slot)
      (Keyed.insert s (fullKey keyspace key) (Item.ofSlot slot)) :=
  h.write hsound halive fun _ => Keys.live?_insert ((lasts_iff hclock hsound).mpr halive)

/-- A slot that is stored again. -/
theorem again (h : Mirrors keyspace sort now m s) (hslot : m.live? now key = some slot) :
    Mirrors keyspace sort now (Keyed.insert m key slot) s := by
  refine h.write (h.sound key slot hslot) (MemoryStore.live?_eq_some_iff.mp hslot).2 fun name => ?_
  by_cases hname : fullKey keyspace key = name
  · rw [if_pos hname, ← hname, h.same key, hslot]
    rfl
  · rw [if_neg hname]

theorem erase (h : Mirrors keyspace sort now m s) :
    Mirrors keyspace sort now (Keyed.erase m key) (Keyed.erase s (fullKey keyspace key)) where
  same key' := by
    rw [Keys.live?_erase, MemoryStore.live?_erase, h.same key']
    by_cases hk : key = key'
    · rw [if_pos hk, if_pos (congrArg _ hk)]
      rfl
    · rw [if_neg hk, if_neg (mt fullKey_inj.mp hk)]
  sound key' slot hslot := by
    rw [MemoryStore.live?_erase] at hslot
    split at hslot
    · cases hslot
    · exact h.sound key' slot hslot

theorem dropExpired (h : Mirrors keyspace sort now m s) :
    Mirrors keyspace sort now (m.dropExpired now key) s where
  same key' := by rw [MemoryStore.live?_dropExpired, h.same key']
  sound key' slot hslot := by
    rw [MemoryStore.live?_dropExpired] at hslot
    exact h.sound key' slot hslot

theorem read (h : Mirrors keyspace sort now m s) {α : Type} (f : Slot → Except Fault α) :
    Mirrors keyspace sort now (m.read now key f).2 s := by
  unfold MemoryStore.read
  split
  · exact h
  · exact h.dropExpired

/-! ### What both sides have under a key -/

theorem text_cases (h : Mirrors keyspace sort now m s) (hsort : sort key = .text) :
    (m.live? now key = none ∧ s.live? now.toMillis (fullKey keyspace key) = none) ∨
      ∃ value deadline, m.live? now key = some { value := .text value, deadline } ∧
        s.live? now.toMillis (fullKey keyspace key) =
          some { held := .text value, deadline := deadline.map Instant.toMillis } := by
  have hsame := h.same key
  cases hslot : m.live? now key with
  | none => exact Or.inl ⟨rfl, by rw [hsame, hslot, Option.map_none]⟩
  | some slot =>
    have hvalue := (h.sound key slot hslot).sort
    obtain ⟨value | members, deadline⟩ := slot
    · exact Or.inr ⟨value, deadline, rfl, by rw [hsame, hslot]; rfl⟩
    · rw [hsort] at hvalue
      cases hvalue

theorem set_cases (h : Mirrors keyspace sort now m s) (hsort : sort key = .set) :
    (m.live? now key = none ∧ s.live? now.toMillis (fullKey keyspace key) = none) ∨
      ∃ members deadline, m.live? now key = some { value := .set members, deadline } ∧
        s.live? now.toMillis (fullKey keyspace key) =
          some { held := .sorted (scored members), deadline := deadline.map Instant.toMillis } ∧
        Slot.Sound .set { value := .set members, deadline } := by
  have hsame := h.same key
  cases hslot : m.live? now key with
  | none => exact Or.inl ⟨rfl, by rw [hsame, hslot, Option.map_none]⟩
  | some slot =>
    have hsound := h.sound key slot hslot
    rw [hsort] at hsound
    obtain ⟨value | members, deadline⟩ := slot
    · cases hsound.sort
    · exact Or.inr ⟨members, deadline, rfl, by rw [hsame, hslot]; rfl, hsound⟩

end Mirrors

/-! ### Calls -/

/-- The same answer on both sides, and stores that go on to agree. -/
def Agrees {α : Type} (keyspace : String) (sort : String → ValueSort) (now : Instant)
    (memory : Except Fault α × MemoryStore) (server : Except Fault α × Keys) : Prop :=
  server.1 = memory.1 ∧ Mirrors keyspace sort now memory.2 server.2

section Calls

theorem isError_ranked (members : List (String × Int)) :
    Reply.isError (.array (Keys.ranked members)) = false := by
  rw [Reply.isError, List.any_eq_false]
  intro r hr
  obtain ⟨e, -, he⟩ := List.mem_flatMap.mp hr
  simp only [List.mem_cons, List.not_mem_nil, or_false] at he
  rcases he with rfl | rfl <;> exact Bool.false_ne_true

variable {keyspace key member value expected : String} {texts : List String}
  {sort : String → ValueSort} {m : MemoryStore} {s : Keys}

theorem settle_setRemove (n : Nat) : settle (.setRemove key texts) (some (.int n)) = .ok n := by
  simp only [settle, Reply.isError, Bool.false_eq_true, if_false, Reply.answer?,
    Reply.count?_natCast]

theorem settle_setCount (n : Nat) : settle (.setCount key) (some (.int n)) = .ok n := by
  simp only [settle, Reply.isError, Bool.false_eq_true, if_false, Reply.answer?,
    Reply.count?_natCast]

theorem holds_of_none (h : m.live? now key = none) : m.holds now key expected = false := by
  simp only [MemoryStore.holds, h]

theorem holds_of_text {deadline : Option Instant}
    (h : m.live? now key = some { value := .text value, deadline }) :
    m.holds now key expected = decide (value = expected) := by
  simp only [MemoryStore.holds, h, StoredValue.text.injEq]

theorem alive {value : StoredValue} (h : now < stop) : Slot.isExpired ⟨value, some stop⟩ now = false := by
  simpa [Slot.isExpired] using h

theorem sound_text (hsort : sort key = .text) (h : stop.Whole) :
    Slot.Sound (sort key) { value := .text value, deadline := some stop } where
  sort := hsort.symm
  deadline d hd := by
    cases hd
    exact h
  members ms hms := by cases hms

theorem sound_set {members : List (String × Instant)} {deadline : Option Instant}
    (hsort : sort key = .set) (h : ∀ d, deadline = some d → d.Whole) (hne : members ≠ [])
    (hms : ∀ e ∈ members, e.2.Whole) :
    Slot.Sound (sort key) { value := .set members, deadline } where
  sort := hsort.symm
  deadline := h
  members ms heq := by
    cases heq
    exact ⟨hne, hms⟩

theorem whole_removeMembers {members : List (String × Instant)} (h : ∀ e ∈ members, e.2.Whole) :
    ∀ e ∈ (MemoryStore.removeMembers members texts).1, e.2.Whole := by
  induction texts generalizing members with
  | nil => exact h
  | cons text rest ih =>
    apply ih
    intro e he
    simp only [MemoryStore.discard_eq_filter] at he
    exact h e (List.mem_filter.mp he).1

theorem whole_adding {members : List (String × Instant)} (h : ∀ e ∈ members, e.2.Whole)
    (hclock : now.Whole) (member : String) :
    (if (Keyed.lookup member members).isNone then members ++ [(member, now)] else members) ≠ [] ∧
      ∀ e ∈ (if (Keyed.lookup member members).isNone then members ++ [(member, now)] else members),
        e.2.Whole := by
  cases hmember : Keyed.lookup member members with
  | none =>
    refine ⟨by simp, fun e he => ?_⟩
    rcases List.mem_append.mp he with hold | hnew
    · exact h e hold
    · obtain rfl := List.mem_singleton.mp hnew
      exact hclock
  | some t =>
    refine ⟨?_, h⟩
    rintro rfl
    cases hmember

theorem setAdd_agrees (h : Mirrors keyspace sort now m s) (hclock : now.Whole)
    (hsort : sort key = .set) (hlife : Lifetime now d) :
    Agrees keyspace sort now (m.call now (.setAdd key member d))
      (s.call keyspace now (.setAdd key member d)) := by
  obtain ⟨stop, hstop, hwhole, hlt, hpos, -, hmillis, hlimit⟩ := hlife.spec hclock
  obtain ⟨members, hms, hheld, hmemory⟩ : ∃ members,
      (∀ e ∈ members, e.2.Whole) ∧
      s.HasSorted now.toMillis (fullKey keyspace key) (scored members) ∧
      m.call now (.setAdd key member d) =
        (.ok (Keyed.lookup member members).isNone,
          Keyed.insert m key
            { value := .set (if (Keyed.lookup member members).isNone then members ++ [(member, now)]
                else members), deadline := some stop }) := by
    simp only [MemoryStore.call, MemoryStore.setAdd, hstop]
    obtain ⟨hm, hs⟩ | ⟨members, deadline, hm, hs, hold⟩ := h.set_cases hsort
    · exact ⟨[], by simp, Or.inl ⟨hs, rfl⟩, by rw [hm]⟩
    · exact ⟨members, (hold.members members rfl).2, Or.inr ⟨_, hs⟩, by rw [hm]⟩
  obtain ⟨s', hreply, hlive⟩ := Keys.addTransaction_spec hheld hpos (hmillis ▸ hlimit) now.toMillis member
  rw [ranking_scored, hmillis] at hlive
  have hserver : s.call keyspace now (.setAdd key member d) =
      (.ok (Keyed.lookup member members).isNone, s') := by
    simp only [Keys.call, Request.ofCall?, hreply, lookup_scored, Option.isSome_map]
    cases Keyed.lookup member members <;> rfl
  rw [hmemory, hserver]
  obtain ⟨hne, hwholes⟩ := whole_adding hms hclock member
  refine ⟨rfl, h.write (sound_set hsort ?_ hne hwholes) (alive hlt) hlive⟩
  intro d hd
  cases hd
  exact hwhole

theorem call_setRemove_of_none (hs : s.live? now.toMillis (fullKey keyspace key) = none) :
    s.call keyspace now (.setRemove key texts) = (.ok 0, s) := by
  cases texts with
  | nil => rfl
  | cons text rest =>
    simp only [Keys.call, Request.ofCall?, List.isEmpty_cons, Bool.false_eq_true, if_false,
      Keys.reply, Keys.run, Keys.zrem, hs]
    rfl

theorem call_setRemove_cons {text : String} {members : List (String × Instant)}
    {deadline : Option Instant}
    (hs : s.live? now.toMillis (fullKey keyspace key) =
      some { held := .sorted (scored members), deadline := deadline.map Instant.toMillis }) :
    s.call keyspace now (.setRemove key (text :: texts)) =
      (.ok (MemoryStore.removeMembers members (text :: texts)).2,
        if (MemoryStore.removeMembers members (text :: texts)).1.isEmpty then
          Keyed.erase s (fullKey keyspace key)
        else Keyed.insert s (fullKey keyspace key)
          (Item.ofSlot ⟨.set (MemoryStore.removeMembers members (text :: texts)).1, deadline⟩)) := by
  simp only [Keys.call, Request.ofCall?, List.isEmpty_cons, Bool.false_eq_true, if_false,
    Keys.reply, Keys.run, Keys.zrem, hs, removeAll_scored, isEmpty_scored, settle_setRemove]
  rfl

theorem setRemove_agrees (h : Mirrors keyspace sort now m s) (hclock : now.Whole)
    (hsort : sort key = .set) :
    Agrees keyspace sort now (m.call now (.setRemove key texts))
      (s.call keyspace now (.setRemove key texts)) := by
  obtain ⟨hm, hs⟩ | ⟨members, deadline, hm, hs, hsound⟩ := h.set_cases hsort
  · rw [call_setRemove_of_none hs]
    simp only [MemoryStore.call, MemoryStore.setRemove, hm]
    exact ⟨rfl, h.dropExpired⟩
  · obtain ⟨hne, hms⟩ := hsound.members members rfl
    have halive := (MemoryStore.live?_eq_some_iff.mp hm).2
    simp only [MemoryStore.call, MemoryStore.setRemove, hm]
    cases texts with
    | nil =>
      have hkept : members.isEmpty = false := List.isEmpty_eq_false_iff.mpr hne
      simp only [MemoryStore.removeMembers, hkept, Bool.false_eq_true, if_false]
      exact ⟨rfl, h.again hm⟩
    | cons text rest =>
      rw [call_setRemove_cons hs]
      split
      · exact ⟨rfl, h.erase⟩
      · next hleft =>
        have hleft' := List.isEmpty_eq_false_iff.mp (Bool.eq_false_iff.mpr hleft)
        have hslot := sound_set hsort hsound.deadline hleft' (whole_removeMembers hms)
        exact ⟨rfl, h.insert hclock hslot halive⟩

theorem setCount_agrees (h : Mirrors keyspace sort now m s) (hsort : sort key = .set) :
    Agrees keyspace sort now (m.call now (.setCount key)) (s.call keyspace now (.setCount key)) := by
  simp only [Keys.call, Request.ofCall?, Keys.reply, Keys.run, MemoryStore.call,
    MemoryStore.setCount, MemoryStore.read]
  obtain ⟨hm, hs⟩ | ⟨members, deadline, hm, hs, hsound⟩ := h.set_cases hsort
  · rw [hm, hs]
    exact ⟨rfl, h.dropExpired⟩
  · rw [hm, hs]
    refine ⟨?_, h⟩
    simp only [settle_setCount, scored, List.length_map]
    rfl

theorem setMembers_agrees (h : Mirrors keyspace sort now m s) (hsort : sort key = .set) :
    Agrees keyspace sort now (m.call now (.setMembers key))
      (s.call keyspace now (.setMembers key)) := by
  simp only [Keys.call, Request.ofCall?, Keys.reply, Keys.run, MemoryStore.call,
    MemoryStore.setMembers, MemoryStore.read]
  obtain ⟨hm, hs⟩ | ⟨members, deadline, hm, hs, hsound⟩ := h.set_cases hsort
  · rw [hm, hs]
    exact ⟨rfl, h.dropExpired⟩
  · rw [hm, hs]
    refine ⟨?_, h⟩
    have hread := members?_ranked_scored (hsound.members members rfl).2
    simp only [settle, isError_ranked, Reply.answer?, hread]
    rfl

theorem setIfAbsent_agrees (h : Mirrors keyspace sort now m s) (hclock : now.Whole)
    (hsort : sort key = .text) (hlife : Lifetime now d) :
    Agrees keyspace sort now (m.call now (.setIfAbsent key value d))
      (s.call keyspace now (.setIfAbsent key value d)) := by
  obtain ⟨stop, hstop, hwhole, hlt, -, -, hmillis, hlimit⟩ := hlife.spec hclock
  have hroom : ¬ Keys.timeLimit ≤ stop.toMillis := not_le.mpr hlimit
  simp only [Keys.call, Request.ofCall?, Keys.reply, Keys.run, Keys.setNew, hmillis, if_neg hroom,
    MemoryStore.call, MemoryStore.setIfAbsent, hstop]
  obtain ⟨hm, hs⟩ | ⟨old, deadline, hm, hs⟩ := h.text_cases hsort
  · rw [hm, hs]
    exact ⟨rfl, h.insert hclock (sound_text hsort hwhole) (alive hlt)⟩
  · rw [hm, hs]
    exact ⟨rfl, h⟩

theorem get_agrees (h : Mirrors keyspace sort now m s) (hsort : sort key = .text) :
    Agrees keyspace sort now (m.call now (.get key)) (s.call keyspace now (.get key)) := by
  simp only [Keys.call, Request.ofCall?, Keys.reply, Keys.run, Keys.get, MemoryStore.call,
    MemoryStore.get, MemoryStore.read]
  obtain ⟨hm, hs⟩ | ⟨value, deadline, hm, hs⟩ := h.text_cases hsort
  · rw [hm, hs]
    exact ⟨rfl, h.dropExpired⟩
  · rw [hm, hs]
    exact ⟨rfl, h⟩

theorem ttl_agrees (h : Mirrors keyspace sort now m s) (hclock : now.Whole) :
    Agrees keyspace sort now (m.call now (.ttl key)) (s.call keyspace now (.ttl key)) := by
  have hlive := h.same key
  simp only [Keys.call, Request.ofCall?, Keys.reply, Keys.run, Keys.pttl, hlive, MemoryStore.call,
    MemoryStore.ttl, MemoryStore.read]
  cases hslot : m.live? now key with
  | none => exact ⟨rfl, h.dropExpired⟩
  | some slot =>
    refine ⟨?_, h⟩
    have hsound := h.sound key slot hslot
    have hlasts := (lasts_iff hclock hsound).mpr (MemoryStore.live?_eq_some_iff.mp hslot).2
    obtain ⟨held, deadline⟩ := slot
    cases deadline with
    | none => rfl
    | some stop =>
      have hleft : 0 ≤ stop.toMillis - now.toMillis := by
        have := hlasts stop.toMillis rfl
        omega
      have htime := hclock.timeLeft_eq (hsound.deadline stop rfl)
      simp only [Option.map_some, Item.ofSlot, Option.getD_some, settle, Reply.isError,
        Bool.false_eq_true, if_false, Reply.answer?, Reply.int?, if_pos hleft, htime]
      rfl

theorem delete_agrees (h : Mirrors keyspace sort now m s) :
    Agrees keyspace sort now (m.call now (.delete key)) (s.call keyspace now (.delete key)) := by
  refine ⟨?_, h.erase⟩
  have hlive := h.same key
  simp only [Keys.call, Request.ofCall?, Keys.reply, Keys.run, Keys.del, hlive, Option.isSome_map,
    MemoryStore.call, MemoryStore.delete]
  cases (m.live? now key).isSome <;> rfl

theorem deleteIfEq_agrees (h : Mirrors keyspace sort now m s) (hsort : sort key = .text) :
    Agrees keyspace sort now (m.call now (.deleteIfEq key expected))
      (s.call keyspace now (.deleteIfEq key expected)) := by
  simp only [Keys.call, Request.ofCall?, Keys.reply, Keys.run, Keys.runScript, Keys.del,
    MemoryStore.call, MemoryStore.deleteIfEq]
  obtain ⟨hm, hs⟩ | ⟨value, deadline, hm, hs⟩ := h.text_cases hsort
  · rw [hs, holds_of_none hm]
    exact ⟨rfl, h⟩
  · rw [hs, holds_of_text hm]
    by_cases heq : value = expected
    · simp only [heq, if_true, decide_true]
      exact ⟨rfl, h.erase⟩
    · simp only [heq, if_false, decide_false, Bool.false_eq_true]
      exact ⟨rfl, h⟩

theorem expireIfEq_agrees (h : Mirrors keyspace sort now m s) (hclock : now.Whole)
    (hsort : sort key = .text) (hlife : Lifetime now d) :
    Agrees keyspace sort now (m.call now (.expireIfEq key expected d))
      (s.call keyspace now (.expireIfEq key expected d)) := by
  obtain ⟨stop, hstop, hwhole, hlt, -, hfits, hmillis, hlimit⟩ := hlife.spec hclock
  have hroom : ¬ Keys.timeLimit ≤ stop.toMillis := not_le.mpr hlimit
  simp only [Keys.call, Request.ofCall?, Keys.reply, Keys.run, Keys.runScript,
    Text.readUnsigned?_toString hfits, Keys.expire, hmillis, if_neg hroom,
    MemoryStore.call, MemoryStore.expireIfEq, hstop]
  obtain ⟨hm, hs⟩ | ⟨value, deadline, hm, hs⟩ := h.text_cases hsort
  · rw [hs, holds_of_none hm]
    exact ⟨rfl, h⟩
  · rw [hs, holds_of_text hm]
    by_cases heq : value = expected
    · simp only [heq, if_true, decide_true]
      exact ⟨rfl, h.insert hclock (sound_text hsort hwhole) (alive hlt)⟩
    · simp only [heq, if_false, decide_false, Bool.false_eq_true]
      exact ⟨rfl, h⟩

theorem call_agrees (h : Mirrors keyspace sort now m s) {c : StoreCall} (hc : Served sort (now, c)) :
    Agrees keyspace sort now (m.call now c) (s.call keyspace now c) := by
  obtain ⟨hclock, hsuits, hlife⟩ := hc
  cases c with
  | setAdd key member d => exact setAdd_agrees h hclock hsuits (hlife d rfl)
  | setRemove key texts => exact setRemove_agrees h hclock hsuits
  | setCount key => exact setCount_agrees h hsuits
  | setMembers key => exact setMembers_agrees h hsuits
  | setIfAbsent key value d => exact setIfAbsent_agrees h hclock hsuits (hlife d rfl)
  | get key => exact get_agrees h hsuits
  | ttl key => exact ttl_agrees h hclock
  | delete key => exact delete_agrees h
  | deleteIfEq key expected => exact deleteIfEq_agrees h hsuits
  | expireIfEq key expected d => exact expireIfEq_agrees h hclock hsuits (hlife d rfl)

end Calls

/-! ### Runs -/

/-- A client on a connection that does not drop, to a server that has the client's clock. -/
abbrev Connected := StateT Keys (ReaderM Instant)

instance : MonadClock Connected where
  now := read

instance : MonadServer Connected where
  exchange request := do
    let (reply, s) := (← get).reply (← read).toMillis request
    set s
    return some reply

instance : MonadJournal Connected where
  record _ := pure ()
  tally _ := pure ()

/-- The answer to a call that goes through the server, and the server after it. -/
def answered (keyspace : String) (s : Keys) (now : Instant) (c : StoreCall) :
    Except Fault c.Answer × Keys :=
  ((callServer keyspace c : Attempt Connected c.Answer).run.run s).run now

variable {keyspace : String} {sort : String → ValueSort} {m : MemoryStore} {s : Keys}
  {calls : List TimedCall}

theorem counted_run {α : Type} (r : Except Fault α) :
    ((counted r : Attempt Connected α).run.run s).run now = (r, s) := by
  cases r <;> rfl

theorem now_run {α : Type} (f : Instant → Attempt Connected α) :
    ((do f (← (Turnstile.now : Connected Instant)) : Attempt Connected α).run.run s).run now =
      ((f now).run.run s).run now := rfl

theorem exchange_run {α : Type} (request : Request) (f : Option Reply → Attempt Connected α) :
    ((do f (← (MonadServer.exchange request : Connected (Option Reply))) :
        Attempt Connected α).run.run s).run now =
      ((f (some (s.reply now.toMillis request).1)).run.run (s.reply now.toMillis request).2).run now :=
  rfl

theorem answered_eq (c : StoreCall) : answered keyspace s now c = s.call keyspace now c := by
  unfold answered callServer Keys.call
  refine (now_run _).trans ?_
  cases Request.ofCall? keyspace now c with
  | none => rfl
  | some request => exact (exchange_run request _).trans (counted_run _)

theorem replies_agree_of_mirrors (h : Mirrors keyspace sort now m s) (hclock : now.Whole)
    (hserved : ∀ e ∈ calls, Served sort e) (hforward : Forward calls) (hfrom : From now calls) :
    (replies (answered keyspace) s calls).1 = (replies MemoryStore.call m calls).1 := by
  induction calls generalizing now m s with
  | nil => rfl
  | cons e rest ih =>
    obtain ⟨later, c⟩ := e
    obtain ⟨hnext, hrest⟩ := forward_cons.mp hforward
    have hc := hserved _ List.mem_cons_self
    have hle : now ≤ later := hfrom _ List.mem_cons_self
    obtain ⟨hanswer, hmirrors⟩ := call_agrees (h.forward hclock hc.clock hle) hc
    have hmore := ih hmirrors hc.clock (fun e he => hserved e (List.mem_cons_of_mem _ he)) hrest hnext
    simp only [replies, answered_eq, hanswer]
    rw [hmore]

/-- A server under a keyspace that it holds nothing of answers as the store of one process. -/
theorem replies_agree (hserver : ∀ key, s.get? (fullKey keyspace key) = none)
    (hserved : ∀ e ∈ calls, Served sort e) (hforward : Forward calls) :
    (replies (answered keyspace) s calls).1 = (replies MemoryStore.call Keyed.empty calls).1 := by
  cases calls with
  | nil => rfl
  | cons e rest =>
    have hclock := (hserved e List.mem_cons_self).clock
    apply replies_agree_of_mirrors (Mirrors.empty hserver) hclock hserved hforward
    intro e' he'
    rcases List.mem_cons.mp he' with rfl | hrest
    · exact le_rfl
    · exact (forward_cons.mp hforward).1 e' hrest

theorem replies_agree_beside_others :
    let s : Keys := Keyed.empty.insert "other" { held := .text "value", deadline := none }
    let sort := fun key => if key = "export:running" then ValueSort.set else ValueSort.text
    let calls : List TimedCall :=
      [(⟨0, 0⟩, .setAdd "export:running" "b" (Duration.ofMillis 1500)),
        (⟨1, 0⟩, .setAdd "export:running" "a" (Duration.ofMillis 1500)),
        (⟨1, 0⟩, .setRemove "export:running" ["b", "b", "c"]),
        (⟨1, 0⟩, .setIfAbsent "lease" "token" (Duration.ofMillis 250)),
        (⟨1, 1000000⟩, .ttl "lease"),
        (⟨1, 250000000⟩, .get "lease"),
        (⟨2, 0⟩, .setMembers "export:running")]
    (∀ key, s.get? (fullKey "jobgate:" key) = none) ∧ (∀ e ∈ calls, Served sort e) ∧
      Forward calls ∧
      (replies (answered "jobgate:") s calls).1 = (replies MemoryStore.call Keyed.empty calls).1 := by
  intro s sort calls
  have hserver : ∀ key, s.get? (fullKey "jobgate:" key) = none := by
    intro key
    have hne : "other" ≠ fullKey "jobgate:" key := by
      intro h
      have hhead := congrArg (fun name => name.toList.head?) h
      simp [fullKey] at hhead
    rw [Keyed.get?_insert, if_neg hne]
    rfl
  have hlife (now : Instant) (k : Nat) (hk : 0 < k)
      (hd : (now.deadline? (Duration.ofMillis k)).isSome) :
      ∀ d, some (Duration.ofMillis k) = some d → Lifetime now d := by
    rintro _ ⟨⟩
    exact ⟨k, hk, rfl, hd⟩
  have hserved : ∀ e ∈ calls, Served sort e := by
    simp only [calls, List.forall_mem_cons]
    refine ⟨⟨by decide, rfl, hlife _ 1500 (by decide) rfl⟩, ⟨by decide, rfl, hlife _ 1500 (by decide) rfl⟩,
      ⟨by decide, rfl, by simp [StoreCall.lifetime?]⟩, ⟨by decide, rfl, hlife _ 250 (by decide) rfl⟩,
      ⟨by decide, trivial, by simp [StoreCall.lifetime?]⟩, ⟨by decide, rfl, by simp [StoreCall.lifetime?]⟩,
      ⟨by decide, rfl, by simp [StoreCall.lifetime?]⟩, by simp⟩
  have hforward : Forward calls := by
    unfold Forward
    decide
  exact ⟨hserver, hserved, hforward, replies_agree hserver hserved hforward⟩

end Server

end Turnstile
