import Mathlib.Data.List.Basic
import Mathlib.Data.String.Basic
import Turnstile.Proofs.Text.Digits
import Turnstile.Proofs.Time.Millis
import Turnstile.Server.Ideal
import Turnstile.Store.Memory

/-!
# What a server's keys hold and reply

Live items of a server after each change, and its replies read back: a sorted set is listed with the
times that were given as scores.
-/

namespace Turnstile.Server

/-! ### Live items -/

namespace Keys

variable {s : Keys} {now later : Int} {key key' : String} {item : Item}

def Lasts (item : Item) (now : Int) : Prop := ∀ d, item.deadline = some d → now < d

theorem live?_eq_some_iff :
    s.live? now key = some item ↔ s.get? key = some item ∧ Lasts item now := by
  simp only [live?, Option.filter_eq_some_iff, Lasts]
  refine and_congr_right fun _ => ?_
  cases item.deadline <;> simp

theorem live?_of_get?_eq_none (h : s.get? key = none) : s.live? now key = none := by
  rw [live?, h]
  rfl

theorem live?_insert (h : Lasts item now) :
    live? (Keyed.insert s key item) now key' = if key = key' then some item else s.live? now key' := by
  split
  · next hk =>
    rw [live?_eq_some_iff, Keyed.get?_insert, if_pos hk]
    exact ⟨rfl, h⟩
  · next hk => simp only [live?, Keyed.get?_insert, if_neg hk]

theorem live?_erase :
    live? (Keyed.erase s key) now key' = if key = key' then none else s.live? now key' := by
  split
  · next hk =>
    apply live?_of_get?_eq_none
    rw [Keyed.get?_erase, if_pos hk]
  · next hk => simp only [live?, Keyed.get?_erase, if_neg hk]

theorem live?_later (h : now ≤ later) :
    s.live? later key = some item ↔ s.live? now key = some item ∧ Lasts item later := by
  have hmono : Lasts item later → Lasts item now := fun hl d hd => by
    have := hl d hd
    omega
  rw [live?_eq_some_iff, live?_eq_some_iff, and_assoc, and_iff_right_of_imp hmono]

/-! ### Adding a member in a transaction -/

/-- The members of a sorted set with one that keeps its score if it is there. -/
def ranking (members : List (String × Int)) (member : String) (score : Int) : List (String × Int) :=
  if (Keyed.lookup member members).isSome then members else members ++ [(member, score)]

variable {members : List (String × Int)} {expiry : Nat}

/-- What is under a key counts as a set: a key that is not there stands for the empty one. -/
def HasSorted (s : Keys) (now : Int) (key : String) (members : List (String × Int)) : Prop :=
  (s.live? now key = none ∧ members = []) ∨
    ∃ deadline, s.live? now key = some { held := .sorted members, deadline }

theorem zaddNew_spec (h : s.HasSorted now key members) (score : Int) (member : String) :
    ∃ s' deadline,
    s.zaddNew now key score member =
        (.int (if (Keyed.lookup member members).isSome then 0 else 1), s') ∧
      s'.live? now key = some { held := .sorted (ranking members member score), deadline } ∧
      ∀ name, key ≠ name → s'.live? now name = s.live? now name := by
  unfold zaddNew
  rcases h with ⟨hs, rfl⟩ | ⟨deadline, hs⟩
  · have hnew : Lasts { held := .sorted [(member, score)], deadline := none } now := by
      intro d hd
      cases hd
    rw [hs]
    refine ⟨_, none, rfl, ?_, fun name hname => ?_⟩
    · rw [live?_insert hnew, if_pos rfl]
      rfl
    · rw [live?_insert hnew, if_neg hname]
  · have hlasts := (live?_eq_some_iff.mp hs).2
    rw [hs]
    cases hmember : (Keyed.lookup member members).isSome with
    | true =>
      refine ⟨s, deadline, by simp [hmember], ?_, fun _ _ => rfl⟩
      rw [hs, ranking, if_pos hmember]
    | false =>
      have hadded : Lasts { held := .sorted (members ++ [(member, score)]), deadline } now := hlasts
      refine ⟨s.insert key { held := .sorted (members ++ [(member, score)]), deadline }, deadline,
        by simp [hmember], ?_, fun name hname => ?_⟩
      · rw [live?_insert hadded, if_pos rfl, ranking, hmember]
        rfl
      · rw [live?_insert hadded, if_neg hname]

theorem expire_spec (hs : s.live? now key = some item) (hpos : 0 < expiry)
    (hroom : now + expiry < timeLimit) : ∃ s', s.expire now key expiry = (.int 1, s') ∧
      ∀ name, s'.live? now name =
        if key = name then some { item with deadline := some (now + expiry) }
        else s.live? now name := by
  have hlasts : Lasts { item with deadline := some (now + expiry) } now := by
    intro d hd
    cases hd
    omega
  refine ⟨s.insert key { item with deadline := some (now + expiry) }, ?_, fun name => live?_insert hlasts⟩
  rw [expire, hs]
  exact if_neg (by omega)

theorem addTransaction_spec (h : s.HasSorted now key members) (hpos : 0 < expiry)
    (hroom : now + expiry < timeLimit) (score : Int) (member : String) : ∃ s',
    s.reply now (.transaction [.zaddNew key score member, .pexpire key expiry]) =
        (.array [.int (if (Keyed.lookup member members).isSome then 0 else 1), .int 1], s') ∧
      ∀ name, s'.live? now name =
        if key = name then
          some { held := .sorted (ranking members member score), deadline := some (now + expiry) }
        else s.live? now name := by
  obtain ⟨s₁, deadline, hadd, hlive, hothers⟩ := zaddNew_spec h score member
  obtain ⟨s₂, hexpire, hafter⟩ := expire_spec hlive hpos hroom
  refine ⟨s₂, ?_, fun name => ?_⟩
  · simp only [reply, runAll, run, hadd, hexpire]
  · rw [hafter]
    by_cases hname : key = name
    · rw [if_pos hname, if_pos hname]
    · rw [if_neg hname, if_neg hname, hothers name hname]

end Keys

theorem fullKey_inj {keyspace a b : String} : fullKey keyspace a = fullKey keyspace b ↔ a = b := by
  constructor
  · intro h
    have hlist := congrArg String.toList h
    rw [fullKey, fullKey, String.toList_append, String.toList_append] at hlist
    exact String.toList_inj.mp (List.append_cancel_left hlist)
  · exact congrArg (fullKey keyspace)

/-! ### Expiries -/

theorem expiryMillis_ofMillis {k : Nat} (h : 0 < k) (hk : k < 2 ^ 64) :
    expiryMillis (Duration.ofMillis k) = k := by
  have hmillis : (Duration.ofMillis k).millis = k := by
    simp only [Duration.millis, Duration.ofMillis]
    omega
  rw [expiryMillis, hmillis, Nat.pow_eq, Nat.mod_eq_of_lt hk]
  omega

/-! ### Scores -/

namespace Reply

theorem count?_natCast (n : Nat) : (int n).count? = some n := by
  simp only [count?, Int.natCast_nonneg, if_true, Int.toNat_natCast]

theorem score?_of_count {n : Int} (h : n.natAbs ≤ 2 ^ 53) : (bulk (toString n)).score? = some n := by
  have hlimit : n.natAbs ≤ exactLimit := h
  have hread : Text.readSigned? 64 (toString n) = some n :=
    Text.readSigned?_toString (Nat.lt_of_le_of_lt h (by decide))
  simp only [score?, text?, Option.bind_some, scoreOfText?, hread, if_pos hlimit]

theorem memberAt_toMillis (member : String) {t : Instant} (h : t.Whole) :
    memberAt member t.toMillis = { member, addedAt := t } := by
  rw [memberAt, h.ofMillis?_toMillis]
  rfl

end Reply

def scored (members : List (String × Instant)) : List (String × Int) :=
  members.map fun e => (e.1, e.2.toMillis)

variable {members : List (String × Instant)}

theorem lookup_scored (member : String) :
    Keyed.lookup member (scored members) = (Keyed.lookup member members).map Instant.toMillis := by
  induction members with
  | nil => rfl
  | cons e rest ih =>
    by_cases hk : e.1 = member
    · simp [scored, Keyed.lookup, hk]
    · simpa [scored, Keyed.lookup, hk] using ih

theorem discard_scored (member : String) :
    Keyed.discard member (scored members) = scored (Keyed.discard member members) := by
  induction members with
  | nil => rfl
  | cons e rest ih =>
    by_cases hk : e.1 = member
    · simpa [scored, Keyed.discard, hk] using ih
    · simpa [scored, Keyed.discard, hk] using ih

theorem ranking_scored (member : String) (now : Instant) :
    Keys.ranking (scored members) member now.toMillis =
      scored (if (Keyed.lookup member members).isNone then members ++ [(member, now)] else members) := by
  rw [Keys.ranking, lookup_scored]
  cases Keyed.lookup member members with
  | none => simp [scored]
  | some t => rfl

theorem isEmpty_scored : (scored members).isEmpty = members.isEmpty := List.isEmpty_map

theorem removeAll_scored (texts : List String) : Keys.removeAll (scored members) texts =
    (scored (MemoryStore.removeMembers members texts).1, (MemoryStore.removeMembers members texts).2) := by
  induction texts generalizing members with
  | nil => rfl
  | cons text rest ih =>
    simp only [Keys.removeAll, MemoryStore.removeMembers, MemoryStore.removeMember, discard_scored, ih,
      lookup_scored, Option.isSome_map]
    rfl

/-! ### Listing -/

/-- Members in the order of their scores are members in the order of their times. -/
theorem mergeSort_scored (hwhole : ∀ e ∈ members, e.2.Whole) :
    (scored members).mergeSort Keys.rankedBefore =
      (MemoryStore.listed members).map fun m => (m.member, m.addedAt.toMillis) := by
  have horder : ∀ a ∈ members, ∀ b ∈ members,
      MemoryStore.listedBefore { member := a.1, addedAt := a.2 } { member := b.1, addedAt := b.2 } =
        Keys.rankedBefore (a.1, a.2.toMillis) (b.1, b.2.toMillis) := by
    intro a ha b hb
    have hsame := (hwhole a ha).toMillis_inj (hwhole b hb)
    have hle := (hwhole a ha).le_iff (hwhole b hb)
    simp only [MemoryStore.listedBefore, Keys.rankedBefore, hsame, hle]
  rw [MemoryStore.listed, List.map_mergeSort, List.map_map]
  · rfl
  · intro a ha b hb
    obtain ⟨e, he, rfl⟩ := List.mem_map.mp ha
    obtain ⟨f, hf, rfl⟩ := List.mem_map.mp hb
    exact horder e he f hf

theorem members?_ranked (ms : List SetMember) (hwhole : ∀ m ∈ ms, m.addedAt.Whole) :
    Reply.members? (ms.flatMap fun m => [.bulk m.member, .bulk (toString m.addedAt.toMillis)]) =
      some ms := by
  induction ms with
  | nil => rfl
  | cons m rest ih =>
    have hm := hwhole m List.mem_cons_self
    have hrest := ih fun m' hm' => hwhole m' (List.mem_cons_of_mem _ hm')
    rw [List.flatMap_cons]
    simp only [List.cons_append, List.nil_append, Reply.members?, Reply.text?,
      Reply.score?_of_count hm.natAbs_toMillis_le, Reply.memberAt_toMillis m.member hm, hrest,
      Option.bind_eq_bind, Option.bind_some]

/-- What is listed by a server reads as what is listed in memory. -/
theorem members?_ranked_scored (hwhole : ∀ e ∈ members, e.2.Whole) :
    Reply.members? (Keys.ranked (scored members)) = some (MemoryStore.listed members) := by
  have hlisted : ∀ m ∈ MemoryStore.listed members, m.addedAt.Whole := by
    intro m hm
    rw [MemoryStore.listed, List.mem_mergeSort] at hm
    obtain ⟨e, he, rfl⟩ := List.mem_map.mp hm
    exact hwhole e he
  rw [Keys.ranked, mergeSort_scored hwhole, List.flatMap_map]
  exact members?_ranked _ hlisted

end Turnstile.Server
