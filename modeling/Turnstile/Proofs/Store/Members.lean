import Turnstile.Proofs.Store.Ideal
import Turnstile.Proofs.Store.Memory

/-!
# Member lists as sets

The store of one process keeps a set as a list of members without repetition. Every operation on such
a list is the operation on the finite set that it stands for.
-/

namespace Turnstile.MemoryStore

variable {ms : List (String × Instant)} {member : String} {now : Instant}

/-! ### Lists of members -/

def Distinct (ms : List (String × Instant)) : Prop := (ms.map Prod.fst).Nodup

def membersOf (ms : List (String × Instant)) : Finset SetMember :=
  (ms.map fun (member, addedAt) => { member, addedAt : SetMember }).toFinset

theorem mem_membersOf {x : SetMember} : x ∈ membersOf ms ↔ (x.member, x.addedAt) ∈ ms := by
  simp only [membersOf, List.mem_toFinset, List.mem_map]
  constructor
  · rintro ⟨e, he, rfl⟩
    exact he
  · intro h
    exact ⟨_, h, rfl⟩

theorem lookup_isSome_iff : (Keyed.lookup member ms).isSome = true ↔ ∃ t, (member, t) ∈ ms := by
  induction ms with
  | nil => simp [Keyed.lookup]
  | cons e rest ih =>
    obtain ⟨k, t⟩ := e
    by_cases hk : k = member
    · subst hk
      simp only [Keyed.lookup, if_true, Option.isSome_some, true_iff]
      exact ⟨t, List.mem_cons_self ..⟩
    · simp only [Keyed.lookup, hk, if_false, ih, List.mem_cons, Prod.mk.injEq, Ne.symm hk, false_and,
        false_or]

theorem has_membersOf : IdealEntry.Has (membersOf ms) member ↔ ∃ t, (member, t) ∈ ms := by
  constructor
  · rintro ⟨x, hx, rfl⟩
    exact ⟨x.addedAt, mem_membersOf.mp hx⟩
  · rintro ⟨t, ht⟩
    exact ⟨⟨member, t⟩, mem_membersOf.mpr ht, rfl⟩

theorem lookup_isNone_eq :
    (Keyed.lookup member ms).isNone = !decide (IdealEntry.Has (membersOf ms) member) := by
  rw [Bool.eq_iff_iff]
  simp only [Bool.not_eq_true', decide_eq_false_iff_not, has_membersOf, ← lookup_isSome_iff]
  cases Keyed.lookup member ms <;> simp

/-! ### Counting and listing -/

theorem nodup_of_distinct (h : Distinct ms) :
    (ms.map fun (member, addedAt) => { member, addedAt : SetMember }).Nodup := by
  have hf : ms.map Prod.fst =
      (ms.map fun (member, addedAt) => { member, addedAt : SetMember }).map SetMember.member := by
    simp only [List.map_map]
    rfl
  unfold Distinct at h
  rw [hf] at h
  exact h.of_map _

theorem card_membersOf (h : Distinct ms) : (membersOf ms).card = ms.length := by
  rw [membersOf, List.toFinset_card_of_nodup (nodup_of_distinct h), List.length_map]

theorem listedBefore_iff {a b : SetMember} : listedBefore a b = true ↔ a.NotAfter b := by
  unfold listedBefore SetMember.NotAfter
  split
  · next h => simp [h]
  · next h =>
    simp only [decide_eq_true_eq, h, false_and, or_false]
    exact ⟨fun hle => lt_of_le_of_ne hle h, le_of_lt⟩

theorem sort_membersOf (h : Distinct ms) :
    (membersOf ms).sort SetMember.NotAfter = listed ms := by
  have hp : ((membersOf ms).sort SetMember.NotAfter).Perm (listed ms) := by
    unfold listed
    refine (List.perm_of_nodup_nodup_toFinset_eq (Finset.sort_nodup _ _) (nodup_of_distinct h) ?_).trans
      (List.mergeSort_perm _ _).symm
    exact Finset.sort_toFinset _ _
  refine List.Perm.eq_of_pairwise ?_ (Finset.pairwise_sort _ _) ?_ hp
  · intro a b _ _ hab hba
    exact hab.antisymm hba
  · have hs : (listed ms).Pairwise fun a b => listedBefore a b = true := by
      refine List.pairwise_mergeSort ?_ ?_ _
      · intro a b c hab hbc
        rw [listedBefore_iff] at hab hbc ⊢
        exact hab.trans hbc
      · intro a b
        rw [Bool.or_eq_true, listedBefore_iff, listedBefore_iff]
        exact SetMember.NotAfter.total a b
    exact hs.imp fun hab => listedBefore_iff.mp hab

/-! ### Adding -/

theorem membersOf_add :
    membersOf (if (Keyed.lookup member ms).isNone then ms ++ [(member, now)] else ms) =
      IdealEntry.adding (membersOf ms) member now := by
  rw [lookup_isNone_eq, IdealEntry.adding]
  by_cases hm : IdealEntry.Has (membersOf ms) member
  · simp only [hm, decide_true, Bool.not_true, Bool.false_eq_true, if_false, if_true]
  · simp only [hm, decide_false, Bool.not_false, if_true, if_false]
    ext x
    rw [Finset.mem_insert, mem_membersOf, mem_membersOf, List.mem_append, List.mem_singleton]
    obtain ⟨m, t⟩ := x
    simp only [Prod.mk.injEq, SetMember.mk.injEq]
    exact Or.comm

theorem distinct_add (h : Distinct ms) :
    Distinct (if (Keyed.lookup member ms).isNone then ms ++ [(member, now)] else ms) := by
  split
  · next hn =>
    rw [Option.isNone_iff_eq_none] at hn
    unfold Distinct at h ⊢
    rw [List.map_append, List.map_singleton]
    refine List.nodup_append.mpr ⟨h, List.nodup_singleton _, ?_⟩
    intro a ha b hb hab
    rw [List.mem_singleton] at hb
    obtain ⟨e, he, rfl⟩ := List.mem_map.mp ha
    have hs := lookup_isSome_iff.mpr ⟨e.2, (show (e.1, e.2) ∈ ms from he)⟩
    rw [hab, hb, hn] at hs
    cases hs
  · exact h

/-! ### Removing -/

theorem discard_eq_filter : Keyed.discard member ms = ms.filter fun e => e.1 ≠ member := by
  induction ms with
  | nil => rfl
  | cons e rest ih =>
    obtain ⟨k, t⟩ := e
    by_cases hk : k = member <;> simp [Keyed.discard, hk, ih]

theorem distinct_filter (h : Distinct ms) (p : String × Instant → Bool) : Distinct (ms.filter p) :=
  List.Nodup.sublist (List.filter_sublist.map Prod.fst) h

theorem length_removeMember (h : Distinct ms) (member : String) :
    (if (removeMember ms member).2 then 1 else 0) + (removeMember ms member).1.length =
      ms.length := by
  simp only [removeMember]
  induction ms with
  | nil => rfl
  | cons e rest ih =>
    obtain ⟨k, t⟩ := e
    unfold Distinct at h
    rw [List.map_cons, List.nodup_cons] at h
    obtain ⟨hk, hrest⟩ := h
    by_cases hkm : k = member
    · subst hkm
      have hd : Keyed.discard k rest = rest := by
        rw [discard_eq_filter, List.filter_eq_self]
        intro e he
        simp only [ne_eq, decide_eq_true_eq]
        intro hek
        exact hk (List.mem_map.mpr ⟨e, he, hek⟩)
      simp only [Keyed.lookup, Keyed.discard, if_true, Option.isSome_some, hd, List.length_cons]
      omega
    · have htail := ih hrest
      simp only [Keyed.lookup, Keyed.discard, hkm, if_false, List.length_cons]
      cases hl : (Keyed.lookup member rest).isSome <;>
        simp only [hl, Bool.false_eq_true, if_true, if_false] at htail ⊢ <;> omega

theorem removeMembers_eq (h : Distinct ms) (texts : List String) :
    (removeMembers ms texts).1 = ms.filter (fun e => e.1 ∉ texts) ∧
      (removeMembers ms texts).2 + (removeMembers ms texts).1.length = ms.length := by
  induction texts generalizing ms with
  | nil => simp [removeMembers]
  | cons text rest ih =>
    have hd : Distinct (removeMember ms text).1 := by
      simp only [removeMember, discard_eq_filter]
      exact distinct_filter h _
    obtain ⟨hlist, hcount⟩ := ih hd
    have hlength := length_removeMember h text
    simp only [removeMembers]
    constructor
    · rw [hlist, removeMember, discard_eq_filter, List.filter_filter]
      congr 1
      funext e
      simp only [List.mem_cons, not_or, ne_eq, Bool.decide_and]
      rw [Bool.and_comm]
    · omega

theorem membersOf_filter (texts : List String) :
    membersOf (ms.filter fun e => e.1 ∉ texts) =
      membersOf ms \ IdealEntry.among (membersOf ms) texts := by
  ext x
  simp only [mem_membersOf, List.mem_filter, Finset.mem_sdiff, IdealEntry.among, Finset.mem_filter,
    decide_eq_true_eq, not_and]
  exact ⟨fun ⟨hm, ht⟩ => ⟨hm, fun _ => ht⟩, fun ⟨hm, ht⟩ => ⟨hm, ht hm⟩⟩

theorem removeMembers_count (h : Distinct ms) (texts : List String) :
    (removeMembers ms texts).2 = (IdealEntry.among (membersOf ms) texts).card := by
  obtain ⟨hlist, hcount⟩ := removeMembers_eq h texts
  have hrest := card_membersOf (distinct_filter h fun e => e.1 ∉ texts)
  have hsub : IdealEntry.among (membersOf ms) texts ⊆ membersOf ms := Finset.filter_subset _ _
  have hdiff := Finset.card_sdiff_add_card_eq_card hsub
  rw [membersOf_filter] at hrest
  rw [card_membersOf h] at hdiff
  rw [hlist] at hcount
  omega

theorem isEmpty_iff_membersOf : ms.isEmpty = true ↔ membersOf ms = ∅ := by
  simp only [membersOf, List.toFinset_eq_empty_iff, List.map_eq_nil_iff, List.isEmpty_iff]

end Turnstile.MemoryStore
