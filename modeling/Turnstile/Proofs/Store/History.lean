import Turnstile.Proofs.Store.Refinement

/-!
# What a run of calls leaves in the store

A store answers a run of calls as an ideal store does. A set lists a member under the time of the
call that added it when it was last absent, and a table in which expired slots linger cannot be told
from one that has dropped them.
-/

namespace Turnstile

/-! ### Members under a key -/

namespace IdealEntry

def members : Option IdealEntry → Finset SetMember
  | some { value := .set ms, .. } => ms
  | _ => ∅

theorem members_filter {e : Option IdealEntry} {p : IdealEntry → Bool} {x : SetMember}
    (h : x ∈ members (e.filter p)) : x ∈ members e := by
  rcases e with _ | e
  · exact h
  · rw [Option.filter_some] at h
    split at h
    · exact h
    · simp only [members, Finset.notMem_empty] at h

theorem members_ofSet? {ms : Finset SetMember} {deadline : Option Instant} :
    members (ofSet? ms deadline) = ms := by
  unfold ofSet?
  split
  · next h => exact h.symm
  · rfl

theorem mem_adding {ms : Finset SetMember} {member : String} {now : Instant} {x : SetMember}
    (h : x ∈ adding ms member now) :
    x ∈ ms ∨ (x = { member, addedAt := now } ∧ ¬ Has ms member) := by
  unfold adding at h
  split at h
  · exact Or.inl h
  · next hm =>
    rcases Finset.mem_insert.mp h with hx | hx
    · exact Or.inr ⟨hx, hm⟩
    · exact Or.inl hx

theorem mem_respond {now : Instant} {e : Option IdealEntry} {c : StoreCall} {x : SetMember}
    (h : x ∈ members (respond now e c).2) :
    x ∈ members e ∨
      ∃ key ttl, c = .setAdd key x.member ttl ∧ x.addedAt = now ∧ ¬ Has (members e) x.member := by
  by_cases hr : c.Reads
  · rw [respond_of_reads hr] at h
    exact Or.inl h
  cases c with
  | setAdd key member ttl =>
    rcases e with _ | ⟨_ | ms, d⟩
    · rcases mem_adding h with hx | ⟨rfl, hm⟩
      · exact Or.inl hx
      · exact Or.inr ⟨key, ttl, rfl, rfl, hm⟩
    · exact Or.inl h
    · rcases mem_adding h with hx | ⟨rfl, hm⟩
      · exact Or.inl hx
      · exact Or.inr ⟨key, ttl, rfl, rfl, hm⟩
  | setRemove key texts =>
    rcases e with _ | ⟨_ | ms, d⟩
    · exact Or.inl h
    · exact Or.inl h
    · simp only [respond, members_ofSet?] at h
      exact Or.inl (Finset.mem_sdiff.mp h).1
  | setCount key => exact absurd trivial hr
  | setMembers key => exact absurd trivial hr
  | setIfAbsent key value ttl =>
    rcases e with _ | e
    · simp only [respond, members, Finset.notMem_empty] at h
    · exact Or.inl h
  | get key => exact absurd trivial hr
  | ttl key => exact absurd trivial hr
  | delete key => simp only [respond, members, Finset.notMem_empty] at h
  | deleteIfEq key expected =>
    simp only [respond] at h
    split at h
    · simp only [members, Finset.notMem_empty] at h
    · exact Or.inl h
  | expireIfEq key expected ttl =>
    simp only [respond] at h
    split at h
    · simp only [members, Finset.notMem_empty] at h
    · exact Or.inl h

end IdealEntry

namespace MemoryStore

variable {s s' : MemoryStore} {now later : Instant} {key : String} {x y : SetMember}

def lists (s : MemoryStore) (now : Instant) (key : String) : List SetMember :=
  match (s.setMembers now key).1 with
  | .ok ms => ms
  | .error _ => []

theorem mem_lists : x ∈ s.lists now key ↔ x ∈ IdealEntry.members (s.view now key) := by
  simp only [lists, setMembers, read, view]
  rcases s.live? now key with _ | ⟨_ | ms, d⟩
  · simp [Except.map, IdealEntry.members]
  · simp [Except.map, IdealEntry.members, Slot.ideal, StoredValue.ideal]
  · simp only [Except.map, Option.getD_some, Option.map_some, Slot.ideal, StoredValue.ideal,
      IdealEntry.members, membersOf, List.mem_toFinset, listed, List.mem_mergeSort]

theorem eq_of_mem_lists (hs : s.Listed) (hx : x ∈ s.lists now key) (hy : y ∈ s.lists now key)
    (h : x.member = y.member) : x = y := by
  rw [mem_lists, view] at hx hy
  rcases hl : s.live? now key with _ | ⟨_ | ms, d⟩ <;>
    simp only [hl, Option.map_none, Option.map_some, Slot.ideal, StoredValue.ideal,
      IdealEntry.members, Finset.notMem_empty, mem_membersOf] at hx hy
  have ht := List.inj_on_of_nodup_map (distinct_of_live? hs hl) hx hy h
  exact SetMember.eq_of h (Prod.mk.injEq .. ▸ ht).2

theorem mem_lists_call (hs : s.Listed) (hn : now ≤ later) {c : StoreCall}
    (h : x ∈ (s.call now c).2.lists later key) :
    x ∈ s.lists now key ∨
      ∃ ttl, c = .setAdd key x.member ttl ∧ x.addedAt = now ∧
        ∀ y ∈ s.lists now key, y.member ≠ x.member := by
  rw [mem_lists, ← upTo_view hn] at h
  have hv := IdealEntry.members_filter h
  by_cases hk : c.key = key
  · subst hk
    rw [view_call_self hs] at hv
    rcases IdealEntry.mem_respond (IdealEntry.members_filter hv) with hx | ⟨_, ttl, rfl, ht, hm⟩
    · exact Or.inl (mem_lists.mpr hx)
    · refine Or.inr ⟨ttl, rfl, ht, ?_⟩
      intro y hy hxy
      exact hm ⟨y, mem_lists.mp hy, hxy⟩
  · rw [view, call_live?_ne c hk] at hv
    exact Or.inl (mem_lists.mpr hv)

/-! ### Since when a member is listed -/

def after (calls : List TimedCall) : MemoryStore := (replies call Keyed.empty calls).2

/-- Whether a member is listed under a key after calls. -/
def Lists (calls : List TimedCall) (now : Instant) (key member : String) : Prop :=
  ∃ x ∈ (after calls).lists now key, x.member = member

/-- The call that added a member found it absent, and every later one found it listed. -/
def AddedSince (calls : List TimedCall) (now : Instant) (key : String) (x : SetMember) : Prop :=
  ∃ before ttl rest, calls = before ++ (x.addedAt, .setAdd key x.member ttl) :: rest ∧
    ¬ Lists before x.addedAt key x.member ∧
    (∀ done t c more, rest = done ++ (t, c) :: more →
      Lists (before ++ (x.addedAt, .setAdd key x.member ttl) :: done) t key x.member) ∧
    Lists calls now key x.member

theorem after_append_singleton (calls : List TimedCall) (t : Instant) (c : StoreCall) :
    after (calls ++ [(t, c)]) = ((after calls).call t c).2 := by
  simp only [after, replies_append, replies]

theorem listed_after (calls : List TimedCall) : (after calls).Listed := by
  induction calls using List.reverseRecOn with
  | nil => exact listed_empty
  | append_singleton calls e ih =>
    rw [after_append_singleton]
    exact listed_call ih e.1 e.2

theorem forward_append_singleton {calls : List TimedCall} {t : Instant} {c : StoreCall} :
    Forward (calls ++ [(t, c)]) ↔ Forward calls ∧ Until calls t := by
  rw [forward_append]
  simp only [Forward, From, Until, List.map_cons, List.map_nil, List.pairwise_singleton, true_and,
    List.mem_singleton, forall_eq]

/-- A listed member was added at its time, and has been listed since. -/
theorem addedSince_of_mem {calls : List TimedCall} (hf : Forward calls) (hu : Until calls now)
    (h : x ∈ (after calls).lists now key) : AddedSince calls now key x := by
  induction calls using List.reverseRecOn generalizing now with
  | nil =>
    have hx := mem_lists.mp h
    exact absurd hx (Finset.notMem_empty x)
  | append_singleton calls e ih =>
    obtain ⟨t, c⟩ := e
    obtain ⟨hf, ht⟩ := forward_append_singleton.mp hf
    have htn : t ≤ now := hu _ (List.mem_append_right _ (List.mem_singleton_self _))
    have hlists : Lists (calls ++ [(t, c)]) now key x.member := ⟨x, h, rfl⟩
    rw [after_append_singleton] at h
    rcases mem_lists_call (listed_after calls) htn h with hx | ⟨ttl, rfl, rfl, habsent⟩
    · obtain ⟨before, ttl, rest, hcalls, habsent, hsince, _⟩ := ih hf ht hx
      refine ⟨before, ttl, rest ++ [(t, c)], ?_, habsent, ?_, hlists⟩
      · rw [hcalls, List.append_assoc, List.cons_append]
      · intro done t' c' more hrest
        rcases List.eq_nil_or_concat' more with rfl | ⟨more, e, rfl⟩
        · obtain ⟨hdone, he⟩ := List.append_inj' hrest rfl
          simp only [List.cons.injEq, Prod.mk.injEq, and_true] at he
          rw [← hdone, ← he.1, ← hcalls]
          exact ⟨x, hx, rfl⟩
        · rw [← List.cons_append, ← List.append_assoc] at hrest
          exact hsince done t' c' more (List.append_inj' hrest rfl).1
    · refine ⟨calls, ttl, [], rfl, ?_, ?_, hlists⟩
      · rintro ⟨y, hy, hxy⟩
        exact habsent y hy hxy
      · intro done t' c' more hrest
        exact absurd hrest.symm (List.append_ne_nil_of_right_ne_nil _ (List.cons_ne_nil _ _))

theorem mem_of_addedSince {calls : List TimedCall} (hf : Forward calls) (hu : Until calls now)
    (h : AddedSince calls now key x) : x ∈ (after calls).lists now key := by
  obtain ⟨before, ttl, rest, rfl, habsent, hsince, hlists⟩ := h
  induction rest using List.reverseRecOn generalizing now with
  | nil =>
    have htn : x.addedAt ≤ now := hu _ (List.mem_append_right _ (List.mem_singleton_self _))
    obtain ⟨y, hy, hxy⟩ := hlists
    have hstep := hy
    rw [after_append_singleton] at hstep
    rcases mem_lists_call (listed_after before) htn hstep with hb | ⟨_, _, ht, _⟩
    · exact absurd ⟨y, hb, hxy⟩ habsent
    · have hyx : y = x := SetMember.eq_of hxy ht
      rw [hyx] at hy
      exact hy
  | append_singleton rest e ih =>
    obtain ⟨t, c⟩ := e
    rw [← List.cons_append, ← List.append_assoc] at hf hu hlists ⊢
    obtain ⟨hf, ht⟩ := forward_append_singleton.mp hf
    have htn : t ≤ now := hu _ (List.mem_append_right _ (List.mem_singleton_self _))
    have hx : x ∈ (after (before ++ (x.addedAt, .setAdd key x.member ttl) :: rest)).lists t key := by
      refine ih hf ht ?_ (hsince rest t c [] rfl)
      intro done t' c' more hrest
      refine hsince done t' c' (more ++ [(t, c)]) ?_
      rw [hrest, List.append_assoc, List.cons_append]
    obtain ⟨y, hy, hxy⟩ := hlists
    have hstep := hy
    rw [after_append_singleton] at hstep
    rcases mem_lists_call (listed_after _) htn hstep with hb | ⟨_, _, _, hnew⟩
    · have hyx : y = x := eq_of_mem_lists (listed_after _) hb hx hxy
      rw [hyx] at hy
      exact hy
    · exact absurd hxy.symm (hnew x hx)

theorem lists_sorted (hs : s.Listed) : (s.lists now key).Pairwise SetMember.Before := by
  simp only [lists, setMembers, read]
  rcases hl : s.live? now key with _ | ⟨_ | ms, d⟩
  · exact List.Pairwise.nil
  · exact List.Pairwise.nil
  · change (listed ms).Pairwise SetMember.Before
    rw [← sort_membersOf (distinct_of_live? hs hl)]
    have hsorted := Finset.pairwise_sort (membersOf ms) SetMember.NotAfter
    have hnodup := Finset.sort_nodup (membersOf ms) SetMember.NotAfter
    exact hsorted.imp₂ (fun _ _ => SetMember.NotAfter.before) hnodup

/-! ### Lingering slots -/

/-- The same table without some of the slots that have expired. -/
def Sheds (s : MemoryStore) (now : Instant) (s' : MemoryStore) : Prop :=
  ∀ key, s'.get? key = s.get? key ∨
    (s'.get? key = none ∧ ∃ slot, s.get? key = some slot ∧ slot.isExpired now = true)

theorem Sheds.view (h : s.Sheds now s') : s'.view now = s.view now := by
  funext key
  simp only [MemoryStore.view, live?]
  rcases h key with hk | ⟨hk, slot, hs, he⟩
  · rw [hk]
  · rw [hk, hs, Option.filter_some, he]
    rfl

theorem Sheds.listed (h : s.Sheds now s') (hs : s.Listed) : s'.Listed := by
  intro key ms d hg
  rcases h key with hk | ⟨hk, _⟩
  · exact hs key ms d (hk ▸ hg)
  · rw [hk] at hg
    cases hg

/-- A table without expired slots answers as the table with them. -/
theorem Sheds.replies (h : s.Sheds now s') (hs : s.Listed) {more : List TimedCall}
    (hf : Forward more) (hn : From now more) :
    (replies call s' more).1 = (replies call s more).1 := by
  have hshows : s.Shows now (s.view now) := (upTo_view (le_refl now)).symm
  have hshows' : s'.Shows now (s.view now) := h.view.trans hshows
  rw [(hshows.replies hs hf hn).1, (hshows'.replies (h.listed hs) hf hn).1]

/-! ### Runs from an empty store -/

theorem replies_empty {calls : List TimedCall} (hf : Forward calls) :
    (replies call Keyed.empty calls).1 = (replies IdealStore.call IdealStore.empty calls).1 := by
  cases calls with
  | nil => rfl
  | cons e rest =>
    have hfrom : From e.1 (e :: rest) := by
      intro e' he
      rcases List.mem_cons.mp he with rfl | he
      · exact le_refl _
      · exact (forward_cons.mp hf).1 e' he
    have hshows : Shows Keyed.empty e.1 IdealStore.empty := rfl
    exact (hshows.replies listed_empty hf hfrom).1

theorem setMembers_ok {ms : List SetMember} (h : (s.call now (.setMembers key)).1 = .ok ms) :
    s.lists now key = ms := by
  simp only [lists]
  rw [show (s.setMembers now key).1 = .ok ms from h]

/-- Every run of calls is answered as by an ideal store, in which what is written with a time to live
is gone that much later, or never if no such instant can be represented. After the run, slots that
have expired cannot be told from slots that are gone, sets are listed in strict order with the time
since when each member is there, and a call that fails leaves the table as it is. -/
theorem replies_eq_ideal (calls : List TimedCall) (hf : Forward calls) :
    (replies MemoryStore.call Keyed.empty calls).1 =
        (replies IdealStore.call IdealStore.empty calls).1 ∧
      (∀ (t d : Instant) (ttl : Duration), t.Plain →
        (t.deadline? ttl = some d ↔ d.Plain ∧ d.toNanos = t.toNanos + ttl.nanos)) ∧
      ∀ now, Until calls now →
        (∀ s', (after calls).Sheds now s' → ∀ more, Forward more → From now more →
          (replies MemoryStore.call s' more).1 = (replies MemoryStore.call (after calls) more).1) ∧
        (∀ key ms, ((after calls).call now (.setMembers key)).1 = .ok ms →
          ms.Pairwise SetMember.Before ∧ ∀ x, x ∈ ms ↔ AddedSince calls now key x) ∧
        (∀ c f, ((after calls).call now c).1 = .error f →
          f = Fault.wrongKindOfValue c.key ∧ ((after calls).call now c).2 = after calls) := by
  refine ⟨replies_empty hf, ?_, ?_⟩
  · intro t d ttl hp
    rw [Instant.deadline?_of_plain hp, Instant.ofNanos?_eq_some_iff]
  intro now hu
  refine ⟨?_, ?_, ?_⟩
  · intro s' hshed more hmore hfrom
    exact hshed.replies (listed_after calls) hmore hfrom
  · intro key ms hms
    rw [← setMembers_ok hms]
    refine ⟨lists_sorted (listed_after calls), ?_⟩
    intro x
    exact ⟨addedSince_of_mem hf hu, mem_of_addedSince hf hu⟩
  · intro c f h
    exact call_error h

/-- A text that expires makes room for a set, and the set refuses to be read as a text. -/
theorem replies_eq_ideal_of_expiry :
    let calls : List TimedCall :=
      [(⟨0, 0⟩, .setIfAbsent "k" "v" ⟨5⟩), (⟨0, 5⟩, .setAdd "k" "m" Duration.max),
        (⟨0, 6⟩, .get "k")]
    Forward calls ∧
      (replies MemoryStore.call Keyed.empty calls).1 =
        [⟨.setIfAbsent "k" "v" ⟨5⟩, .ok true⟩, ⟨.setAdd "k" "m" Duration.max, .ok true⟩,
          ⟨.get "k", .error (Fault.wrongKindOfValue "k")⟩] := by
  intro calls
  have hf : Forward calls := by
    unfold Forward
    decide
  refine ⟨hf, ?_⟩
  rw [(replies_eq_ideal calls hf).1]
  rfl

end MemoryStore

end Turnstile
