import Turnstile.Job.Liveness
import Turnstile.Proofs.Simulation.Outages

/-!
# Clean-ups

A clean-up takes the members of a running set that are dead out of it, and nothing else. If a call
fails, it stops there: what it has taken out by then was dead.
-/

namespace Turnstile

open Thread IdealEntry

/-! ### Sets -/

namespace IdealEntry

variable {M : Finset SetMember} {d : Option Instant} {texts more : List String}

theorem among_subset : among M texts ⊆ M := Finset.filter_subset _ _

theorem mem_among {x : SetMember} : x ∈ among M texts ↔ x ∈ M ∧ x.member ∈ texts := Finset.mem_filter

theorem among_append :
    among M (texts ++ more) = among M texts ∪ among (M \ among M texts) more := by
  ext x
  simp only [mem_among, Finset.mem_union, Finset.mem_sdiff, List.mem_append]
  tauto

theorem card_among_append : (among M (texts ++ more)).card =
    (among M texts).card + (among (M \ among M texts) more).card := by
  rw [among_append]
  exact Finset.card_union_of_disjoint (Finset.disjoint_sdiff.mono_right among_subset)

theorem sdiff_among_append :
    M \ among M (texts ++ more) = (M \ among M texts) \ among (M \ among M texts) more := by
  rw [among_append]
  exact sdiff_sdiff_left.symm

theorem respond_setRemove (now : Instant) (key : String) :
    respond now (ofSet? M d) (.setRemove key texts) =
      (.ok (among M texts).card, ofSet? (M \ among M texts) d) := by
  unfold ofSet?
  split
  · next h =>
    subst h
    rfl
  · rfl

theorem respond_setMembers (now : Instant) (key : String) :
    respond now (ofSet? M d) (.setMembers key) = (.ok (M.sort SetMember.NotAfter), ofSet? M d) := by
  unfold ofSet?
  split
  · next h =>
    subst h
    exact congrArg (fun ms => (Except.ok ms, none)) (Finset.sort_empty _).symm
  · rfl

theorem filter_ofSet? {N : Finset SetMember} {now : Instant} (hN : N ⊆ M)
    (h : (ofSet? M d).filter (fun e => e.isLive now) = ofSet? M d) :
    (ofSet? N d).filter (fun e => e.isLive now) = ofSet? N d := by
  by_cases hempty : N = ∅
  · rw [hempty, ofSet?, if_pos rfl, Option.filter_none]
  · have hM : M ≠ ∅ := fun hM => hempty (Finset.subset_empty.mp (hM ▸ hN))
    simp only [ofSet?, if_neg hM, if_neg hempty, Option.filter_eq_some_iff, true_and] at h ⊢
    exact h

end IdealEntry

/-! ### Batches -/

variable {Q ρ : Type} {h : Host Q ρ} {t : Scene Q ρ} {calm : Prop} {now : Instant} {V : IdealStore}

namespace RunningSet

theorem flatten_batches (size : Nat) (xs : List String) : (batches size xs).flatten = xs := by
  induction xs using batches.induct size with
  | case1 =>
    rw [batches]
    rfl
  | case2 x rest ih =>
    rw [batches, List.flatten_cons, ih, List.cons_append, List.take_append_drop]

theorem batches_zero (xs : List String) : batches 0 xs = batches 1 xs := by
  induction xs using batches.induct 0 with
  | case1 => rw [batches, batches]
  | case2 x rest ih => rw [batches, batches, ih]

theorem removeAll_withSize (set : RunningSet (Thread Q ρ)) (size : Nat) (ids : List (List String)) :
    { set with batchSize := size }.removeAll ids = set.removeAll ids := by
  induction ids with
  | nil => rfl
  | cons batch rest ih =>
    unfold removeAll
    rw [ih]
    rfl

theorem cleanUp_zero (set : RunningSet (Thread Q ρ)) :
    { set with batchSize := 0 }.cleanUp = { set with batchSize := 1 }.cleanUp := by
  unfold cleanUp
  simp only [batches_zero, set.removeAll_withSize]
  rfl

end RunningSet

/-! ### Which jobs are over -/

/-- Those of the ids without a status key. -/
def IdealStore.unmarked (V : IdealStore) (ids : List String) : List String :=
  ids.filter fun id => (V (Liveness.key id)).isNone

theorem IdealStore.unmarked_cons (V : IdealStore) {id : String} {rest : List String}
    {value : Option String} (hv : value.isNone = (V (Liveness.key id)).isNone) :
    V.unmarked (id :: rest) = if value.isSome then V.unmarked rest else id :: V.unmarked rest := by
  rw [unmarked, List.filter_cons, ← hv]
  cases value <;> rfl

/-- How it ends to ask which of the ids are over. Nothing is changed; on a calm machine it fails only
over a status key that holds a set. -/
def Surveyed (calm : Prop) (now : Instant) (V : IdealStore) (ids : List String)
    (faults : List StoreCall) : Except Fault (List String) → Scene Q ρ → Prop
  | .ok ended, t' =>
    t'.machine.Stands calm now V ∧ t'.faults = faults ∧ ended = V.unmarked ids
  | .error _, t' =>
    t'.machine.Stands calm now V ∧ (∃ c, StoreCall.Reads c ∧ t'.faults = faults ++ [c]) ∧
      (calm → ∃ id ∈ ids, ∃ ms d, V (Liveness.key id) = some ⟨.set ms, d⟩)

theorem Surveyed.error {ids more : List String} {f : Fault} {faults : List StoreCall}
    {t' : Scene Q ρ} (hs : Surveyed calm now V ids faults (.error f) t') (hi : ids ⊆ more) :
    Surveyed calm now V more faults (.error f) t' := by
  obtain ⟨hstands, hfaults, hset⟩ := hs
  refine ⟨hstands, hfaults, fun hc => ?_⟩
  obtain ⟨id, hid, hv⟩ := hset hc
  exact ⟨id, hi hid, hv⟩

theorem IdealEntry.respond_get (now : Instant) (e : Option IdealEntry) (key : String) :
    (∃ ms d, e = some ⟨.set ms, d⟩ ∧
        (respond now e (.get key)).1 = .error (Fault.wrongKindOfValue key)) ∨
      ∃ value, (respond now e (.get key)).1 = .ok value ∧ value.isNone = e.isNone := by
  rcases e with _ | ⟨value | ms, d⟩
  · exact Or.inr ⟨none, rfl, rfl⟩
  · exact Or.inr ⟨some value, rfl, rfl⟩
  · exact Or.inl ⟨ms, d, rfl, rfl⟩

theorem Liveness.yields_completed (ht : t.machine.Stands calm now V) (ids : List String) :
    Yields h (Liveness.completed ids : Attempt (Thread Q ρ) _).run (Surveyed calm now V ids t.faults) t := by
  induction ids generalizing t with
  | nil => exact ⟨ht, rfl, rfl⟩
  | cons id rest ih =>
    apply yields_run_bind
    apply yields_run_bind
    refine yields_read (c := .get (key id)) trivial ht ?_ ?_
    · intro f t₁ hrefused ht₁ hfaults
      refine ⟨ht₁, ⟨.get (key id), trivial, hfaults⟩, fun hc => ⟨id, List.mem_cons_self, ?_⟩⟩
      have hr := hrefused hc
      rcases respond_get now (V (key id)) (key id) with ⟨ms, d, hv, -⟩ | ⟨value, hvalue, -⟩
      · exact ⟨ms, d, hv⟩
      · cases hr.symm.trans hvalue
    · intro value t₁ hvalue ht₁ hfaults
      have hnone : value.isNone = (V (key id)).isNone := by
        rcases respond_get now (V (key id)) (key id) with ⟨ms, d, -, hr⟩ | ⟨value', hvalue', hn⟩
        · cases hvalue.symm.trans hr
        · cases hvalue.symm.trans hvalue'
          exact hn
      change Yields h (do
        let more ← completed rest
        return if value.isSome then more else id :: more : Attempt (Thread Q ρ) _).run
        (Surveyed calm now V (id :: rest) t.faults) t₁
      rw [← hfaults]
      refine yields_run_bind ((ih ht₁).mono ?_)
      rintro (f | more) t₂ hs
      · exact hs.error (List.subset_cons_self _ _)
      · obtain ⟨hstands, hmore, rfl⟩ := hs
        exact ⟨hstands, hmore, (V.unmarked_cons hnone).symm⟩

theorem RunningSet.yields_completedAmong {p : Probe (Thread Q ρ)} (hp : p.completed = Liveness.completed)
    (ht : t.machine.Stands calm now V) (batches : List (List String)) :
    Yields h (completedAmong p batches).run (Surveyed calm now V batches.flatten t.faults) t := by
  induction batches generalizing t with
  | nil => exact ⟨ht, rfl, rfl⟩
  | cons batch rest ih =>
    unfold completedAmong
    rw [hp]
    refine yields_run_bind ((Liveness.yields_completed ht batch).mono ?_)
    rintro (f | done) t₁ hs₁
    · exact hs₁.error (List.subset_append_left _ _)
    · obtain ⟨ht₁, hfaults, rfl⟩ := hs₁
      rw [← hfaults]
      refine yields_run_bind ((ih ht₁).mono ?_)
      rintro (f | more) t₂ hs₂
      · exact hs₂.error (List.subset_append_right _ _)
      · obtain ⟨ht₂, hmore, rfl⟩ := hs₂
        exact ⟨ht₂, hmore, (List.filter_append _ _).symm⟩

/-! ### Removals -/

/-- How it ends to remove texts from a set. If a call fails, only some of them are removed. -/
def Removed (calm : Prop) (now : Instant) (V : IdealStore) (key : String) (M : Finset SetMember)
    (d : Option Instant) (texts : List String) (faults : List StoreCall) :
    Except Fault Nat → Scene Q ρ → Prop
  | .ok n, t' =>
    t'.machine.Stands calm now (Function.update V key (ofSet? (M \ among M texts) d)) ∧
      t'.faults = faults ∧ n = (among M texts).card
  | .error _, t' =>
    (∃ gone ⊆ among M texts,
        t'.machine.Stands calm now (Function.update V key (ofSet? (M \ gone) d))) ∧
      (∃ c, ¬ StoreCall.Reads c ∧ t'.faults = faults ++ [c]) ∧ ¬ calm

theorem RunningSet.yields_removeAll (set : RunningSet (Thread Q ρ)) {M : Finset SetMember}
    {d : Option Instant} (ht : t.machine.Stands calm now V) (hv : V set.key = ofSet? M d)
    (batches : List (List String)) :
    Yields h (set.removeAll batches).run (Removed calm now V set.key M d batches.flatten t.faults) t := by
  -- What the first batch takes out is gone from the set that the rest finds.
  induction batches generalizing t V M with
  | nil =>
    have hnone : among M [] = ∅ := by simp [among]
    refine ⟨?_, rfl, ?_⟩
    · rw [List.flatten_nil, hnone, Finset.sdiff_empty, ← hv, Function.update_eq_self]
      exact ht
    · rw [List.flatten_nil, hnone, Finset.card_empty]
  | cons batch rest ih =>
    have hlive := ht.live set.key
    apply yields_run_bind
    refine yields_call (c := .setRemove set.key batch) ht ?_ ?_
    · intro f t₁ hrefused ht₁ hfaults
      refine ⟨⟨∅, Finset.empty_subset _, ?_⟩, ⟨.setRemove set.key batch, id, hfaults⟩, fun hc => ?_⟩
      · rw [Finset.sdiff_empty, ← hv, Function.update_eq_self]
        exact ht₁
      · have hr := hrefused hc
        simp only [StoreCall.key] at hr
        rw [hv, respond_setRemove] at hr
        cases hr
    · intro removed t₁ hremoved ht₁ hfaults
      simp only [StoreCall.key] at hremoved ht₁
      rw [hv] at hlive
      rw [hv, respond_setRemove] at hremoved ht₁
      rw [filter_ofSet? Finset.sdiff_subset hlive] at ht₁
      cases hremoved
      rw [← hfaults]
      refine yields_run_bind ((ih ht₁ (Function.update_self ..)).mono ?_)
      rintro (f | more) t₂ hs
      · obtain ⟨⟨gone, hgone, hstands⟩, ⟨c, hc, hmore⟩, hcalm⟩ := hs
        rw [Function.update_idem, sdiff_sdiff_left] at hstands
        refine ⟨⟨_, ?_, hstands⟩, ⟨c, hc, hmore⟩, hcalm⟩
        rw [List.flatten_cons, among_append]
        exact Finset.union_subset_union_right hgone
      · obtain ⟨hstands, hmore, rfl⟩ := hs
        rw [Function.update_idem, ← sdiff_among_append] at hstands
        exact ⟨hstands, hmore, card_among_append.symm⟩

/-! ### Who is dead -/

/-- A member is alive if it is younger than the lifetime and if, where there is a probe, its job has a
status key. -/
def IdealStore.Alive (V : IdealStore) (now : Instant) (ttl : Duration) (liveness : Option Liveness)
    (x : SetMember) : Prop :=
  now.age x.addedAt < ttl.nanos ∧
    (liveness.isSome = true → (V (Liveness.key x.member)).isSome = true)

instance (V : IdealStore) (now : Instant) (ttl : Duration) (liveness : Option Liveness) :
    DecidablePred (V.Alive now ttl liveness) := fun _ => inferInstanceAs (Decidable (_ ∧ _))

/-- Of the members of a set none has the text of another. -/
theorem MemoryStore.member_inj {store : MemoryStore} {key : String} {M : Finset SetMember}
    {d : Option Instant} (hl : store.Listed) (hv : store.view now key = ofSet? M d) :
    Set.InjOn SetMember.member (M : Set SetMember) := by
  intro x hx y hy hxy
  have hM : M ≠ ∅ := Finset.ne_empty_of_mem hx
  rw [ofSet?, if_neg hM, view, Option.map_eq_some_iff] at hv
  obtain ⟨⟨value | ms, d'⟩, hslot, hideal⟩ := hv
  · cases hideal
  · cases hideal
    have hdistinct := distinct_of_live? hl hslot
    have hpair := List.inj_on_of_nodup_map hdistinct (mem_membersOf.mp hx) (mem_membersOf.mp hy) hxy
    exact SetMember.eq_of hxy (congrArg Prod.snd hpair)

namespace RunningSet

variable {set : RunningSet (Thread Q ρ)} {liveness : Option Liveness} {M : Finset SetMember}
  {d : Option Instant} {x : SetMember}

theorem isStale_iff (hnow : now.Representable) (hx : x.addedAt.Representable) :
    set.isStale now x = true ↔ (set.entryTtl.nanos : Int) ≤ now.age x.addedAt := by
  rw [← Instant.le_back?_iff hnow hx, isStale]
  cases now.back? set.entryTtl <;> simp

def textsOf (members : List SetMember) (p : SetMember → Bool) : List String :=
  (members.filter p).map (·.member)

theorem mem_textsOf (hinj : Set.InjOn SetMember.member (M : Set SetMember)) (hx : x ∈ M)
    (p : SetMember → Bool) : x.member ∈ textsOf (M.sort SetMember.NotAfter) p ↔ p x = true := by
  simp only [textsOf, List.mem_map, List.mem_filter, Finset.mem_sort]
  constructor
  · rintro ⟨y, ⟨hy, hp⟩, hyx⟩
    rw [← hinj hy hx hyx]
    exact hp
  · intro hp
    exact ⟨x, ⟨hx, hp⟩, rfl⟩

/-- The texts of the members that are too old. -/
def staleOf (set : RunningSet (Thread Q ρ)) (now : Instant) (M : Finset SetMember) : List String :=
  textsOf (M.sort SetMember.NotAfter) fun member => set.isStale now member

def freshOf (set : RunningSet (Thread Q ρ)) (now : Instant) (M : Finset SetMember) : List String :=
  textsOf (M.sort SetMember.NotAfter) fun member => !set.isStale now member

/-- Those of the ids without a status key, if there is a probe. -/
def unmarkedOf (V : IdealStore) (liveness : Option Liveness) (ids : List String) : List String :=
  if liveness.isSome then V.unmarked ids else []

theorem among_dead (hinj : Set.InjOn SetMember.member (M : Set SetMember)) (hnow : now.Representable)
    (hadded : ∀ x ∈ M, x.addedAt.Representable) :
    among M (set.staleOf now M ++ unmarkedOf V liveness (set.freshOf now M)) =
      M.filter fun x => ¬ V.Alive now set.entryTtl liveness x := by
  ext x
  rw [mem_among, Finset.mem_filter]
  refine and_congr_right fun hx => ?_
  have hstale : set.isStale now x = true ↔ _ := isStale_iff hnow (hadded x hx)
  have hunmarked : x.member ∈ unmarkedOf V liveness (set.freshOf now M) ↔
      set.isStale now x = false ∧ liveness.isSome = true ∧ V (Liveness.key x.member) = none := by
    rw [← Bool.not_eq_true', ← mem_textsOf hinj hx fun member => !set.isStale now member]
    unfold unmarkedOf freshOf
    split
    · next hl => simp only [IdealStore.unmarked, List.mem_filter, Option.isNone_iff_eq_none, hl, true_and]
    · next hl => simp only [List.not_mem_nil, hl, Bool.false_eq_true, false_and, and_false]
  rw [List.mem_append, staleOf, mem_textsOf hinj hx, hunmarked, IdealStore.Alive]
  cases hs : set.isStale now x with
  | true =>
    have hold := hstale.mp hs
    refine ⟨fun _ halive => ?_, fun _ => Or.inl rfl⟩
    exact absurd hold (not_le.mpr halive.1)
  | false =>
    have hyoung : now.age x.addedAt < set.entryTtl.nanos := by
      rw [hs] at hstale
      exact not_le.mp fun hold => Bool.false_ne_true (hstale.mpr hold)
    simp only [Bool.false_eq_true, false_or, true_and, hyoung, Classical.not_imp,
      Bool.not_eq_true, Option.isSome_eq_false_iff, Option.isNone_iff_eq_none]

/-- How a clean-up ends. If a call fails, only some of the dead are removed, and none unless it was a
removal that failed. -/
def Swept (set : RunningSet (Thread Q ρ)) (liveness : Option Liveness) (calm : Prop) (now : Instant)
    (V : IdealStore) (M : Finset SetMember) (d : Option Instant) (faults : List StoreCall) :
    Except Fault Nat → Scene Q ρ → Prop
  | .ok n, t' =>
    t'.machine.Stands calm now (Function.update V set.key
        (ofSet? (M.filter (V.Alive now set.entryTtl liveness)) d)) ∧
      t'.faults = faults ∧ n + (M.filter (V.Alive now set.entryTtl liveness)).card = M.card
  | .error _, t' =>
    (∃ left, M.filter (V.Alive now set.entryTtl liveness) ⊆ left ∧ left ⊆ M ∧
        t'.machine.Stands calm now (Function.update V set.key (ofSet? left d))) ∧
      ∃ c, t'.faults = faults ++ [c] ∧ (StoreCall.Reads c → t'.machine.Stands calm now V) ∧
        (calm → ∃ x ∈ M, ∃ ms d, V (Liveness.key x.member) = some ⟨.set ms, d⟩)

theorem swept_error (hv : V set.key = ofSet? M d) {f : Fault} {faults : List StoreCall}
    {t' : Scene Q ρ} {c : StoreCall} (ht : t'.machine.Stands calm now V) (hf : t'.faults = faults ++ [c])
    (hc : calm → ∃ x ∈ M, ∃ ms d, V (Liveness.key x.member) = some ⟨.set ms, d⟩) :
    set.Swept liveness calm now V M d faults (.error f) t' := by
  refine ⟨⟨M, Finset.filter_subset _ _, Finset.Subset.refl M, ?_⟩, c, hf, fun _ => ht, hc⟩
  rw [← hv, Function.update_eq_self]
  exact ht

theorem yields_removeDead (hinj : Set.InjOn SetMember.member (M : Set SetMember)) (hnow : now.Representable)
    (hadded : ∀ x ∈ M, x.addedAt.Representable) (ht : t.machine.Stands calm now V)
    (hv : V set.key = ofSet? M d) {ended : List String}
    (he : ended = unmarkedOf V liveness (set.freshOf now M)) :
    Yields h (do
      let removed ← set.removeAll (batches set.batchSize (set.staleOf now M ++ ended))
      if 0 < removed then note (m := Thread Q ρ) (.deadJobsRemoved set.kind removed)
      return removed : Attempt (Thread Q ρ) Nat).run (set.Swept liveness calm now V M d t.faults) t := by
  subst he
  have hdead : among M (set.staleOf now M ++ unmarkedOf V liveness (set.freshOf now M)) = _ :=
    among_dead hinj hnow hadded
  refine yields_run_bind ((yields_removeAll set ht hv _).mono ?_)
  rw [flatten_batches]
  rintro (f | removed) t₁ hs
  · obtain ⟨⟨gone, hgone, hstands⟩, ⟨c, hc, hfaults⟩, hcalm⟩ := hs
    rw [hdead] at hgone
    refine ⟨⟨M \ gone, ?_, Finset.sdiff_subset, hstands⟩, c, hfaults, fun hr => absurd hr hc,
      fun hr => absurd hr hcalm⟩
    intro x hx
    refine Finset.mem_sdiff.mpr ⟨Finset.filter_subset _ _ hx, fun hxg => ?_⟩
    exact (Finset.mem_filter.mp (hgone hxg)).2 (Finset.mem_filter.mp hx).2
  · obtain ⟨hstands, hfaults, rfl⟩ := hs
    rw [hdead, ← Finset.filter_not, Finset.filter_congr fun _ _ => not_not] at hstands
    have hcount := Finset.card_filter_add_card_filter_not (s := M)
      (V.Alive now set.entryTtl liveness)
    rw [← hdead, Nat.add_comm] at hcount
    dsimp only
    split
    · exact ⟨hstands.addRecord _, hfaults, hcount⟩
    · exact ⟨hstands, hfaults, hcount⟩

theorem yields_cleanUp (hp : set.probe = liveness.map Liveness.probe)
    (hinj : Set.InjOn SetMember.member (M : Set SetMember)) (hnow : now.Representable)
    (hadded : ∀ x ∈ M, x.addedAt.Representable) (ht : t.machine.Stands calm now V)
    (hv : V set.key = ofSet? M d) :
    Yields h set.cleanUp.run (set.Swept liveness calm now V M d t.faults) t := by
  unfold cleanUp
  apply yields_run_bind
  refine yields_read (c := .setMembers set.key) trivial ht ?_ ?_
  · intro f t₁ hrefused ht₁ hfaults
    refine swept_error hv ht₁ hfaults fun hc => ?_
    have hr := hrefused hc
    simp only [StoreCall.key] at hr
    rw [hv, respond_setMembers] at hr
    cases hr
  · intro members t₁ hmembers ht₁ hfaults
    simp only [StoreCall.key] at hmembers
    rw [hv, respond_setMembers] at hmembers
    cases hmembers
    dsimp only
    split
    · next hempty =>
      have hM : M = ∅ := by
        rw [← Finset.card_eq_zero, ← Finset.length_sort SetMember.NotAfter]
        exact List.length_eq_zero_iff.mpr (List.isEmpty_iff.mp hempty)
      subst hM
      refine ⟨?_, hfaults, rfl⟩
      rw [Finset.filter_empty, ← hv, Function.update_eq_self]
      exact ht₁
    · refine yields_run_lift (yields_step ?_)
      simp only [ht₁.clock, hp, ← hfaults]
      cases liveness with
      | none => exact yields_removeDead hinj hnow hadded ht₁ hv rfl
      | some l =>
        have hfresh : set.freshOf now M ⊆ (M.sort SetMember.NotAfter).map (·.member) :=
          (List.filter_sublist.map _).subset
        have hunmarked := yields_completedAmong (h := h) (p := l.probe) rfl ht₁
          (batches set.batchSize (set.freshOf now M))
        rw [flatten_batches] at hunmarked
        refine yields_run_bind (hunmarked.mono ?_)
        rintro (f | ended) t₂ hs
        · obtain ⟨ht₂, ⟨c, hc, hmore⟩, hset⟩ := hs
          refine swept_error hv ht₂ hmore fun hcalm => ?_
          obtain ⟨id, hid, hv'⟩ := hset hcalm
          obtain ⟨x, hx, rfl⟩ := List.mem_map.mp (hfresh hid)
          exact ⟨x, (Finset.mem_sort _).mp hx, hv'⟩
        · obtain ⟨ht₂, hmore, he⟩ := hs
          rw [← hmore]
          exact yields_removeDead hinj hnow hadded ht₂ hv he

/-! ### A whole clean-up -/

/-- The members that a clean-up has to leave in the set. -/
def survivors (set : RunningSet (Thread Q ρ)) (liveness : Option Liveness) (s : Machine)
    (M : Finset SetMember) : Finset SetMember :=
  M.filter ((s.store.view s.clock).Alive s.clock set.entryTtl liveness)

/-- What a clean-up answers and leaves, from a machine at which the set has members `M` and ends at `d`. -/
structure CleansUp (set : RunningSet (Thread Q ρ)) (liveness : Option Liveness) (M : Finset SetMember)
    (d : Option Instant) (s : Machine) (r : Except Fault Nat) (t : Scene Q ρ) : Prop where
  clock : t.machine.clock = s.clock
  /-- Nothing else has changed, be it a time, the end of the set or another key. -/
  left : t.faults = [] → t.machine.store.view s.clock =
    Function.update (s.store.view s.clock) set.key (ofSet? (set.survivors liveness s M) d)
  /-- The answer is the difference of the counts before and after. -/
  count : t.faults = [] → ∃ removed, r = .ok removed ∧
    (t.machine.store.call s.clock (.setCount set.key)).1 = .ok (set.survivors liveness s M).card ∧
    (s.store.call s.clock (.setCount set.key)).1 = .ok (removed + (set.survivors liveness s M).card)
  /-- If a call fails, so does the clean-up; by then it has removed none but dead members. -/
  failed : t.faults ≠ [] → (∃ f, r = .error f) ∧
    ∃ left, set.survivors liveness s M ⊆ left ∧ left ⊆ M ∧ t.machine.store.view s.clock =
      Function.update (s.store.view s.clock) set.key (ofSet? left d)
  /-- Nothing is removed if it was the member list or the probe that failed. -/
  untouched : (∃ c ∈ t.faults, c.Reads) → t.machine.store.view s.clock = s.store.view s.clock
  /-- No call fails unless one is planned to, or a status key holds a set. -/
  succeeds : s.Quiet → (∀ x ∈ M, ∀ ms e,
    s.store.view s.clock (Liveness.key x.member) ≠ some ⟨.set ms, e⟩) → t.faults = []

theorem call_setCount {store : MemoryStore} {key : String} (hl : store.Listed)
    (hv : store.view now key = ofSet? M d) : (store.call now (.setCount key)).1 = .ok M.card := by
  rw [MemoryStore.answer_eq hl]
  simp only [StoreCall.key]
  rw [hv, ofSet?]
  split
  · next hM =>
    rw [hM]
    rfl
  · rfl

theorem Swept.cleansUp {s : Machine} (hl : s.store.Listed) (hv : s.store.view s.clock set.key = ofSet? M d)
    {r : Except Fault Nat} (hr : set.Swept liveness s.Quiet s.clock (s.store.view s.clock) M d [] r t) :
    set.CleansUp liveness M d s r t := by
  rcases r with f | n
  · obtain ⟨⟨left, hsurvive, hsub, hstands⟩, c, hfaults, huntouched, hcalm⟩ := hr
    have hne : t.faults ≠ [] := by simp [hfaults]
    refine ⟨hstands.clock, fun h => absurd h hne, fun h => absurd h hne,
      fun _ => ⟨⟨f, rfl⟩, left, hsurvive, hsub, hstands.view⟩, ?_, ?_⟩
    · rintro ⟨c', hc', hreads⟩
      rw [hfaults] at hc'
      rw [List.mem_singleton.mp hc'] at hreads
      exact (huntouched hreads).view
    · intro hq hset
      obtain ⟨x, hx, ms, e, hv'⟩ := hcalm hq
      exact absurd hv' (hset x hx ms e)
  · obtain ⟨hstands, hfaults, hcount⟩ := hr
    refine ⟨hstands.clock, fun _ => hstands.view, fun _ => ?_, fun h => absurd hfaults h, ?_,
      fun _ _ => hfaults⟩
    · have hleft : t.machine.store.view s.clock set.key = ofSet? (set.survivors liveness s M) d := by
        rw [hstands.view, Function.update_self]
        rfl
      have hbefore := call_setCount hl hv
      rw [← hcount] at hbefore
      exact ⟨n, rfl, call_setCount hstands.listed hleft, hbefore⟩
    · rintro ⟨c, hc, -⟩
      rw [hfaults] at hc
      cases hc

/-- A clean-up removes the dead members and nothing else, whatever its batch size, and it removes none
but dead ones if its calls fail, in any pattern. Batches of zero ids are batches of one, and outside leap
seconds an age is an exact difference. -/
theorem cleanUp_exact (set : RunningSet (Thread Q ρ)) (hp : set.probe = liveness.map Liveness.probe)
    (h : Host Q ρ) {s : Machine} (hs : s.Honest) (hl : s.store.Listed)
    (hv : s.store.view s.clock set.key = ofSet? M d) (hnow : s.clock.Representable)
    (hadded : ∀ x ∈ M, x.addedAt.Representable) :
    let run (size : Nat) := ({ set with batchSize := size }.cleanUp.run).play h (.ofMachine s)
    (∀ size, set.CleansUp liveness M d s (run size).1 (run size).2) ∧
      (∀ size size', (run size).2.faults = [] → (run size').2.faults = [] →
        (run size).1 = (run size').1 ∧
          (run size).2.machine.store.view s.clock = (run size').2.machine.store.view s.clock) ∧
      run 0 = run 1 ∧
      ∀ x ∈ M, s.clock.Plain → x.addedAt.Plain →
        s.clock.age x.addedAt = s.clock.toNanos - x.addedAt.toNanos := by
  intro run
  have hall (size : Nat) : set.CleansUp liveness M d s (run size).1 (run size).2 := by
    have hinj := MemoryStore.member_inj hl hv
    have hswept : Yields h { set with batchSize := size }.cleanUp.run
        (Swept { set with batchSize := size } liveness s.Quiet s.clock (s.store.view s.clock) M d [])
        (.ofMachine s) := yields_cleanUp hp hinj hnow hadded (hs.stands hl) hv
    refine Swept.cleansUp hl hv ?_
    exact hswept
  refine ⟨hall, fun size size' hsize hsize' => ⟨?_, ?_⟩, ?_, fun x _ => Instant.age_of_plain⟩
  · obtain ⟨n, hn, -, htotal⟩ := (hall size).count hsize
    obtain ⟨n', hn', -, htotal'⟩ := (hall size').count hsize'
    have hsum := Except.ok.inj (htotal.symm.trans htotal')
    rw [hn, hn', Nat.add_right_cancel hsum]
  · rw [(hall size).left hsize, (hall size').left hsize']
  · simp only [run, cleanUp_zero]

/-- One member is as old as the lifetime, one has a status key, and one has none. -/
theorem cleanUp_exact_of_three :
    let set : RunningSet (Thread Empty Unit) :=
      { kind := "export", entryTtl := ⟨10⟩, batchSize := 0, probe := some (Liveness.mk ⟨50⟩).probe }
    let members : List (String × Instant) := [("a", ⟨0, 0⟩), ("b", ⟨0, 5⟩), ("c", ⟨0, 5⟩)]
    let s : Machine := { Machine.ofClock ⟨0, 10⟩ with
      store := Keyed.ofList [(set.key, ⟨.set members, none⟩),
        (Liveness.key "b", ⟨.text Liveness.mark, some ⟨0, 55⟩⟩)] }
    let M := MemoryStore.membersOf members
    let run := set.cleanUp.run.play (fun _ q => q.elim) (.ofMachine s)
    s.Honest ∧ s.store.Listed ∧ s.store.view s.clock set.key = ofSet? M none ∧ s.clock.Representable ∧
      (∀ x ∈ M, x.addedAt.Representable) ∧ set.CleansUp (some ⟨⟨50⟩⟩) M none s run.1 run.2 ∧
        run.2.faults = [] ∧ run.1 = .ok 2 := by
  intro set members s M run
  have hs : s.Quiet := fun _ => rfl
  have hl : s.store.Listed := by
    refine MemoryStore.listed_insert (MemoryStore.listed_insert MemoryStore.listed_empty ?_) ?_
    · rintro ms ⟨⟩
      unfold MemoryStore.Distinct
      decide
    · rintro ms ⟨⟩
  have hv : s.store.view s.clock set.key = ofSet? M none := by decide +kernel
  have hadded : ∀ x ∈ M, x.addedAt.Representable := by decide
  have hp : set.probe = (some ⟨⟨50⟩⟩ : Option Liveness).map Liveness.probe := rfl
  have hrun := (cleanUp_exact set hp (fun _ q => q.elim) hs.honest hl hv (by decide) hadded).1 0
  have htext : ∀ x ∈ M, s.store.view s.clock (Liveness.key x.member) = none ∨
      s.store.view s.clock (Liveness.key x.member) = some ⟨.text Liveness.mark, some ⟨0, 55⟩⟩ := by
    decide +kernel
  have hfaults : run.2.faults = [] := by
    refine hrun.succeeds hs fun x hx ms e he => ?_
    rcases htext x hx with hn | ht
    · cases hn.symm.trans he
    · cases ht.symm.trans he
  refine ⟨hs.honest, hl, hv, by decide, hadded, hrun, hfaults, ?_⟩
  obtain ⟨n, hn, -, htotal⟩ := hrun.count hfaults
  have hsurvivors : (set.survivors (some ⟨⟨50⟩⟩) s M).card = 1 := by decide +kernel
  have hcard : M.card = 3 := by decide
  have hsum := Except.ok.inj (htotal.symm.trans (call_setCount hl hv))
  rw [hsurvivors, hcard] at hsum
  rw [Nat.add_right_cancel (hsum : n + 1 = 2 + 1)] at hn
  exact hn

end RunningSet

end Turnstile
