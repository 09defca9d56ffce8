import Turnstile.Proofs.Simulation.Shares

/-!
# Programs that keep to some keys

A program that calls the store under some keys only is answered by what is stored under these, and leaves
what is stored under others alone. So two programs that have no key in common may be run in either order:
each answers the same, and the same is stored in the end.
-/

namespace Turnstile.Machine

variable {α β ε : Type} {K L : String → Prop} {s s' s'' t t' t'' : Machine}

/-- The same is stored under some keys of two machines, at the same time. -/
structure Agree (K : String → Prop) (s t : Machine) : Prop where
  clock : s.clock = t.clock
  stored : ∀ key, K key → s.store.get? key = t.store.get? key

/-- A move that leaves alone what is stored under other keys. -/
structure Beside (K : String → Prop) (s s' : Machine) : Prop where
  quiet : s.Quiet → s'.Quiet
  clock : s'.clock = s.clock
  stored : s.Quiet → ∀ key, ¬ K key → s'.store.get? key = s.store.get? key

/-- A program that depends on what is stored under some keys and touches nothing else in the store. -/
structure KeepsTo (K : String → Prop) (x : StateM Machine α) : Prop where
  beside : Always (Beside K) x
  answer : ∀ s t : Machine, s.Quiet → t.Quiet → Agree K s t → (s.exec x).1 = (t.exec x).1
  agree : ∀ s t : Machine, s.Quiet → t.Quiet → Agree K s t → Agree K (s.exec x).2 (t.exec x).2

/-! ### Agreement -/

theorem Agree.refl (s : Machine) : Agree K s s := ⟨rfl, fun _ _ => rfl⟩

theorem Agree.symm (h : Agree K s t) : Agree K t s :=
  ⟨h.clock.symm, fun key hk => (h.stored key hk).symm⟩

theorem Agree.trans (h : Agree K s t) (h' : Agree K t t') : Agree K s t' :=
  ⟨h.clock.trans h'.clock, fun key hk => (h.stored key hk).trans (h'.stored key hk)⟩

theorem Agree.mono (hk : ∀ key, L key → K key) (h : Agree K s t) : Agree L s t :=
  ⟨h.clock, fun key hl => h.stored key (hk key hl)⟩

theorem Agree.of_eq (hc : s.clock = t.clock) (hs : s.store = t.store) : Agree K s t :=
  ⟨hc, fun key _ => by rw [hs]⟩

instance : IsPreorder Machine (Beside K) where
  refl _ := ⟨id, rfl, fun _ _ _ => rfl⟩
  trans _ _ _ h h' := ⟨fun hq => h'.quiet (h.quiet hq), h'.clock.trans h.clock, fun hq key hk =>
    (h'.stored (h.quiet hq) key hk).trans (h.stored hq key hk)⟩

theorem Beside.of_eq (hp : s'.plans = s.plans) (hc : s'.clock = s.clock) (hs : s'.store = s.store) :
    Beside K s s' :=
  ⟨fun hq method => hp ▸ hq method, hc, fun _ _ _ => by rw [hs]⟩

/-- Under keys that a move keeps away from, the machine agrees with what it was. -/
theorem Beside.agree (h : Beside K s s') (hq : s.Quiet) (hd : ∀ key, K key → ¬ L key) : Agree L s s' :=
  ⟨h.clock.symm, fun key hl => (h.stored hq key fun hk => hd key hk hl).symm⟩

/-- What is live under a key that a move keeps away from stays so. -/
theorem Beside.live? {key : String} (h : Beside K s s') (hq : s.Quiet) (hk : ¬ K key) :
    s'.store.live? s'.clock key = s.store.live? s.clock key := by
  rw [h.clock]
  exact MemoryStore.live?_congr s.clock (h.stored hq key hk)

theorem beside_record (r : JournalRecord) :
    Always (Beside K) (MonadJournal.record r : StateM Machine Unit) := fun s => by
  have h : Beside K s (s.addRecord r) := .of_eq rfl rfl rfl
  exact h

theorem beside_modifyQueue (f : Queue → α × Queue) :
    Always (Beside K) (Turnstile.modifyQueue f : StateM Machine α) := fun s => by
  have h : Beside K s { s with queue := (f s.queue).2 } := .of_eq rfl rfl rfl
  exact h

theorem beside_callStore {c : StoreCall} (hk : K c.key) :
    Always (Beside K) (Turnstile.callStore c : Attempt (StateM Machine) c.Answer).run := by
  intro s
  refine ⟨(called_callStore s c).quiet, (called_callStore s c).clock, fun hq key hne => ?_⟩
  rw [exec_run_callStore, (callStore_eq hq c).2.1]
  exact MemoryStore.call_get?_ne c fun he => hne (he ▸ hk)

/-! ### Keeping to keys -/

namespace KeepsTo

theorem of_const (a : α) {f : Machine → Machine} (hp : ∀ s, (f s).plans = s.plans)
    (hc : ∀ s, (f s).clock = s.clock) (hs : ∀ s, (f s).store = s.store) :
    KeepsTo K (step fun s => (a, f s) : StateM Machine α) where
  beside s := Beside.of_eq (hp s) (hc s) (hs s)
  answer _ _ _ _ _ := rfl
  agree s t _ _ h := ((Agree.of_eq (hc s) (hs s)).trans h).trans
    (Agree.of_eq (hc t) (hs t)).symm

theorem pure (a : α) : KeepsTo K (Pure.pure a : StateM Machine α) :=
  ⟨always_pure a, fun _ _ _ _ _ => rfl, fun _ _ _ _ h => h⟩

theorem now : KeepsTo K (Turnstile.now : StateM Machine Instant) :=
  ⟨fun s => refl_of (Beside K) s, fun _ _ _ _ h => h.clock, fun _ _ _ _ h => h⟩

theorem note (n : Notice) : KeepsTo K (Turnstile.note n : StateM Machine Unit) :=
  of_const () (fun _ => rfl) (fun _ => rfl) fun _ => rfl

theorem tally (t : Tally) : KeepsTo K (Turnstile.tally t : StateM Machine Unit) :=
  of_const () (fun _ => rfl) (fun _ => rfl) fun _ => rfl

theorem modifyQueue (a : α) (f : Queue → Queue) :
    KeepsTo K (Turnstile.modifyQueue fun q => (a, f q) : StateM Machine α) :=
  of_const a (f := fun s => { s with queue := f s.queue }) (fun _ => rfl) (fun _ => rfl) fun _ => rfl

theorem bind {x : StateM Machine α} {f : α → StateM Machine β} (hx : KeepsTo K x)
    (hf : ∀ a, KeepsTo K (f a)) : KeepsTo K (x >>= f) where
  beside := always_bind hx.beside fun a => (hf a).beside
  answer s t hs ht h := by
    rw [exec_bind, exec_bind, hx.answer s t hs ht h]
    exact (hf _).answer _ _ ((hx.beside s).quiet hs) ((hx.beside t).quiet ht) (hx.agree s t hs ht h)
  agree s t hs ht h := by
    rw [exec_bind, exec_bind, hx.answer s t hs ht h]
    exact (hf _).agree _ _ ((hx.beside s).quiet hs) ((hx.beside t).quiet ht) (hx.agree s t hs ht h)

theorem run_bind {x : ExceptT ε (StateM Machine) α} {f : α → ExceptT ε (StateM Machine) β}
    (hx : KeepsTo K x.run) (hf : ∀ a, KeepsTo K (f a).run) : KeepsTo K (x >>= f).run := by
  rw [ExceptT.run_bind]
  refine hx.bind ?_
  rintro (e | a)
  · exact pure _
  · exact hf a

theorem run_lift {x : StateM Machine α} (hx : KeepsTo K x) :
    KeepsTo K (ExceptT.lift x : ExceptT ε (StateM Machine) α).run :=
  hx.bind fun _ => pure _

theorem callStore {c : StoreCall} (hk : K c.key) :
    KeepsTo K (Turnstile.callStore c : Attempt (StateM Machine) c.Answer).run where
  beside := beside_callStore hk
  answer s t hs ht h := by
    rw [exec_run_callStore, exec_run_callStore, (callStore_eq hs c).1, (callStore_eq ht c).1, h.clock]
    exact (MemoryStore.call_congr t.clock (h.stored c.key hk)).1
  agree s t hs ht h := by
    refine ⟨(called_callStore s c).clock.trans (h.clock.trans (called_callStore t c).clock.symm),
      fun key hkey => ?_⟩
    rw [exec_run_callStore, exec_run_callStore, (callStore_eq hs c).2.1, (callStore_eq ht c).2.1,
      h.clock]
    by_cases he : c.key = key
    · subst he
      exact (MemoryStore.call_congr t.clock (h.stored c.key hk)).2
    · exact (MemoryStore.call_get?_ne c he).trans
        ((h.stored key hkey).trans (MemoryStore.call_get?_ne c he).symm)

theorem orNote {x : Attempt (StateM Machine) α} (hx : KeepsTo K x.run) (a : α)
    (handle : Fault → Notice) : KeepsTo K (x.orNote a handle) := by
  refine hx.bind ?_
  rintro (f | a)
  · exact (note _).bind fun _ => pure _
  · exact pure _

/-! ### Where all the keys agree -/

variable {x : StateM Machine α} {y : StateM Machine β}

/-- Machines that agree go on to do so. -/
theorem agree_all (hx : KeepsTo K x) (hs : s.Quiet) (ht : t.Quiet) (h : Agree (fun _ => True) s t) :
    (s.exec x).1 = (t.exec x).1 ∧ Agree (fun _ => True) (s.exec x).2 (t.exec x).2 := by
  have hk : Agree K s t := h.mono fun _ _ => trivial
  refine ⟨hx.answer s t hs ht hk, (hx.agree s t hs ht hk).clock, fun key _ => ?_⟩
  by_cases hkey : K key
  · exact (hx.agree s t hs ht hk).stored key hkey
  · rw [(hx.beside s).stored hs key hkey, (hx.beside t).stored ht key hkey]
    exact h.stored key trivial

/-- Programs without a common key may be run in either order. -/
theorem comm (hx : KeepsTo K x) (hy : KeepsTo L y) (hd : ∀ key, K key → ¬ L key) (hq : s.Quiet) :
    ((s.exec x).2.exec y).1 = (s.exec y).1 ∧ ((s.exec y).2.exec x).1 = (s.exec x).1 ∧
      Agree (fun _ => True) ((s.exec x).2.exec y).2 ((s.exec y).2.exec x).2 := by
  have hqx := (hx.beside s).quiet hq
  have hqy := (hy.beside s).quiet hq
  have hl : Agree L s (s.exec x).2 := (hx.beside s).agree hq hd
  have hk : Agree K s (s.exec y).2 := (hy.beside s).agree hq fun key h h' => hd key h' h
  have hyx := hy.agree s _ hq hqx hl
  have hxy := hx.agree s _ hq hqy hk
  refine ⟨(hy.answer s _ hq hqx hl).symm, (hx.answer s _ hq hqy hk).symm, ?_, fun key _ => ?_⟩
  · rw [(hy.beside _).clock, (hx.beside s).clock, (hx.beside _).clock, (hy.beside s).clock]
  · by_cases hkey : K key
    · rw [(hy.beside _).stored hqx key (hd key hkey)]
      exact hxy.stored key hkey
    · rw [(hx.beside _).stored hqy key hkey]
      by_cases hlkey : L key
      · exact (hyx.stored key hlkey).symm
      · rw [(hy.beside _).stored hqx key hlkey, (hx.beside s).stored hq key hkey,
          (hy.beside s).stored hq key hlkey]

end KeepsTo

end Turnstile.Machine
