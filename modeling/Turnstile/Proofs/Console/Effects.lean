import Turnstile.Proofs.Console.Commands
import Turnstile.Proofs.Store.History

/-!
# Commands touch only what they name

`Command.Does` says what a command answers, prints and leaves in the store, command by command. From it
follows that no call under a key that the command does not name can tell that the command was run.
-/

namespace Turnstile.Console

open Thread IdealEntry

/-- The one key that a command may change. -/
def Command.target? : Command → Option String
  | .pruneRunning kind => some (RunningSet.keyOf kind)
  | .releaseLease key _ _ => some key
  | .clearClaim kind args => (args.mapM argOf).toOption.map (IdempotencyKey.of kind)
  | _ => none

variable (settings : Settings) (format : Format) (now : Instant)

/-- The first members of a set are shown, the oldest first, and the output tells them. -/
structure Lists (kind : String) (limit : Nat) (m : MemoryStore) (members : List SetMember)
    (p : Printed) : Prop where
  ordered : members.Pairwise SetMember.Before
  complete : ∀ x, x ∈ members ↔ x ∈ IdealEntry.members (m.view now (RunningSet.keyOf kind))
  counted : (m.call now (.setCount (RunningSet.keyOf kind))).1 = .ok members.length
  few : (members.take limit).length = min limit members.length
  shown : p = { out := listedText format ((members.take limit).map (Row.of now)), err := "" }
  inOrder :
    Text.InOrder (((members.take limit).map (Row.of now)).flatMap (Row.texts format)) p.out
  told : ∀ others : List SetMember, p.out = listedText format (others.map (Row.of now)) →
    (others.map (Row.of now)).map (Row.seen format) =
      ((members.take limit).map (Row.of now)).map (Row.seen format)

/-- Two numbers are shown after pruning, in a text that no other numbers have. -/
structure Counts (kind : String) (removed left : Nat) (p : Printed) : Prop where
  shown : p = { out := prunedText format kind removed left, err := "" }
  told : ∀ removed' left', p.out = prunedText format kind removed' left' →
    removed' = removed ∧ left' = left

/-- Dead members are taken out of a set, and their number is shown with the number that is left. -/
structure Prunes (kind : String) (m : MemoryStore) (r : Except Trouble Unit) (p : Printed)
    (m' : MemoryStore) : Prop where
  /-- Nothing but dead members is gone. -/
  gone : m'.view now = m.view now ∨ ∃ M d left, m.view now (RunningSet.keyOf kind) = ofSet? M d ∧
    aliveOf settings now (m.view now) M ⊆ left ∧ left ⊆ M ∧
    m'.view now = Function.update (m.view now) (RunningSet.keyOf kind) (ofSet? left d)
  /-- Without a failure all the dead are gone, and the numbers shown are those of the store. -/
  shown : r = .ok () → ∃ removed left,
    Counts format kind removed left p ∧
    (m.call now (.setCount (RunningSet.keyOf kind))).1 = .ok (removed + left) ∧
    (m'.call now (.setCount (RunningSet.keyOf kind))).1 = .ok left ∧
    ∀ M d, m.view now (RunningSet.keyOf kind) = ofSet? M d → m'.view now =
      Function.update (m.view now) (RunningSet.keyOf kind)
        (ofSet? (aliveOf settings now (m.view now) M) d)
  /-- It fails only over a text under the key of the set or a set under a key of liveness. -/
  failed : r ≠ .ok () → p = { out := "", err := "" } ∧
    ((∃ value d, m.view now (RunningSet.keyOf kind) = some ⟨.text value, d⟩) ∨
      ∃ M d, m.view now (RunningSet.keyOf kind) = ofSet? M d ∧
        ∃ x ∈ M, ∃ ms e, m.view now (Liveness.key x.member) = some ⟨.set ms, e⟩)

/-- A truth value is shown, in a text that the other one does not have. -/
structure Reports (text : Bool → String) (b : Bool) (err : String) (p : Printed) : Prop where
  shown : p = { out := text b, err := err }
  told : ∀ b', p.out = text b' → b' = b

/-- What a command answers, prints and leaves in a store. -/
def Command.Does (m : MemoryStore) :
    Command → Except Trouble Unit → Printed → MemoryStore → Prop
  | .listRunning kind limit, r, p, m' =>
    m'.view now = m.view now ∧
      match (m.call now (.setMembers (RunningSet.keyOf kind))).1 with
      | .ok members => r = .ok () ∧ Lists format now kind limit m members p
      | .error f => r = .error (.fault f) ∧ p = { out := "", err := "" }
  | .pruneRunning kind, r, p, m' => Prunes settings format now kind m r p m'
  | .releaseLease key (some token) _, r, p, m' =>
    r = .ok () ∧ Reports (releasedText format key) (holdsToken (m.view now) key token) "" p ∧
      m'.view now = if holdsToken (m.view now) key token then
        Function.update (m.view now) key none else m.view now
  | .releaseLease key none true, r, p, m' =>
    r = .ok () ∧
      Reports (releasedText format key) (m.view now key).isSome
        ("[WARN] " ++ s!"Force-releasing {key}" ++ "\n") p ∧
      m'.view now = Function.update (m.view now) key none
  | .releaseLease _ none false, r, p, m' =>
    r = .error (.message "Pass --token <TOKEN> or --force" none) ∧ p = { out := "", err := "" } ∧
      m'.view now = m.view now
  | .clearClaim kind args, r, p, m' =>
    match args.mapM argOf with
    | .ok vs =>
      r = .ok () ∧
        Reports (clearedText format (IdempotencyKey.of kind vs))
          (m.view now (IdempotencyKey.of kind vs)).isSome "" p ∧
        m'.view now = Function.update (m.view now) (IdempotencyKey.of kind vs) none
    | .error e => r = .error e ∧ p = { out := "", err := "" } ∧ m'.view now = m.view now
  | _, _, _, m' => m'.view now = m.view now

variable {settings format now} {m m' : MemoryStore} {c : Command} {r : Except Trouble Unit}
  {p : Printed}

/-- What can be seen under other keys stays as it was. -/
theorem Command.Does.apart (h : c.Does settings format now m r p m') {key : String}
    (hk : c.target? ≠ some key) : m'.view now key = m.view now key := by
  cases c with
  | pruneRunning kind =>
    have hne : key ≠ RunningSet.keyOf kind := fun he => hk (congrArg some he.symm)
    rcases h.gone with hsame | ⟨M, d, left, _, _, _, hleft⟩
    · rw [hsame]
    · rw [hleft, Function.update_of_ne hne]
  | releaseLease name token force =>
    have hne : key ≠ name := fun he => hk (congrArg some he.symm)
    cases token with
    | some token =>
      obtain ⟨_, _, hleft⟩ := h
      rw [hleft]
      split
      · rw [Function.update_of_ne hne]
      · rfl
    | none =>
      cases force with
      | true => rw [h.2.2, Function.update_of_ne hne]
      | false => rw [h.2.2]
  | clearClaim kind args =>
    simp only [Command.Does] at h
    simp only [Command.target?] at hk
    cases hargs : args.mapM argOf with
    | error e =>
      rw [hargs] at h
      rw [h.2.2]
    | ok vs =>
      rw [hargs] at h hk
      have hne : key ≠ IdempotencyKey.of kind vs := fun he => hk (congrArg some he.symm)
      rw [h.2.2, Function.update_of_ne hne]
  | listRunning kind limit => rw [h.1]
  | countRunning kind => rw [show m'.view now = m.view now from h]
  | jobStatus id => rw [show m'.view now = m.view now from h]
  | showLease key => rw [show m'.view now = m.view now from h]
  | showClaim kind args => rw [show m'.view now = m.view now from h]
  | showSettings => rw [show m'.view now = m.view now from h]
  | showSettingsPath => rw [show m'.view now = m.view now from h]
  | checkSettings => rw [show m'.view now = m.view now from h]

/-! ### What each command does -/

variable {Q ρ : Type} {h : Host Q ρ} {t : Scene Q ρ}

theorem addOut_empty (text : String) :
    Printed.addOut { out := "", err := "" } text = { out := text, err := "" } := by
  simp only [Printed.addOut, String.empty_append]

theorem reports_of_injective {text : Bool → String} (ht : Function.Injective text) {b : Bool}
    {err : String} (hp : p = { out := text b, err := err }) : Reports text b err p := by
  refine ⟨hp, ?_⟩
  intro b' hb'
  rw [hp] at hb'
  exact (ht hb').symm

theorem counts_of_pruned {kind : String} {removed left : Nat}
    (hp : p = { out := prunedText format kind removed left, err := "" }) :
    Counts format kind removed left p := by
  refine ⟨hp, ?_⟩
  intro removed' left' hout
  rw [hp] at hout
  exact prunedText_inj hout.symm

theorem setCount_of_empty (hl : m.Listed) {key : String} {d : Option Instant}
    (hv : m.view now key = some ⟨.set ∅, d⟩) : (m.call now (.setCount key)).1 = .ok 0 := by
  rw [MemoryStore.answer_eq hl]
  simp only [StoreCall.key]
  rw [hv]
  rfl

theorem setCount_of_setMembers (hl : m.Listed) {key : String} {members : List SetMember}
    (hm : (m.call now (.setMembers key)).1 = .ok members) :
    (m.call now (.setCount key)).1 = .ok members.length := by
  rw [MemoryStore.answer_eq hl] at hm ⊢
  simp only [StoreCall.key] at hm ⊢
  generalize m.view now key = e at hm ⊢
  rcases e with _ | ⟨value | M, d⟩
  · cases hm
    rfl
  · cases hm
  · cases hm
    exact congrArg Except.ok (Finset.length_sort _).symm

theorem lists_of_setMembers (hl : m.Listed) {kind : String} {members : List SetMember}
    (limit : Nat) (hm : (m.call now (.setMembers (RunningSet.keyOf kind))).1 = .ok members) :
    Lists format now kind limit m members
      { out := listedText format ((members.take limit).map (Row.of now)), err := "" } := by
  have hlists := MemoryStore.setMembers_ok hm
  have hplain (others : List SetMember) : ∀ r ∈ others.map (Row.of now), r.Plain := by
    intro r hr
    obtain ⟨x, _, rfl⟩ := List.mem_map.mp hr
    exact Row.plain_of now x
  refine ⟨?_, ?_, setCount_of_setMembers hl hm, List.length_take, rfl, ?_, ?_⟩
  · rw [← hlists]
    exact MemoryStore.lists_sorted hl
  · intro x
    rw [← hlists]
    exact MemoryStore.mem_lists
  · exact inOrder_listedText format (hplain _)
  · exact fun others hothers => (listedText_inj (hplain _) (hplain others) hothers).symm

theorem ofSet?_filter_congr {M M' : Finset SetMember} {d d' : Option Instant}
    {alive : SetMember → Prop} [DecidablePred alive] (he : ofSet? M d = ofSet? M' d') :
    ofSet? (M.filter alive) d = ofSet? (M'.filter alive) d' := by
  have hM : M = M' := by
    have hmembers := congrArg IdealEntry.members he
    rwa [members_ofSet?, members_ofSet?] at hmembers
  subst hM
  by_cases hempty : M = ∅
  · rw [hempty, Finset.filter_empty, ofSet?, ofSet?, if_pos rfl, if_pos rfl]
  · rw [ofSet?, ofSet?, if_neg hempty, if_neg hempty] at he
    cases he
    rfl

theorem empty_ne_ofSet? (M : Finset SetMember) (d d' : Option Instant) :
    some ⟨.set ∅, d⟩ ≠ ofSet? M d' := by
  unfold ofSet?
  split
  · nofun
  · next hM =>
    intro he
    cases he
    exact hM rfl

/-- How a command ends, from such a store. -/
def Command.Ends (settings : Settings) (format : Format) (now : Instant) (c : Command) (m : MemoryStore)
    (r : Except Trouble Unit) (p : Printed) (t' : Scene Q ρ) : Prop :=
  (∃ V, t'.machine.Stands True now V) ∧ c.Does settings format now m r p t'.machine.store

variable (ht : t.machine.Stands True now (t.machine.store.view now))
include ht

theorem ends_of_inspects {x : Session (Thread Q ρ) Unit} (hx : Inspects x)
    (hc : ∀ r p m', m'.view now = t.machine.store.view now →
      c.Does settings format now t.machine.store r p m') :
    Prints h x (c.Ends settings format now t.machine.store) { out := "", err := "" } t := by
  have hkeeps : Prints h x (fun _ _ t' => t'.machine.Stands True now (t.machine.store.view now))
      { out := "", err := "" } t := hx _ h t now _ ht
  exact ⟨⟨_, hkeeps⟩, hc _ _ _ hkeeps.view⟩

theorem ends_listRunning (kind : String) (limit : Nat) :
    Prints h (listRunning settings format kind limit)
      ((Command.listRunning kind limit).Ends settings format now t.machine.store)
      { out := "", err := "" } t := by
  have hkeeps : Prints h (listRunning settings format kind limit)
      (fun _ _ t' => t'.machine.Stands True now (t.machine.store.view now))
      { out := "", err := "" } t := inspects_listRunning settings format kind limit _ h t now _ ht
  have hanswer : (t.machine.store.call now (.setMembers (RunningSet.keyOf kind))).1 = _ :=
    MemoryStore.answer_eq ht.listed _
  refine ((prints_listRunning settings format kind limit ht hanswer.symm).and hkeeps).mono ?_
  intro ⟨r, p⟩ t' ⟨hshown, ht'⟩
  refine ⟨⟨_, ht'⟩, ht'.view, ?_⟩
  cases hm : (t.machine.store.call now (.setMembers (RunningSet.keyOf kind))).1 with
  | error f =>
    rw [hm] at hshown
    exact Prod.mk.inj hshown
  | ok members =>
    rw [hm] at hshown
    obtain ⟨rfl, rfl⟩ := Prod.mk.inj hshown
    rw [addOut_empty]
    exact ⟨rfl, lists_of_setMembers ht.listed limit hm⟩

theorem ends_pruneRunning (kind : String) (hnow : now.Representable)
    (hadded : ∀ x ∈ IdealEntry.members (t.machine.store.view now (RunningSet.keyOf kind)),
      x.addedAt.Representable) :
    Prints h (pruneRunning settings format kind)
      ((Command.pruneRunning kind).Ends settings format now t.machine.store)
      { out := "", err := "" } t := by
  rcases IdealEntry.kinds (t.machine.store.view now (RunningSet.keyOf kind)) with
    ⟨M, d, hv⟩ | ⟨value, d, hv⟩ | ⟨d, hv⟩
  -- A set with members, or nothing: the clean-up ends well or is broken off by a set for a status.
  · rw [hv, members_ofSet?] at hadded
    have hpruned := prints_pruneRunning_of_set (h := h) (p := { out := "", err := "" }) settings
      format kind ht hnow hadded hv
    refine hpruned.mono ?_
    rintro ⟨f | ⟨⟩, p⟩ t' hp
    · obtain ⟨⟨left, halive, hsub, ht'⟩, rfl, hset⟩ := hp
      refine ⟨⟨_, ht'⟩, Or.inr ⟨M, d, left, hv, halive, hsub, ht'.view⟩, nofun, fun _ => ⟨rfl, ?_⟩⟩
      exact Or.inr ⟨M, d, hv, hset⟩
    · obtain ⟨ht', removed, hsum, rfl⟩ := hp
      refine ⟨⟨_, ht'⟩, ?_, fun _ => ?_, fun hr => absurd rfl hr⟩
      · exact Or.inr ⟨M, d, _, hv, Finset.Subset.refl _, Finset.filter_subset _ _, ht'.view⟩
      · have hafter := RunningSet.call_setCount ht'.listed (ht'.view ▸ Function.update_self ..)
        refine ⟨removed, _, counts_of_pruned (addOut_empty _), ?_, hafter, ?_⟩
        · rw [RunningSet.call_setCount ht.listed hv, hsum]
        · intro M' d' hv'
          rw [ht'.view, aliveOf, ofSet?_filter_congr (hv.symm.trans hv')]
          rfl
  -- A text: the first call fails.
  · refine (prints_pruneRunning_of_text (h := h) settings format kind ht hv).mono ?_
    rintro ⟨r, p⟩ t' ⟨ht', rfl, rfl⟩
    refine ⟨⟨_, ht'⟩, Or.inl ht'.view, nofun, fun _ => ⟨rfl, Or.inl ⟨value, d, hv⟩⟩⟩
  -- A set without members has nothing to clean up, and is not written as `ofSet?` writes sets.
  · refine (prints_pruneRunning_of_empty (h := h) settings format kind ht hv).mono ?_
    rintro ⟨r, p⟩ t' ⟨ht', rfl, rfl⟩
    have hcount := setCount_of_empty ht.listed hv
    have hafter := setCount_of_empty ht'.listed (ht'.view ▸ hv)
    refine ⟨⟨_, ht'⟩, Or.inl ht'.view, fun _ => ?_, fun hr => absurd rfl hr⟩
    refine ⟨0, 0, counts_of_pruned (addOut_empty _), hcount, hafter, ?_⟩
    intro M d' hM
    exact absurd (hv.symm.trans hM) (empty_ne_ofSet? M d d')

theorem ends_releaseLease (key : String) (token : Option String) (force : Bool) :
    Prints h (releaseLease format key token force)
      ((Command.releaseLease key token force).Ends settings format now t.machine.store)
      { out := "", err := "" } t := by
  cases token with
  | some token =>
    refine (prints_releaseLease_of_token format force ht).mono ?_
    intro ⟨r, p⟩ t' ⟨hr, hp, ht'⟩
    rw [addOut_empty] at hp
    exact ⟨⟨_, ht'⟩, hr, reports_of_injective (releasedText_injective _ _) hp, ht'.view⟩
  | none =>
    cases force with
    | true =>
      refine (prints_releaseLease_of_force format ht).mono ?_
      intro ⟨r, p⟩ t' ⟨hr, hp, ht'⟩
      simp only [Printed.addOut, Printed.addErr, String.empty_append] at hp
      exact ⟨⟨_, ht'⟩, hr, reports_of_injective (releasedText_injective _ _) hp, ht'.view⟩
    | false => exact ⟨⟨_, ht⟩, rfl, rfl, rfl⟩

theorem ends_clearClaim (kind : String) (args : List String) :
    Prints h (clearClaim format kind args)
      ((Command.clearClaim kind args).Ends settings format now t.machine.store)
      { out := "", err := "" } t := by
  cases hargs : args.mapM argOf with
  | error e =>
    refine (prints_clearClaim_of_unreadable format hargs).mono ?_
    intro ⟨r, p⟩ t' ⟨hr, hp, ht'⟩
    refine ⟨⟨_, ht' ▸ ht⟩, ?_⟩
    simp only [Command.Does, hargs]
    exact ⟨hr, hp, by rw [ht']⟩
  | ok vs =>
    refine (prints_clearClaim_of_readable format hargs ht).mono ?_
    intro ⟨r, p⟩ t' ⟨hr, hp, ht'⟩
    rw [addOut_empty] at hp
    refine ⟨⟨_, ht'⟩, ?_⟩
    simp only [Command.Does, hargs]
    exact ⟨hr, reports_of_injective (clearedText_injective _ _) hp, ht'.view⟩

/-- Every command does what it says. -/
theorem ends_execute [Machine.Names] (path : Option String) (c : Command) (hnow : now.Representable)
    (hadded : ∀ key, ∀ x ∈ IdealEntry.members (t.machine.store.view now key),
      x.addedAt.Representable) :
    Prints h (execute settings path format c) (c.Ends settings format now t.machine.store)
      { out := "", err := "" } t := by
  cases c with
  | listRunning kind limit => exact ends_listRunning ht kind limit
  | countRunning kind =>
    exact ends_of_inspects ht (inspects_countRunning settings format kind) fun _ _ _ hv => hv
  | pruneRunning kind => exact ends_pruneRunning ht kind hnow (hadded _)
  | jobStatus id => exact ends_of_inspects ht (inspects_jobStatus format id) fun _ _ _ hv => hv
  | showLease key =>
    exact ends_of_inspects ht (inspects_showLease settings format key) fun _ _ _ hv => hv
  | releaseLease key token force => exact ends_releaseLease ht key token force
  | showClaim kind args =>
    exact ends_of_inspects ht (inspects_showClaim format kind args) fun _ _ _ hv => hv
  | clearClaim kind args => exact ends_clearClaim ht kind args
  | showSettings =>
    exact ends_of_inspects ht (inspects_showSettings settings format) fun _ _ _ hv => hv
  | showSettingsPath =>
    exact ends_of_inspects ht (inspects_showSettingsPath path) fun _ _ _ hv => hv
  | checkSettings => exact ends_of_inspects ht (inspects_checkSettings settings) fun _ _ _ hv => hv

omit ht

/-! ### A whole command -/

/-- What becomes of a machine on which a command was run. -/
structure Command.Ran (settings : Settings) (format : Format) (c : Command) (s : Machine)
    (r : Except Trouble Unit) (p : Printed) (s' : Machine) : Prop where
  quiet : s'.Quiet
  clock : s'.clock = s.clock
  listed : s'.store.Listed
  does : c.Does settings format s.clock s.store r p s'.store
  /-- Where a command names no key to change, or changes nothing there, no later call can tell that it
  was run. -/
  unseen : c.target? = none ∨ s'.store.view s.clock = s.store.view s.clock →
    ∀ calls, Forward calls → From s.clock calls →
      (replies MemoryStore.call s'.store calls).1 = (replies MemoryStore.call s.store calls).1
  /-- No later call under another key can tell, whatever calls are made under the key it names. -/
  apart : ∀ calls, Forward calls → From s.clock calls →
    ((replies MemoryStore.call s'.store calls).1.filter fun reply =>
        c.target? ≠ some reply.call.key) =
      (replies MemoryStore.call s.store calls).1.filter fun reply => c.target? ≠ some reply.call.key

theorem Command.Ends.ran {c : Command} {s : Machine} (hl : s.store.Listed)
    (he : c.Ends settings format s.clock s.store r p t) : c.Ran settings format s r p t.machine := by
  obtain ⟨⟨V, ht⟩, hdoes⟩ := he
  refine ⟨ht.quiet trivial, ht.clock, ht.listed, hdoes, ?_, ?_⟩
  · intro hsame calls hf hn
    have hview : t.machine.store.view s.clock = s.store.view s.clock := by
      rcases hsame with hnone | hview
      · funext key
        exact hdoes.apart (by rw [hnone]; nofun)
      · exact hview
    have halike : MemoryStore.Alike (fun _ => true) s.clock s.store t.machine.store :=
      fun key _ => congrFun hview key
    have hall := halike.replies hl ht.listed hf hn
    rwa [List.filter_true, List.filter_true] at hall
  · intro calls hf hn
    have halike : MemoryStore.Alike (fun key => c.target? ≠ some key) s.clock s.store
        t.machine.store := fun key hk => hdoes.apart (of_decide_eq_true hk)
    exact halike.replies hl ht.listed hf hn

/-- A command changes nothing but what it names, and shows what it has done. -/
theorem execute_touches_target [Machine.Names] (settings : Settings) (path : Option String)
    (format : Format) (c : Command) (h : Host Q ρ) {s : Machine} (hq : s.Quiet) (hl : s.store.Listed)
    (hnow : s.clock.Representable)
    (hadded : ∀ key, ∀ x ∈ IdealEntry.members (s.store.view s.clock key), x.addedAt.Representable) :
    let run :=
      (execute settings path format c : Session (Thread Q ρ) Unit).perform.play h (.ofMachine s)
    c.Ran settings format s run.1.1 run.1.2 run.2.machine := by
  have ht : s.Stands True s.clock (s.store.view s.clock) := ⟨hq.honest, fun _ => hq, hl, rfl, rfl⟩
  have hends : Prints h (execute settings path format c)
      (c.Ends settings format s.clock s.store) { out := "", err := "" } (.ofMachine s) :=
    ends_execute ht path c hnow hadded
  exact Command.Ends.ran hl hends

/-- Of three members the two that were added first are listed, and a lease is released for the token
that holds it. -/
theorem execute_touches_target_of_three :
    let members : List (String × Instant) := [("c", ⟨30, 0⟩), ("b", ⟨0, 0⟩), ("a", ⟨30, 0⟩)]
    let s : Machine := { Machine.ofClock ⟨100, 0⟩ with
      store := Keyed.ofList [(RunningSet.keyOf "export", ⟨.set members, none⟩),
        ("lease", ⟨.text "t", none⟩)] }
    let run (c : Command) := (execute (Settings.default "development") none .yaml c :
      Session (Thread Empty Unit) Unit).perform.play (fun _ q => q.elim) (.ofMachine s)
    let listing := run (.listRunning "export" 2)
    let release := run (.releaseLease "lease" (some "t") false)
    s.Quiet ∧ s.store.Listed ∧ s.clock.Representable ∧
      (∀ key, ∀ x ∈ IdealEntry.members (s.store.view s.clock key), x.addedAt.Representable) ∧
      listing.1 = (.ok (),
        { out := "- id: b\n  registered_at: 1970-01-01T00:00:00+00:00\n  age: 1m 40s\n" ++
            "- id: a\n  registered_at: 1970-01-01T00:00:30+00:00\n  age: 1m 10s\n",
          err := "" }) ∧
      listing.2.machine.store.view s.clock = s.store.view s.clock ∧
      release.1 = (.ok (), { out := "key: lease\nreleased: true\n", err := "" }) ∧
      release.2.machine.store.view s.clock "lease" = none := by
  intro members s run listing release
  have hq : s.Quiet := fun _ => rfl
  have hdistinct : MemoryStore.Distinct members := by
    unfold MemoryStore.Distinct
    decide
  have hl : s.store.Listed := by
    refine MemoryStore.listed_insert (MemoryStore.listed_insert MemoryStore.listed_empty ?_) ?_
    · rintro ms ⟨⟩
      exact hdistinct
    · rintro ms ⟨⟩
  have hview (key : String) : s.store.view s.clock key =
      if "lease" = key then some ⟨.text "t", none⟩
      else if RunningSet.keyOf "export" = key then some ⟨.set (MemoryStore.membersOf members), none⟩
      else none := by
    show (MemoryStore.live? (Keyed.insert (Keyed.insert _ _ _) _ _) s.clock key).map Slot.ideal = _
    rw [MemoryStore.live?_insert, MemoryStore.live?_insert, MemoryStore.live?_empty]
    split
    · rfl
    · split <;> rfl
  have hadded : ∀ key, ∀ x ∈ IdealEntry.members (s.store.view s.clock key),
      x.addedAt.Representable := by
    have hall : ∀ x ∈ MemoryStore.membersOf members, x.addedAt.Representable := by decide
    intro key x hx
    rw [hview] at hx
    split at hx
    · exact absurd hx (Finset.notMem_empty x)
    · split at hx
      · exact hall x hx
      · exact absurd hx (Finset.notMem_empty x)
  have hran (c : Command) := execute_touches_target (Settings.default "development") none .yaml c
    (fun _ (q : Empty) => (q.elim : Unit × Machine)) hq hl (by decide) hadded
  have hlisted :
      MemoryStore.listed members = [⟨"b", ⟨0, 0⟩⟩, ⟨"a", ⟨30, 0⟩⟩, ⟨"c", ⟨30, 0⟩⟩] := by
    have hset : MemoryStore.membersOf members =
        List.toFinset [⟨"b", ⟨0, 0⟩⟩, ⟨"a", ⟨30, 0⟩⟩, ⟨"c", ⟨30, 0⟩⟩] := by decide
    rw [← MemoryStore.sort_membersOf hdistinct, hset, List.toFinset_sort _ (by decide)]
    decide
  have hanswer : (s.store.call s.clock (.setMembers (RunningSet.keyOf "export"))).1 =
      .ok (MemoryStore.listed members) := rfl
  have hlisting := (hran (.listRunning "export" 2)).does
  simp only [Command.Does, hanswer] at hlisting
  obtain ⟨hsame, hok, hshown⟩ := hlisting
  have hreleased := (hran (.releaseLease "lease" (some "t") false)).does
  obtain ⟨hr, hreport, hleft⟩ := hreleased
  have hheld : holdsToken (s.store.view s.clock) "lease" "t" = true := by
    rw [holdsToken, hview, if_pos rfl]
    rfl
  rw [hheld] at hreport hleft
  refine ⟨hq, hl, by decide, hadded, Prod.ext hok ?_, hsame, Prod.ext hr ?_, ?_⟩
  · rw [hshown.shown, hlisted]
    exact congrArg (Printed.mk · "") (by decide +kernel)
  · rw [hreport.shown]
    exact congrArg (Printed.mk · "") (by decide +kernel)
  · rw [hleft, if_pos rfl, Function.update_self]

end Turnstile.Console
