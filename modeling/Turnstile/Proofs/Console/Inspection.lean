import Turnstile.Proofs.Console.Printing

/-!
# Commands that inspect

A command that only reads leaves everything that can be seen of the store as it was, whatever it prints
and however it ends.
-/

namespace Turnstile

variable {Q ρ α β : Type}

/-- Whatever can be seen of the store of a quiet machine stays as it is. -/
def Scene.Keeps (t t' : Scene Q ρ) : Prop :=
  ∀ now V, t.machine.Stands True now V → t'.machine.Stands True now V

instance : IsPreorder (Scene Q ρ) Scene.Keeps where
  refl _ _ _ ht := ht
  trans _ _ _ h h' now V ht := h' now V (h now V ht)

namespace Thread

theorem keeps_reads {c : StoreCall} (hc : c.Reads) :
    Leaves Scene.Keeps (callStore c : Attempt (Thread Q ρ) c.Answer).run := by
  intro h t now V ht
  have hread : Yields h (callStore c : Attempt (Thread Q ρ) c.Answer).run
      (fun _ t' => t'.machine.Stands True now V) t := by
    refine yields_read hc ht ?_ ?_
    · exact fun _ _ _ ht' _ => ht'
    · exact fun _ _ _ ht' _ => ht'
  exact hread

theorem keeps_step {effect : Machine → α × Machine}
    (he : ∀ s : Machine, (effect s).2.plans = s.plans ∧ (effect s).2.store = s.store ∧
      (effect s).2.clock = s.clock) : Leaves Scene.Keeps (Machine.step effect : Thread Q ρ α) := by
  intro h t now V ht
  obtain ⟨hplans, hstore, hclock⟩ := he t.machine
  have hquiet : (effect t.machine).2.Quiet := by
    intro method
    rw [hplans]
    exact ht.quiet trivial method
  exact ⟨hquiet.honest, fun _ => hquiet, hstore ▸ ht.listed, hclock.trans ht.clock,
    (congrArg (MemoryStore.view · now) hstore).trans ht.view⟩

theorem keeps_now : Leaves Scene.Keeps (now : Thread Q ρ Instant) :=
  keeps_step fun _ => ⟨rfl, rfl, rfl⟩

theorem keeps_fresh [Machine.Names] (key : String) (ttl : Duration) :
    Leaves Scene.Keeps (Lease.fresh key ttl : Attempt (Thread Q ρ) Lease).run := by
  have htoken : Leaves Scene.Keeps (MonadFresh.freshToken : Thread Q ρ String) :=
    keeps_step fun _ => ⟨rfl, rfl, rfl⟩
  have htally : Leaves Scene.Keeps (tally (.fault Fault.emptyLeaseKey.code) : Thread Q ρ Unit) :=
    keeps_step fun _ => ⟨rfl, rfl, rfl⟩
  unfold Lease.fresh
  refine (htoken.bind fun _ => leaves_pure _).run_bind fun token => ?_
  unfold Lease.ofToken
  split
  · exact (htally.bind fun _ => leaves_pure _).run_bind fun _ => leaves_pure _
  · exact leaves_pure _

end Thread

namespace Console

open Thread

/-- A session that keeps what can be seen of the store. -/
def Inspects (x : Session (Thread Q ρ) α) : Prop := ∀ p, Leaves Scene.Keeps (x.run.run p)

namespace Inspects

variable {x : Session (Thread Q ρ) α} {f : α → Session (Thread Q ρ) β}

theorem pure (a : α) : Inspects (Pure.pure a : Session (Thread Q ρ) α) := fun _ => leaves_pure _

theorem throw (e : Trouble) : Inspects (throw e : Session (Thread Q ρ) α) := fun _ => leaves_pure _

theorem bind (hx : Inspects x) (hf : ∀ a, Inspects (f a)) : Inspects (x >>= f) := by
  intro p
  rw [ExceptT.run_bind, StateT.run_bind]
  refine (hx p).bind ?_
  rintro ⟨e | a, p'⟩
  · exact leaves_pure _
  · exact hf a p'

theorem lift {x : Thread Q ρ α} (hx : Leaves Scene.Keeps x) :
    Inspects (liftM x : Session (Thread Q ρ) α) := fun _ =>
  (hx.bind fun _ => leaves_pure _).bind fun _ => leaves_pure _

theorem attempt {x : Attempt (Thread Q ρ) α} (hx : Leaves Scene.Keeps x.run) :
    Inspects (Session.attempt x) := by
  refine (lift hx).bind ?_
  rintro (f | a)
  · exact throw _
  · exact pure _

/-! ### Printing -/

theorem raw (text : String) : Inspects (Session.raw text : Session (Thread Q ρ) Unit) :=
  fun _ => leaves_pure _

theorem line (text : String) : Inspects (Session.line text : Session (Thread Q ρ) Unit) :=
  fun _ => leaves_pure _

theorem item (format : Format) (v : Json) :
    Inspects (Session.item format v : Session (Thread Q ρ) Unit) := by
  cases format with
  | yaml => exact raw _
  | table => exact line _
  | json => exact line _

theorem list (format : Format) (table : Table) (names : List String) :
    Inspects (Session.list format table names : Session (Thread Q ρ) Unit) := by
  cases format with
  | table => exact line _
  | json => exact item .json _
  | yaml => exact item .yaml _

end Inspects

/-! ### The commands -/

variable (settings : Settings) (format : Format) (kind key : String)

open Inspects

theorem inspects_listRunning (limit : Nat) :
    Inspects (listRunning settings format kind limit : Session (Thread Q ρ) Unit) := by
  refine (lift keeps_now).bind fun _ => ?_
  refine (attempt ?_).bind fun _ => list _ _ _
  exact (keeps_reads (c := .setMembers _) trivial).run_bind fun _ => leaves_pure _

theorem inspects_countRunning :
    Inspects (countRunning settings format kind : Session (Thread Q ρ) Unit) := by
  refine (attempt (keeps_reads (c := .setCount _) trivial)).bind fun _ => ?_
  cases format with
  | table => exact line _
  | json => exact item .json _
  | yaml => exact item .yaml _

theorem inspects_jobStatus (id : String) :
    Inspects (jobStatus format id : Session (Thread Q ρ) Unit) := by
  refine (attempt ((keeps_reads (c := .get _) trivial).run_bind fun _ => leaves_pure _)).bind fun _ => ?_
  cases format with
  | table => exact line _
  | json => exact item .json _
  | yaml => exact item .yaml _

theorem inspects_showLease [Machine.Names] :
    Inspects (showLease settings format key : Session (Thread Q ρ) Unit) := by
  refine (attempt (keeps_fresh key _)).bind fun lease => ?_
  refine (attempt (keeps_reads (c := .get _) trivial)).bind fun holder => ?_
  refine (attempt (keeps_reads (c := .ttl _) trivial)).bind fun left => ?_
  split
  · exact (raw _).bind fun _ => (line _).bind fun _ => line _
  · exact line _
  · exact item _ _

theorem inspects_readArgs (args : List String) :
    Inspects (readArgs args : Session (Thread Q ρ) (List Json)) := by
  induction args with
  | nil => exact pure _
  | cons text rest ih =>
    unfold readArgs
    split
    · exact throw _
    · exact ih.bind fun _ => pure _

theorem inspects_showClaim (args : List String) :
    Inspects (showClaim format kind args : Session (Thread Q ρ) Unit) := by
  refine (inspects_readArgs args).bind fun vs => ?_
  refine (attempt (keeps_reads (c := .get _) trivial)).bind fun owner => ?_
  refine (attempt (keeps_reads (c := .ttl _) trivial)).bind fun left => ?_
  cases format with
  | table =>
    exact (raw _).bind fun _ => (line _).bind fun _ => (line _).bind fun _ => (line _).bind fun _ =>
      line _
  | json => exact item .json _
  | yaml => exact item .yaml _

theorem inspects_showSettings :
    Inspects (showSettings settings format : Session (Thread Q ρ) Unit) := by
  cases format with
  | table =>
    refine (raw _).bind fun _ => ?_
    iterate 10 refine (line _).bind fun _ => ?_
    exact line _
  | json => exact item .json _
  | yaml => exact item .yaml _

theorem inspects_showSettingsPath (path : Option String) :
    Inspects (showSettingsPath path : Session (Thread Q ρ) Unit) := by
  cases path with
  | none => exact line _
  | some path => exact line _

theorem inspects_checkSettings : Inspects (checkSettings settings : Session (Thread Q ρ) Unit) := by
  unfold checkSettings
  split
  · exact line _
  · exact throw _

end Console

end Turnstile
