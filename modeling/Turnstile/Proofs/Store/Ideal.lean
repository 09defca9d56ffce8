import Mathlib.Data.Finset.Sort
import Mathlib.Data.String.Basic
import Turnstile.Proofs.Time.Deadline
import Turnstile.Store.Call

/-!
# An ideal store

A map from keys to entries in which an entry is gone from its deadline on, and a set is gone with its
last member. A set is a finite set of members, each with the time at which it was added. A call acts
on the entry under its one key, and answers as `IdealEntry.respond` says.
-/

namespace Turnstile

/-! ### Order of members -/

/-- Members are ordered by the time at which they were added, and then by text. -/
def SetMember.NotAfter (a b : SetMember) : Prop :=
  a.addedAt < b.addedAt ∨ (a.addedAt = b.addedAt ∧ a.member ≤ b.member)

def SetMember.Before (a b : SetMember) : Prop :=
  a.addedAt < b.addedAt ∨ (a.addedAt = b.addedAt ∧ a.member < b.member)

instance : DecidableRel SetMember.NotAfter := fun _ _ => inferInstanceAs (Decidable (_ ∨ _))

namespace SetMember

theorem eq_of {a b : SetMember} (hm : a.member = b.member) (ht : a.addedAt = b.addedAt) : a = b := by
  obtain ⟨ma, ta⟩ := a
  obtain ⟨mb, tb⟩ := b
  simp only at hm ht
  rw [hm, ht]

theorem NotAfter.trans {a b c : SetMember} (hab : a.NotAfter b) (hbc : b.NotAfter c) :
    a.NotAfter c := by
  rcases hab with hab | ⟨hab, hm⟩
  · rcases hbc with hbc | ⟨hbc, _⟩
    · exact Or.inl (lt_trans hab hbc)
    · exact Or.inl (hbc ▸ hab)
  · rcases hbc with hbc | ⟨hbc, hm'⟩
    · exact Or.inl (hab ▸ hbc)
    · exact Or.inr ⟨hab.trans hbc, le_trans hm hm'⟩

theorem NotAfter.antisymm {a b : SetMember} (hab : a.NotAfter b) (hba : b.NotAfter a) : a = b := by
  rcases hab with hab | ⟨hab, hm⟩
  · rcases hba with hba | ⟨hba, _⟩
    · exact absurd hba (lt_asymm hab)
    · exact absurd hba (ne_of_gt hab)
  · rcases hba with hba | ⟨_, hm'⟩
    · exact absurd hab (ne_of_gt hba)
    · exact eq_of (le_antisymm hm hm') hab

theorem NotAfter.total (a b : SetMember) : a.NotAfter b ∨ b.NotAfter a := by
  rcases lt_trichotomy a.addedAt b.addedAt with h | h | h
  · exact Or.inl (Or.inl h)
  · rcases le_total a.member b.member with hm | hm
    · exact Or.inl (Or.inr ⟨h, hm⟩)
    · exact Or.inr (Or.inr ⟨h.symm, hm⟩)
  · exact Or.inr (Or.inl h)

instance : IsTrans SetMember SetMember.NotAfter := ⟨fun _ _ _ => NotAfter.trans⟩

instance : Std.Antisymm SetMember.NotAfter := ⟨fun _ _ => NotAfter.antisymm⟩

instance : Std.Total SetMember.NotAfter := ⟨NotAfter.total⟩

theorem NotAfter.before {a b : SetMember} (h : a.NotAfter b) (hne : a ≠ b) : a.Before b := by
  rcases h with h | ⟨ht, hm⟩
  · exact Or.inl h
  · refine Or.inr ⟨ht, lt_of_le_of_ne hm ?_⟩
    intro he
    exact hne (eq_of he ht)

end SetMember

/-! ### Entries -/

def StoreCall.Reads : StoreCall → Prop
  | setCount _ | setMembers _ | get _ | ttl _ => True
  | _ => False

inductive IdealValue
  | text (value : String)
  | set (members : Finset SetMember)
deriving DecidableEq

structure IdealEntry where
  value : IdealValue
  deadline : Option Instant
deriving DecidableEq

namespace IdealEntry

def isLive (e : IdealEntry) (now : Instant) : Bool := e.deadline.all fun d => now < d

def Has (members : Finset SetMember) (member : String) : Prop := ∃ x ∈ members, x.member = member

instance (members : Finset SetMember) (member : String) : Decidable (Has members member) :=
  inferInstanceAs (Decidable (∃ x ∈ members, x.member = member))

/-- The set with a member, which keeps its time if it is there. -/
def adding (members : Finset SetMember) (member : String) (now : Instant) : Finset SetMember :=
  if Has members member then members else insert { member, addedAt := now } members

def among (members : Finset SetMember) (texts : List String) : Finset SetMember :=
  members.filter fun x => x.member ∈ texts

/-- An entry with a set; without members it is gone. -/
def ofSet? (members : Finset SetMember) (deadline : Option Instant) : Option IdealEntry :=
  if members = ∅ then none else some { value := .set members, deadline }

/-- The answer to a call, and what its key holds after it; `e` is the live entry under the key. In
nanoseconds, a deadline is the sum of the time and the term (`Instant.deadline?_of_plain`), and the
time that is left is the difference of two times (`Instant.timeLeft_of_plain`). -/
def respond (now : Instant) (e : Option IdealEntry) :
    (c : StoreCall) → Except Fault c.Answer × Option IdealEntry
  | .setAdd key member ttl =>
    match e with
    | some { value := .text _, .. } => (.error (Fault.wrongKindOfValue key), e)
    | some { value := .set members, .. } =>
      (.ok (!decide (Has members member)),
        some { value := .set (adding members member now), deadline := now.deadline? ttl })
    | none =>
      (.ok true, some { value := .set (adding ∅ member now), deadline := now.deadline? ttl })
  | .setRemove key texts =>
    match e with
    | some { value := .text _, .. } => (.error (Fault.wrongKindOfValue key), e)
    | some { value := .set members, deadline } =>
      (.ok (among members texts).card, ofSet? (members \ among members texts) deadline)
    | none => (.ok 0, none)
  | .setCount key =>
    match e with
    | some { value := .text _, .. } => (.error (Fault.wrongKindOfValue key), e)
    | some { value := .set members, .. } => (.ok members.card, e)
    | none => (.ok 0, none)
  | .setMembers key =>
    match e with
    | some { value := .text _, .. } => (.error (Fault.wrongKindOfValue key), e)
    | some { value := .set members, .. } => (.ok (members.sort SetMember.NotAfter), e)
    | none => (.ok [], none)
  | .setIfAbsent _ value ttl =>
    match e with
    | some _ => (.ok false, e)
    | none => (.ok true, some { value := .text value, deadline := now.deadline? ttl })
  | .get key =>
    match e with
    | some { value := .text value, .. } => (.ok (some value), e)
    | some { value := .set _, .. } => (.error (Fault.wrongKindOfValue key), e)
    | none => (.ok none, none)
  | .ttl _ => (.ok (e.bind fun e => e.deadline.map now.timeLeft), e)
  | .delete _ => (.ok e.isSome, none)
  | .deleteIfEq _ expected =>
    if e.any fun e => e.value = .text expected then (.ok true, none) else (.ok false, e)
  | .expireIfEq _ expected ttl =>
    if e.any fun e => e.value = .text expected then
      (.ok true, some { value := .text expected, deadline := now.deadline? ttl })
    else (.ok false, e)

theorem respond_of_reads {c : StoreCall} (h : c.Reads) (now : Instant) (e : Option IdealEntry) :
    (respond now e c).2 = e := by
  cases c <;> simp only [StoreCall.Reads] at h <;>
    rcases e with _ | ⟨_ | _, _⟩ <;> rfl

end IdealEntry

/-! ### Stores -/

abbrev IdealStore := String → Option IdealEntry

namespace IdealStore

def empty : IdealStore := fun _ => none

def upTo (s : IdealStore) (now : Instant) : IdealStore :=
  fun key => (s key).filter fun e => e.isLive now

def call (s : IdealStore) (now : Instant) (c : StoreCall) : Except Fault c.Answer × IdealStore :=
  let (answer, entry) := IdealEntry.respond now (s.upTo now c.key) c
  (answer, Function.update (s.upTo now) c.key entry)

variable {s : IdealStore} {now later : Instant}

theorem upTo_upTo (h : now ≤ later) : (s.upTo now).upTo later = s.upTo later := by
  funext key
  simp only [upTo, Option.filter_filter]
  congr 1
  funext e
  simp only [IdealEntry.isLive]
  cases e.deadline with
  | none => rfl
  | some d =>
    simp only [Option.all_some, ← Bool.decide_and, decide_eq_decide]
    exact ⟨fun hd => hd.2, fun hd => ⟨lt_of_le_of_lt h hd, hd⟩⟩

theorem call_upTo (c : StoreCall) : (s.upTo now).call now c = s.call now c := by
  simp only [call, upTo_upTo (le_refl now)]

end IdealStore

/-! ### Runs -/

structure StoreReply where
  call : StoreCall
  answer : Except Fault call.Answer

abbrev TimedCall := Instant × StoreCall

/-- The replies of a store to calls one after the other, and the store after them. -/
def replies {σ : Type} (step : σ → Instant → (c : StoreCall) → Except Fault c.Answer × σ) (s : σ) :
    List TimedCall → List StoreReply × σ
  | [] => ([], s)
  | (now, c) :: rest =>
    let (answer, s) := step s now c
    let (more, s) := replies step s rest
    (⟨c, answer⟩ :: more, s)

/-- The clock never goes back between calls. -/
def Forward (calls : List TimedCall) : Prop := (calls.map Prod.fst).Pairwise (· ≤ ·)

/-- No call is made later than at the given time. -/
def Until (calls : List TimedCall) (now : Instant) : Prop := ∀ e ∈ calls, e.1 ≤ now

/-- No call is made earlier than at the given time. -/
def From (now : Instant) (calls : List TimedCall) : Prop := ∀ e ∈ calls, now ≤ e.1

theorem forward_cons {e : TimedCall} {calls : List TimedCall} :
    Forward (e :: calls) ↔ From e.1 calls ∧ Forward calls := by
  simp only [Forward, From, List.map_cons, List.pairwise_cons, List.forall_mem_map]

theorem forward_append {calls more : List TimedCall} :
    Forward (calls ++ more) ↔
      Forward calls ∧ Forward more ∧ ∀ e ∈ calls, From e.1 more := by
  simp only [Forward, From, List.map_append, List.pairwise_append, List.forall_mem_map]

theorem replies_append {σ : Type}
    (step : σ → Instant → (c : StoreCall) → Except Fault c.Answer × σ) (s : σ)
    (calls more : List TimedCall) :
    replies step s (calls ++ more) =
      ((replies step s calls).1 ++ (replies step (replies step s calls).2 more).1,
        (replies step (replies step s calls).2 more).2) := by
  induction calls generalizing s with
  | nil => rfl
  | cons e rest ih =>
    obtain ⟨now, c⟩ := e
    simp only [List.cons_append, replies, ih]

end Turnstile
