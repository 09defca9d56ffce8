import Turnstile.Proofs.Server.Agreement

/-!
# What refused calls leave on a server

A server that refuses a command leaves its keys as they were. The call that adds a member is a
transaction of two commands: where the first is refused, because the key holds a text, the second one
still sets the expiry of that text.
-/

namespace Turnstile.Server

variable {keyspace key member text : String} {s : Keys} {m : MemoryStore} {now : Int} {d : Duration}

namespace Keys

/-! ### Refused commands -/

theorem run_of_error {c : Command} (h : (s.run now c).1 = .error text) : (s.run now c).2 = s := by
  cases c <;>
    simp only [run, zaddNew, zrem, setNew, del, runScript, expire, flag] at h ⊢ <;>
    grind

/-! ### Adding a member to a text -/

variable {value : String} {deadline : Option Int} {expiry : Nat}

theorem run_zaddNew_of_text (hs : s.live? now key = some { held := .text value, deadline })
    (score : Int) (member : String) : s.run now (.zaddNew key score member) = (wrongKind, s) := by
  have hrefused : (s.run now (.zaddNew key score member)).1 = wrongKind := by
    simp only [run, zaddNew, hs]
  exact Prod.ext hrefused (run_of_error hrefused)

/-- The keys after an expiry has been set on a key that holds a text. -/
def afterExpiry (s : Keys) (now : Int) (key value : String) (expiry : Nat) : Keys :=
  if timeLimit ≤ now + expiry then s
  else s.insert key { held := .text value, deadline := some (now + expiry) }

theorem run_pexpire_of_text (hs : s.live? now key = some { held := .text value, deadline })
    (expiry : Nat) :
    (s.run now (.pexpire key expiry)).2 = s.afterExpiry now key value expiry := by
  simp only [run, expire, hs, afterExpiry]
  split <;> rfl

/-- The second command of the transaction is run although the first one was refused. -/
theorem call_setAdd_of_text {now : Instant}
    (hs : s.live? now.toMillis (fullKey keyspace key) = some { held := .text value, deadline }) :
    s.call keyspace now (.setAdd key member d) =
      (.error (Fault.ofServer .refused "the server replied with an error"),
        s.afterExpiry now.toMillis (fullKey keyspace key) value (expiryMillis d)) := by
  have hadd := run_zaddNew_of_text hs now.toMillis member
  have hexpire := run_pexpire_of_text hs (expiryMillis d)
  simp only [call, Request.ofCall?, reply, runAll, hadd, hexpire]
  rfl

theorem get?_afterExpiry {name : String} (hname : key ≠ name) :
    (s.afterExpiry now key value expiry).get? name = s.get? name := by
  unfold afterExpiry
  split
  · rfl
  · rw [Keyed.get?_insert, if_neg hname]

theorem live?_afterExpiry (hs : s.live? now key = some { held := .text value, deadline })
    (hpos : 0 < expiry) : (s.afterExpiry now key value expiry).live? now key =
      some { held := .text value
             deadline := if timeLimit ≤ now + expiry then deadline else some (now + expiry) } := by
  unfold afterExpiry
  split
  · exact hs
  · have hlasts : Lasts { held := .text value, deadline := some (now + expiry) } now := by
      intro stop hstop
      cases hstop
      omega
    rw [live?_insert hlasts, if_pos rfl]

end Keys

theorem expiryMillis_pos (d : Duration) : 0 < expiryMillis d := by
  unfold expiryMillis
  omega

/-- Adding a member to a text fails on a server as it does in the store of one process, where it
changes nothing. On a server the text and all other keys stay as they are, but the text's expiry becomes
the one that was asked for the set, unless the server cannot hold that one. -/
theorem refused_setAdd {now : Instant} {slot : Slot} {value other : String} {deadline : Option Int}
    (member : String) (d : Duration) (hm : m.live? now key = some slot) (hv : slot.value = .text other)
    (hs : s.live? now.toMillis (fullKey keyspace key) = some { held := .text value, deadline }) :
    m.call now (.setAdd key member d) = (.error (Fault.wrongKindOfValue key), m) ∧
      ∃ f s', answered keyspace s now (.setAdd key member d) = (.error f, s') ∧
        f.code = .storeError ∧
        (∀ name, fullKey keyspace key ≠ name → s'.get? name = s.get? name) ∧
        (∃ stop, s'.live? now.toMillis (fullKey keyspace key) =
          some { held := .text value, deadline := stop }) ∧
        (s'.live? now.toMillis (fullKey keyspace key) =
            s.live? now.toMillis (fullKey keyspace key) ↔
          Keys.timeLimit ≤ now.toMillis + expiryMillis d ∨
            deadline = some (now.toMillis + expiryMillis d)) := by
  have hlive := Keys.live?_afterExpiry hs (expiryMillis_pos d)
  refine ⟨?_, _, _, (answered_eq _).trans (Keys.call_setAdd_of_text hs), rfl, ?_, ?_, ?_⟩
  · simp only [MemoryStore.call, MemoryStore.setAdd, hm, hv]
  · exact fun name hname => Keys.get?_afterExpiry hname
  · exact ⟨_, hlive⟩
  · rw [hlive, hs]
    split
    · next hlimit => simp [hlimit]
    · next hroom => simp [hroom, eq_comm]

/-- A set is to last an hour, as long as the text under its key does. -/
theorem refused_setAdd_of_same_expiry :
    let s : Keys :=
      Keyed.empty.insert "jobgate:lease" { held := .text "token", deadline := some 3600000 }
    let m : MemoryStore :=
      Keyed.empty.insert "lease" { value := .text "token", deadline := some ⟨3600, 0⟩ }
    let c : StoreCall := .setAdd "lease" "m" (Duration.ofSeconds 3600)
    m.call Instant.epoch c = (.error (Fault.wrongKindOfValue "lease"), m) ∧
      ∃ f s', answered "jobgate:" s Instant.epoch c = (.error f, s') ∧
        s'.live? 0 "jobgate:lease" = s.live? 0 "jobgate:lease" := by
  intro s m c
  obtain ⟨hm, f, s', hs, _, _, _, hsame⟩ := refused_setAdd "m" (Duration.ofSeconds 3600)
    (show m.live? Instant.epoch "lease" = some _ from rfl) rfl
    (show s.live? Instant.epoch.toMillis (fullKey "jobgate:" "lease") = some _ from rfl)
  exact ⟨hm, f, s', hs, hsame.mpr (Or.inr (by decide))⟩

/-- A lease that has an hour left is gone after the five seconds that were asked for a set. -/
theorem lease_lost_by_refused_setAdd :
    let s : Keys :=
      Keyed.empty.insert "jobgate:lease" { held := .text "token", deadline := some 3600000 }
    let m : MemoryStore :=
      Keyed.empty.insert "lease" { value := .text "token", deadline := some ⟨3600, 0⟩ }
    let c : StoreCall := .setAdd "lease" "m" (Duration.ofSeconds 5)
    m.call Instant.epoch c = (.error (Fault.wrongKindOfValue "lease"), m) ∧
      (∃ f, (answered "jobgate:" s Instant.epoch c).1 = .error f) ∧
      s.live? 5000 "jobgate:lease" =
        some { held := .text "token", deadline := some 3600000 } ∧
      (answered "jobgate:" s Instant.epoch c).2.live? 5000 "jobgate:lease" = none := by
  intro s m c
  exact ⟨rfl, ⟨_, rfl⟩, rfl, rfl⟩

end Turnstile.Server
