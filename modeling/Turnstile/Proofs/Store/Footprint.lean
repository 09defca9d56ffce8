import Turnstile.Proofs.Store.Refinement

/-!
# Stores that show the same under some keys

A call under a key sees nothing of other keys, so stores that show the same under some keys go on to
do so, and answer all calls under these keys alike.
-/

namespace Turnstile.MemoryStore

variable {s s' : MemoryStore} {now later : Instant} {key : String} {K : String → Bool}

/-- The same can be seen under some keys of two stores. -/
def Alike (K : String → Bool) (now : Instant) (s s' : MemoryStore) : Prop :=
  ∀ key, K key = true → s'.view now key = s.view now key

theorem Alike.of_le (h : Alike K now s s') (hn : now ≤ later) : Alike K later s s' := by
  intro key hk
  have hview := congrArg (Option.filter fun e => e.isLive later) (h key hk)
  rw [← upTo_view hn, ← upTo_view hn]
  exact hview

theorem view_call_ne (c : StoreCall) (h : c.key ≠ key) :
    (s.call now c).2.view now key = s.view now key :=
  congrArg (Option.map Slot.ideal) (call_live?_ne c h)

theorem Alike.call (h : Alike K now s s') (hs : s.Listed) (hs' : s'.Listed) (c : StoreCall) :
    Alike K now (s.call now c).2 (s'.call now c).2 := by
  intro key hk
  by_cases hkey : c.key = key
  · subst hkey
    rw [view_call_self hs, view_call_self hs', h c.key hk]
  · rw [view_call_ne c hkey, view_call_ne c hkey]
    exact h key hk

/-- Whatever calls are made, those under the keys are answered alike. -/
theorem Alike.replies (h : Alike K now s s') (hs : s.Listed) (hs' : s'.Listed)
    {calls : List TimedCall} (hf : Forward calls) (hn : From now calls) :
    ((replies MemoryStore.call s' calls).1.filter fun r => K r.call.key) =
      (replies MemoryStore.call s calls).1.filter fun r => K r.call.key := by
  -- Each call is made at its own time, so what is alike now has to be alike then.
  induction calls generalizing s s' now with
  | nil => rfl
  | cons e rest ih =>
    obtain ⟨t, c⟩ := e
    obtain ⟨hfrom, hrest⟩ := forward_cons.mp hf
    have ht := h.of_le (hn _ List.mem_cons_self)
    have hmore := ih (ht.call hs hs' c) (listed_call hs t c) (listed_call hs' t c) hrest hfrom
    simp only [Turnstile.replies, List.filter_cons]
    cases hk : K c.key with
    | false => exact hmore
    | true =>
      have hanswer : (s'.call t c).1 = (s.call t c).1 := by
        rw [answer_eq hs, answer_eq hs', ht c.key hk]
      rw [hanswer, hmore]

end Turnstile.MemoryStore
