import Mathlib.Data.Nat.ModEq
import Turnstile.Proofs.Text.Digits
import Turnstile.Simulation.Machine

/-!
# Names of jobs

The ids that a lawful supply gives out are texts of hexadecimal digits. No two of them are equal until
the ids run out, and the status key of none is the key of a running set.
-/

namespace Turnstile

/-- The form in which ids are given out: twenty-four hexadecimal digits in lower case. -/
def Generated (id : String) : Prop :=
  id.toList.length = 24 ∧ ∀ c ∈ id.toList, ∃ d < 16, c = Text.hexDigit d

namespace Machine

/-- What is asked of a supply of names: its ids have their form, and until they run out no two numbers
share one. -/
class LawfulNames [Names] where
  /-- How many ids there are. -/
  idCount : Nat
  generated_jobIdOf (n : Nat) : Generated (jobIdOf n)
  jobIdOf_inj {a b : Nat} (ha : a < idCount) (hb : b < idCount) (h : jobIdOf a = jobIdOf b) : a = b

export LawfulNames (idCount generated_jobIdOf jobIdOf_inj)

instance lawful_spreadNames : LawfulNames where
  idCount := 2 ^ 96
  generated_jobIdOf n := by
    have hid : (jobIdOf n).toList = Text.hexDigits 24 _ := String.toList_ofList
    rw [Generated, hid]
    exact ⟨Text.length_hexDigits _ _, fun c hc => Text.mem_hexDigits hc⟩
  jobIdOf_inj {a b} ha hb h := by
    have hpow : (16 : Nat) ^ 24 = Nat.pow 2 96 := by decide
    have hdigits := Text.mod_eq_of_hexDigits (String.ofList_injective h)
    rw [hpow, Nat.mod_mod, Nat.mod_mod] at hdigits
    -- an odd factor can be cancelled
    have hcoprime : Nat.gcd (Nat.pow 2 96) 0x9e3779b97f4a7c15f39cc0605 = 1 := by decide +kernel
    have hmod : a + 1 ≡ b + 1 [MOD Nat.pow 2 96] :=
      Nat.ModEq.cancel_right_of_coprime hcoprime hdigits
    have hab : a ≡ b [MOD Nat.pow 2 96] := Nat.ModEq.add_right_cancel' 1 hmod
    exact Nat.ModEq.eq_of_lt_of_lt hab ha hb

end Machine

/-- The key of a running set ends in a letter that is no hexadecimal digit. -/
theorem RunningSet.keyOf_ne_append_digits (kind : String) {front digits : List Char}
    (hne : digits ≠ []) (hd : ∀ c ∈ digits, ∃ d < 16, c = Text.hexDigit d) :
    (keyOf kind).toList ≠ front ++ digits := by
  intro h
  have hlast := congrArg List.getLast? h
  have hrunning : ":running".toList.getLast? = some 'g' := by decide
  rw [keyOf, String.toList_append, List.getLast?_append, List.getLast?_append, hrunning,
    List.getLast?_eq_some_getLast hne, Option.some_or, Option.some_or] at hlast
  obtain ⟨d, hd, hc⟩ := hd _ (List.getLast_mem hne)
  have hall : ∀ d < 16, 'g' ≠ Text.hexDigit d := by decide
  exact hall d hd ((Option.some.inj hlast).trans hc)

theorem Generated.keyOf_ne {id : String} (h : Generated id) (kind : String) :
    RunningSet.keyOf kind ≠ Liveness.key id := by
  intro he
  have hne : id.toList ≠ [] := by
    refine List.ne_nil_of_length_pos ?_
    rw [h.1]
    decide
  have hkey := congrArg String.toList he
  rw [Liveness.key, String.toList_append] at hkey
  exact RunningSet.keyOf_ne_append_digits kind hne h.2 hkey

theorem Machine.keyOf_ne_livenessKey [Names] [LawfulNames] (kind : String) (n : Nat) :
    RunningSet.keyOf kind ≠ Liveness.key (jobIdOf n) := (generated_jobIdOf n).keyOf_ne kind

end Turnstile
