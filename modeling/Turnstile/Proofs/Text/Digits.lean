import Mathlib.Algebra.Group.Nat.Defs
import Mathlib.Data.List.Induction
import Mathlib.Data.List.TakeDrop
import Turnstile.Text.Blank
import Turnstile.Text.Scan

/-!
# Digits read back

Numbers that are written in decimal digits, with zeros in front or with a sign, are read as what they
were. Numbers with the same hexadecimal digits are equal as far as these reach.
-/

namespace Turnstile.Text

variable {c : Char} {n width : Nat}

theorem isDigit_of_mem_toDigits (h : c ∈ Nat.toDigits 10 n) : isDigit c = true :=
  Nat.isDigit_of_mem_toDigits (by decide) (by decide) h

theorem natOfDigits_eq (cs : List Char) : natOfDigits cs = Nat.ofDigitChars 10 cs 0 := rfl

theorem natOfDigits_toDigits (n : Nat) : natOfDigits (Nat.toDigits 10 n) = n :=
  Nat.ofDigitChars_ten_toDigits

theorem all_isDigit_toDigits (n : Nat) : (Nat.toDigits 10 n).all isDigit = true :=
  List.all_eq_true.mpr fun _ hc => isDigit_of_mem_toDigits hc

theorem isEmpty_toDigits (n : Nat) : (Nat.toDigits 10 n).isEmpty = false :=
  List.isEmpty_eq_false_iff.mpr Nat.toDigits_ne_nil

theorem toList_toString_nat (n : Nat) : (toString n).toList = Nat.toDigits 10 n := by
  rw [Nat.toString_eq_repr, Nat.toList_repr]

theorem digitValue_lt (h : isDigit c = true) : digitValue c < 10 := by
  simp only [isDigit, Bool.and_eq_true, decide_eq_true_eq, Char.le_def, UInt32.le_iff_toNat_le] at h
  have hhigh : c.toNat ≤ 57 := h.2
  have hzero : '0'.toNat = 48 := rfl
  rw [digitValue, hzero]
  omega

theorem natOfDigits_append_singleton (cs : List Char) (c : Char) :
    natOfDigits (cs ++ [c]) = 10 * natOfDigits cs + digitValue c := by
  rw [natOfDigits, List.foldl_append]
  rfl

theorem natOfDigits_lt {cs : List Char} (h : ∀ c ∈ cs, isDigit c = true) :
    natOfDigits cs < 10 ^ cs.length := by
  induction cs using List.reverseRecOn with
  | nil => exact Nat.one_pos
  | append_singleton cs c ih =>
    have hmore := ih fun d hd => h d (List.mem_append_left _ hd)
    have hc := digitValue_lt (h c (List.mem_append_right _ List.mem_cons_self))
    rw [natOfDigits_append_singleton, List.length_append, List.length_singleton, pow_succ]
    omega

/-! ### Zeros in front -/

theorem toList_padZeros (width n : Nat) : (padZeros width n).toList =
    List.replicate (width - (Nat.toDigits 10 n).length) '0' ++ Nat.toDigits 10 n := by
  have hlength : (toString n).length = (Nat.toDigits 10 n).length := by
    rw [← String.length_toList, toList_toString_nat]
  simp only [padZeros, String.toList_append, String.toList_ofList, hlength, toList_toString_nat]

theorem length_padZeros (hwidth : 0 < width) (hn : n < 10 ^ width) :
    (padZeros width n).toList.length = width := by
  have hle := (Nat.length_toDigits_le_iff (b := 10) (by decide) hwidth).mpr hn
  rw [toList_padZeros, List.length_append, List.length_replicate]
  omega

theorem isDigit_of_mem_padZeros (h : c ∈ (padZeros width n).toList) : isDigit c = true := by
  rw [toList_padZeros] at h
  rcases List.mem_append.mp h with hzero | hdigit
  · obtain rfl := List.eq_of_mem_replicate hzero
    rfl
  · exact isDigit_of_mem_toDigits hdigit

theorem natOfDigits_padZeros (width n : Nat) : natOfDigits (padZeros width n).toList = n := by
  rw [toList_padZeros, natOfDigits_eq, Nat.ofDigitChars_append, Nat.ofDigitChars_replicate_zero,
    Nat.mul_zero]
  exact natOfDigits_toDigits n

/-! ### Words -/

theorem toDigits_ne_cons (hc : isDigit c = false) (n : Nat) (r : List Char) :
    Nat.toDigits 10 n ≠ c :: r := by
  intro h
  have hd : isDigit c = true := isDigit_of_mem_toDigits (n := n) (h ▸ List.mem_cons_self)
  rw [hc] at hd
  cases hd

theorem readUnsigned?_toString (h : n < 2 ^ width) : readUnsigned? width (toString n) = some n := by
  unfold readUnsigned?
  rw [toList_toString_nat]
  dsimp only
  split
  · next r hr => exact absurd hr (toDigits_ne_cons rfl n r)
  · rw [isEmpty_toDigits, all_isDigit_toDigits, natOfDigits_toDigits]
    exact if_pos h

theorem readSigned?_toString {n : Int} (h : n.natAbs < 2 ^ (width - 1)) :
    readSigned? width (toString n) = some n := by
  unfold readSigned?
  rw [Int.toString_eq_repr, Int.repr_eq_if]
  by_cases hpos : 0 ≤ n
  · have hn : n.toNat < 2 ^ (width - 1) := by omega
    rw [if_pos hpos, Nat.toList_repr]
    split
    · next negative digits hmatch =>
      split at hmatch
      · next r hr => exact absurd hr (toDigits_ne_cons rfl n.toNat r)
      · next r hr => exact absurd hr (toDigits_ne_cons rfl n.toNat r)
      · cases hmatch
        rw [isEmpty_toDigits, all_isDigit_toDigits, natOfDigits_toDigits]
        simp [hn, Int.toNat_of_nonneg hpos]
  · have hn : (-n).toNat ≤ 2 ^ (width - 1) := by omega
    have hneg : -((-n).toNat : Int) = n := by omega
    have hdigits : ∀ c ∈ Nat.toDigits 10 (-n).toNat, isDigit c = true :=
      fun c hc => isDigit_of_mem_toDigits hc
    generalize (-n).toNat = k at *
    rw [if_neg hpos, String.toList_append, Nat.toList_repr]
    simpa [Nat.toDigits_ne_nil, natOfDigits_toDigits, hn, hneg] using hdigits

/-! ### In front of other text -/

variable {cs digits rest : List Char}

theorem isBlank_of_isDigit (h : isDigit c = true) : isBlank c = false := by
  simp only [isDigit, Bool.and_eq_true, decide_eq_true_eq, Char.le_def, UInt32.le_iff_toNat_le] at h
  have hlow : 48 ≤ c.toNat := h.1
  have hhigh : c.toNat ≤ 57 := h.2
  simp only [isBlank, Bool.or_eq_false_iff, Bool.and_eq_false_iff, decide_eq_false_iff_not,
    beq_eq_false_iff_ne]
  omega

theorem trimStart_cons (h : isBlank c = false) : trimStart (c :: cs) = c :: cs := by
  rw [trimStart, List.dropWhile_cons, h]
  rfl

theorem trimStart_digits (hne : digits ≠ []) (hd : ∀ c ∈ digits, isDigit c = true) :
    trimStart (digits ++ rest) = digits ++ rest := by
  cases digits with
  | nil => exact absurd rfl hne
  | cons c more => exact trimStart_cons (isBlank_of_isDigit (hd c List.mem_cons_self))

theorem span_append {α : Type} {p : α → Bool} {front rest : List α} (hf : ∀ a ∈ front, p a = true)
    (hr : ∀ a, rest.head? = some a → p a = false) : (front ++ rest).span p = (front, rest) := by
  have hnone : rest.takeWhile p = [] ∧ rest.dropWhile p = rest := by
    cases rest with
    | nil => exact ⟨rfl, rfl⟩
    | cons a more => simp [hr a rfl]
  rw [List.span_eq_takeWhile_dropWhile, List.takeWhile_append_of_pos hf,
    List.dropWhile_append_of_pos hf, hnone.1, hnone.2, List.append_nil]

/-- A number is told by its digits, and where they end, if no digit follows. -/
theorem toString_append_inj {n m : Nat} {r s : List Char}
    (hr : ∀ c, r.head? = some c → isDigit c = false) (hs : ∀ c, s.head? = some c → isDigit c = false)
    (h : (toString n).toList ++ r = (toString m).toList ++ s) : n = m ∧ r = s := by
  rw [toList_toString_nat, toList_toString_nat] at h
  have hspan := congrArg (List.span isDigit) h
  rw [span_append (fun _ => isDigit_of_mem_toDigits) hr,
    span_append (fun _ => isDigit_of_mem_toDigits) hs] at hspan
  obtain ⟨hdigits, hrs⟩ := Prod.mk.inj hspan
  exact ⟨by rw [← natOfDigits_toDigits n, hdigits, natOfDigits_toDigits], hrs⟩

/-! ### Hexadecimal digits -/

theorem hexDigit_inj {a b : Nat} (ha : a < 16) (hb : b < 16) (h : hexDigit a = hexDigit b) :
    a = b := by
  have hall : ∀ a < 16, ∀ b < 16, hexDigit a = hexDigit b → a = b := by decide
  exact hall a ha b hb h

theorem hexDigits_succ (count n : Nat) :
    hexDigits (count + 1) n = hexDigit (n / 16 ^ count % 16) :: hexDigits count n := by
  simp only [hexDigits, List.range_succ, List.reverse_append, List.reverse_singleton,
    List.singleton_append, List.map_cons]
  rfl

theorem mod_eq_of_hexDigits {count a b : Nat} (h : hexDigits count a = hexDigits count b) :
    a % 16 ^ count = b % 16 ^ count := by
  induction count with
  | zero => rw [pow_zero, Nat.mod_one, Nat.mod_one]
  | succ count ih =>
    rw [hexDigits_succ, hexDigits_succ] at h
    obtain ⟨hdigit, hrest⟩ := List.cons.inj h
    have hlow := ih hrest
    have hhigh := hexDigit_inj (Nat.mod_lt _ (by decide)) (Nat.mod_lt _ (by decide)) hdigit
    rw [Nat.mod_pow_succ, Nat.mod_pow_succ, hlow, hhigh]

theorem length_hexDigits (count n : Nat) : (hexDigits count n).length = count := by
  simp only [hexDigits, List.length_map, List.length_reverse, List.length_range]

theorem mem_hexDigits {count n : Nat} {c : Char} (h : c ∈ hexDigits count n) :
    ∃ d < 16, c = hexDigit d := by
  obtain ⟨i, _, rfl⟩ := List.mem_map.mp h
  exact ⟨_, Nat.mod_lt _ (by decide), rfl⟩

end Turnstile.Text
