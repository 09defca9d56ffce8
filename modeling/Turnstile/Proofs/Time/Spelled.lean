import Mathlib.Tactic.Linarith
import Turnstile.Proofs.Text.Digits
import Turnstile.Time.Spelled

/-!
# Spelled-out durations read back

A duration is written as counts of units, from years down, and the counts add up to it. Each part is
read as its count of its unit, so the whole text is read as the duration again.
-/

namespace Turnstile.Spelled

open Text

/-! ### Parts -/

/-- A count of a unit with the word that is written for it. -/
structure Part where
  count : Nat
  unit : TimeUnit
  word : String

namespace Part

def text (p : Part) : String := toString p.count ++ p.word

def nanos (p : Part) : Nat := p.count * p.unit.size

/-- A part that is read as it is written. -/
structure Sound (p : Part) : Prop where
  named : TimeUnit.ofWord? p.word = some p.unit
  letters : ∀ c ∈ p.word.toList, isUnitChar c = true
  full : p.word.toList ≠ []
  small : p.unit.isSubsecond = true → p.nanos < 1000000000

end Part

/-- All parts of a duration, those that are zero included. -/
def partsOf (d : Duration) : List Part :=
  let ofYear := d.seconds % 31557600
  let ofMonth := ofYear % 2630016
  let ofDay := ofMonth % 86400
  let plural (count : Nat) (word : String) := if 1 < count then word ++ "s" else word
  [ ⟨d.seconds / 31557600, .year, plural (d.seconds / 31557600) "year"⟩,
    ⟨ofYear / 2630016, .month, plural (ofYear / 2630016) "month"⟩,
    ⟨ofMonth / 86400, .day, plural (ofMonth / 86400) "day"⟩,
    ⟨ofDay / 3600, .hour, "h"⟩, ⟨ofDay % 3600 / 60, .minute, "m"⟩, ⟨ofDay % 60, .second, "s"⟩,
    ⟨d.subsecNanos / 1000000, .millisecond, "ms"⟩,
    ⟨d.subsecNanos / 1000 % 1000, .microsecond, "us"⟩, ⟨d.subsecNanos % 1000, .nanosecond, "ns"⟩ ]

def shown (parts : List Part) : List Part := parts.filter fun p => 0 < p.count

def total (parts : List Part) : Nat := (parts.map Part.nanos).sum

variable {p : Part} {parts : List Part} {d e : Duration} {rest cs : List Char}

theorem map_text_shown_cons :
    (shown (p :: parts)).map Part.text = part p.count p.word ++ (shown parts).map Part.text := by
  unfold shown part
  by_cases h : p.count = 0
  · simp [h]
  · simp [h, Nat.pos_of_ne_zero h, Part.text]

theorem render_eq (h : d.isZero = false) :
    render d = join " " ((shown (partsOf d)).map Part.text) := by
  simp only [render, h, Bool.false_eq_true, if_false, partsOf, map_text_shown_cons, pluralPart,
    List.append_assoc]
  rw [show (shown []).map Part.text = [] from rfl, List.append_nil]

theorem total_shown (parts : List Part) : total (shown parts) = total parts := by
  induction parts with
  | nil => rfl
  | cons p rest ih =>
    by_cases h : p.count = 0
    · have hzero : p.nanos = 0 := by rw [Part.nanos, h, Nat.zero_mul]
      have hskip : shown (p :: rest) = shown rest := List.filter_cons_of_neg (by simp [h])
      rw [hskip, ih, total, total, List.map_cons, List.sum_cons, hzero, Nat.zero_add]
    · have hkeep : shown (p :: rest) = p :: shown rest :=
        List.filter_cons_of_pos (by simpa using Nat.pos_of_ne_zero h)
      rw [hkeep, total, List.map_cons, List.sum_cons, ← total, ih, total, total, List.map_cons,
        List.sum_cons]

theorem total_cons (count : Nat) (unit : TimeUnit) (word : String) :
    total (⟨count, unit, word⟩ :: parts) = count * unit.size + total parts := by
  rw [total, List.map_cons, List.sum_cons]
  rfl

/-- Whole seconds in years, months, days, hours, minutes and the rest. -/
theorem seconds_parts (s : Nat) :
    s / 31557600 * 31557600 + s % 31557600 / 2630016 * 2630016 +
      s % 31557600 % 2630016 / 86400 * 86400 + s % 31557600 % 2630016 % 86400 / 3600 * 3600 +
      s % 31557600 % 2630016 % 86400 % 3600 / 60 * 60 + s % 31557600 % 2630016 % 86400 % 60 = s := by
  omega

theorem total_partsOf (d : Duration) : total (partsOf d) = d.nanos := by
  have hnanos : d.subsecNanos / 1000000 * 1000000 + (d.subsecNanos / 1000 % 1000 * 1000 +
      d.subsecNanos % 1000) = d.subsecNanos := by omega
  have hwhole := d.seconds_add_subsecNanos
  have hseconds := seconds_parts d.seconds
  have hyear : TimeUnit.year.size = 31557600000000000 := rfl
  have hmonth : TimeUnit.month.size = 2630016000000000 := rfl
  have hday : TimeUnit.day.size = 86400000000000 := rfl
  have hhour : TimeUnit.hour.size = 3600000000000 := rfl
  have hminute : TimeUnit.minute.size = 60000000000 := rfl
  have hsecond : TimeUnit.second.size = 1000000000 := rfl
  have hmilli : TimeUnit.millisecond.size = 1000000 := rfl
  have hmicro : TimeUnit.microsecond.size = 1000 := rfl
  have hnano : TimeUnit.nanosecond.size = 1 := rfl
  have hnone : total [] = 0 := rfl
  simp only [partsOf, total_cons, hyear, hmonth, hday, hhour, hminute, hsecond, hmilli, hmicro, hnano,
    hnone]
  linarith

theorem sound_of_mem_partsOf (h : p ∈ partsOf d) : p.Sound := by
  have hlt : d.subsecNanos < 1000000000 := Nat.mod_lt _ (by decide)
  have hplural {count : Nat} {unit : TimeUnit} {word : String} (hone : Part.Sound ⟨count, unit, word⟩)
      (hmany : Part.Sound ⟨count, unit, word ++ "s"⟩) :
      Part.Sound ⟨count, unit, if 1 < count then word ++ "s" else word⟩ := by
    split
    · exact hmany
    · exact hone
  have hword {count : Nat} {unit : TimeUnit} {word : String} (hnamed : TimeUnit.ofWord? word = some unit)
      (hletters : word.toList.all isUnitChar = true) (hfull : word.toList ≠ [])
      (hsmall : unit.isSubsecond = true → count * unit.size < 1000000000) :
      Part.Sound ⟨count, unit, word⟩ := ⟨hnamed, List.all_eq_true.mp hletters, hfull, hsmall⟩
  simp only [partsOf, List.mem_cons, List.not_mem_nil, or_false] at h
  rcases h with rfl | rfl | rfl | rfl | rfl | rfl | rfl | rfl | rfl
  · exact hplural (hword (by decide) (by decide) (by decide) (by simp [TimeUnit.isSubsecond]))
      (hword (by decide) (by decide) (by decide) (by simp [TimeUnit.isSubsecond]))
  · exact hplural (hword (by decide) (by decide) (by decide) (by simp [TimeUnit.isSubsecond]))
      (hword (by decide) (by decide) (by decide) (by simp [TimeUnit.isSubsecond]))
  · exact hplural (hword (by decide) (by decide) (by decide) (by simp [TimeUnit.isSubsecond]))
      (hword (by decide) (by decide) (by decide) (by simp [TimeUnit.isSubsecond]))
  · exact hword (by decide) (by decide) (by decide) (by simp [TimeUnit.isSubsecond])
  · exact hword (by decide) (by decide) (by decide) (by simp [TimeUnit.isSubsecond])
  · exact hword (by decide) (by decide) (by decide) (by simp [TimeUnit.isSubsecond])
  · exact hword (by decide) (by decide) (by decide) fun _ => by simp only [TimeUnit.size]; omega
  · exact hword (by decide) (by decide) (by decide) fun _ => by simp only [TimeUnit.size]; omega
  · exact hword (by decide) (by decide) (by decide) fun _ => by simp only [TimeUnit.size]; omega

/-! ### Reading a part -/

theorem looseDigits_digits {digits : List Char} (hd : ∀ c ∈ digits, isDigit c = true)
    (hr : looseDigits rest = ([], rest)) : looseDigits (digits ++ rest) = (digits, rest) := by
  induction digits with
  | nil => exact hr
  | cons c more ih =>
    have hmore := ih fun d hd' => hd d (List.mem_cons_of_mem _ hd')
    simp only [List.cons_append, looseDigits, hd c List.mem_cons_self, if_true, hmore]

/-- What may follow a part: nothing, or a blank and the next part. -/
def Parted (rest : List Char) : Prop := rest = [] ∨ ∃ more, rest = ' ' :: more

theorem not_loose {c : Char} (h : isUnitChar c = true) : isDigit c = false ∧ isBlank c = false := by
  have hc : (97 ≤ c.toNat ∧ c.toNat ≤ 122) ∨ (65 ≤ c.toNat ∧ c.toNat ≤ 90) ∨ c.toNat = 181 := by
    simp only [isUnitChar, Bool.or_eq_true, Bool.and_eq_true, decide_eq_true_eq, beq_iff_eq,
      Char.le_def, UInt32.le_iff_toNat_le] at h
    rcases h with (h | h) | h
    · exact Or.inl h
    · exact Or.inr (Or.inl h)
    · exact Or.inr (Or.inr (congrArg Char.toNat h))
  constructor
  · rw [Bool.eq_false_iff]
    intro hd
    simp only [isDigit, Bool.and_eq_true, decide_eq_true_eq, Char.le_def,
      UInt32.le_iff_toNat_le] at hd
    have hhigh : c.toNat ≤ 57 := hd.2
    omega
  · simp only [isBlank, Bool.or_eq_false_iff, Bool.and_eq_false_iff, decide_eq_false_iff_not,
      beq_eq_false_iff_ne]
    omega

/-- The word of a part begins with a letter, whatever follows it. -/
theorem Part.Sound.exists_letter (h : p.Sound) (rest : List Char) :
    ∃ c more, p.word.toList ++ rest = c :: more ∧ isUnitChar c = true := by
  obtain ⟨c, more, hcons⟩ := List.exists_cons_of_ne_nil h.full
  exact ⟨c, more ++ rest, by rw [hcons, List.cons_append],
    h.letters c (hcons ▸ List.mem_cons_self)⟩

theorem head_count (count : Nat) (rest : List Char) :
    (Nat.toDigits 10 count ++ rest).head?.map isDigit = some true := by
  obtain ⟨c, more, hcons⟩ := List.exists_cons_of_ne_nil (Nat.toDigits_ne_nil (b := 10) (n := count))
  have hc : isDigit c = true := isDigit_of_mem_toDigits (hcons ▸ List.mem_cons_self)
  rw [hcons, List.cons_append, List.head?_cons, Option.map_some, hc]

theorem looseDigits_count (h : p.Sound) (rest : List Char) :
    looseDigits (Nat.toDigits 10 p.count ++ (p.word.toList ++ rest)) =
      (Nat.toDigits 10 p.count, p.word.toList ++ rest) := by
  obtain ⟨c, more, hcons, hc⟩ := h.exists_letter rest
  apply looseDigits_digits (fun _ hd => isDigit_of_mem_toDigits hd)
  rw [hcons, looseDigits, (not_loose hc).1, (not_loose hc).2]
  rfl

theorem fraction?_word (h : p.Sound) (rest : List Char) :
    fraction? (p.word.toList ++ rest) = some (none, p.word.toList ++ rest) := by
  obtain ⟨c, more, hcons, hc⟩ := h.exists_letter rest
  rw [hcons]
  unfold fraction?
  split
  · next heq =>
    cases heq
    cases hc
  · rfl

theorem span_word (h : p.Sound) (hrest : Parted rest) :
    (p.word.toList ++ rest).span isUnitChar = (p.word.toList, rest) := by
  apply span_append h.letters
  intro c hc
  rcases hrest with rfl | ⟨more, rfl⟩
  · cases hc
  · cases hc
    rfl

theorem amount?_text (h : p.Sound) (hrest : Parted rest) (hcount : p.count < 2 ^ 64) :
    amount? (p.text.toList ++ rest) =
      some ({ whole := p.count, fraction := none, unit := p.unit }, rest) := by
  have htext : p.text.toList ++ rest = Nat.toDigits 10 p.count ++ (p.word.toList ++ rest) := by
    rw [Part.text, String.toList_append, toList_toString_nat, List.append_assoc]
  have htrim : trimStart (Nat.toDigits 10 p.count ++ (p.word.toList ++ rest)) = _ :=
    trimStart_digits Nat.toDigits_ne_nil fun _ hd => isDigit_of_mem_toDigits hd
  have hend : ((rest.head?.map fun c => isDigit c || isBlank c).getD true) = true := by
    rcases hrest with rfl | ⟨more, rfl⟩ <;> rfl
  have hword : word? p.count = some p.count := if_pos hcount
  simp only [amount?, htext, htrim, head_count, looseDigits_count h, natOfDigits_toDigits, hword,
    fraction?_word h, span_word h hrest, h.named, hend, Option.getD_some, Option.bind_eq_bind,
    Option.bind_some, String.ofList_toList, guard, if_true]
  rfl

theorem le_max_iff {n : Nat} :
    n ≤ Duration.max.nanos ↔ n < 18446744073709551616 * 1000000000 := Nat.lt_succ_iff.symm

theorem add?_eq (e : Duration) (seconds nanos : Nat) (hnanos : nanos < 1000000000)
    (hfit : e.nanos + seconds * 1000000000 + nanos ≤ Duration.max.nanos) :
    add? e seconds nanos = some ⟨e.nanos + seconds * 1000000000 + nanos⟩ := by
  rw [le_max_iff] at hfit
  have hlimit : Nat.pow 2 64 = 18446744073709551616 := rfl
  have hwhole : e.seconds = e.nanos / 1000000000 := rfl
  have hsub : e.subsecNanos = e.nanos % 1000000000 := rfl
  have hfirst : word? (e.subsecNanos + nanos) = some (e.subsecNanos + nanos) :=
    if_pos (by rw [hlimit]; omega)
  have hsecond : word? (seconds + (e.subsecNanos + nanos) / 1000000000) =
      some (seconds + (e.subsecNanos + nanos) / 1000000000) := if_pos (by rw [hlimit]; omega)
  have hthird : word? (e.seconds + (seconds + (e.subsecNanos + nanos) / 1000000000)) =
      some (e.seconds + (seconds + (e.subsecNanos + nanos) / 1000000000)) :=
    if_pos (by rw [hlimit]; omega)
  clear hfit hlimit
  simp only [add?, hfirst, hsecond, hthird, Option.bind_eq_bind, Option.bind_some, Option.pure_def,
    Option.some.injEq, Duration.mk.injEq]
  omega

theorem addTo?_whole (e : Duration) (count : Nat) (unit : TimeUnit)
    (hsmall : unit.isSubsecond = true → count * unit.size < 1000000000)
    (hfit : e.nanos + count * unit.size ≤ Duration.max.nanos) :
    Amount.addTo? { whole := count, fraction := none, unit } e =
      some ⟨e.nanos + count * unit.size⟩ := by
  have hlimit : Nat.pow 2 64 = 18446744073709551616 := rfl
  cases hunit : unit.isSubsecond with
  | true =>
    have hword : word? (count * unit.size) = some (count * unit.size) :=
      if_pos (by have := hsmall hunit; rw [hlimit]; omega)
    have hadd := add?_eq e 0 _ (hsmall hunit) (by simpa using hfit)
    simp only [Amount.addTo?, Amount.wholePart?, hunit, if_true, hword]
    simpa using hadd
  | false =>
    have hsize : unit.size = unit.size / 1000000000 * 1000000000 := by
      cases unit <;> first | rfl | cases hunit
    have hcount : count * unit.size = count * (unit.size / 1000000000) * 1000000000 := by
      rw [Nat.mul_assoc, ← hsize]
    rw [hcount] at hfit ⊢
    have hword : word? (count * (unit.size / 1000000000)) = some (count * (unit.size / 1000000000)) :=
      if_pos (by
        have hfit' := le_max_iff.mp hfit
        rw [hlimit]
        omega)
    have hadd := add?_eq e (count * (unit.size / 1000000000)) 0 (by decide)
      (by simpa using hfit)
    simp only [Amount.addTo?, Amount.wholePart?, hunit, Bool.false_eq_true, if_false, hword]
    simpa using hadd

/-! ### Reading the whole text -/

/-- The text of parts with blanks between them. -/
def lineOf (parts : List Part) : List Char := [' '].intercalate (parts.map fun p => p.text.toList)

def restOf : List Part → List Char
  | [] => []
  | p :: parts => ' ' :: lineOf (p :: parts)

theorem lineOf_cons (p : Part) (parts : List Part) :
    lineOf (p :: parts) = p.text.toList ++ restOf parts := by
  cases parts <;> simp [lineOf, restOf]

theorem parted_restOf (parts : List Part) : Parted (restOf parts) := by
  cases parts with
  | nil => exact Or.inl rfl
  | cons p parts => exact Or.inr ⟨_, rfl⟩

theorem readGo_blank (e : Duration) (cs : List Char) (fuel : Nat) :
    readGo e (' ' :: cs) fuel = readGo e cs fuel := by
  cases fuel with
  | zero => rfl
  | succ fuel => rfl

theorem count_lt (hsound : p.Sound) (hfit : p.nanos ≤ Duration.max.nanos) : p.count < 2 ^ 64 := by
  have hlimit : 2 ^ 64 = 18446744073709551616 := rfl
  rw [le_max_iff, Part.nanos] at hfit
  rw [hlimit]
  cases hunit : p.unit.isSubsecond with
  | true =>
    have hsmall := hsound.small hunit
    have hsize : 1 ≤ p.unit.size := by cases p.unit <;> decide
    have hle := Nat.mul_le_mul_left p.count hsize
    rw [Part.nanos] at hsmall
    omega
  | false =>
    have hsize : 1000000000 ≤ p.unit.size := by
      cases hu : p.unit <;> rw [hu] at hunit <;> first | decide | cases hunit
    have hle := Nat.mul_le_mul_left p.count hsize
    omega

theorem trimStart_lineOf (p : Part) (parts : List Part) :
    (trimStart (lineOf (p :: parts))).isEmpty = false := by
  have hdigits := fun c => isDigit_of_mem_toDigits (c := c) (n := p.count)
  rw [lineOf_cons, Part.text, String.toList_append, toList_toString_nat, List.append_assoc,
    trimStart_digits Nat.toDigits_ne_nil hdigits, List.isEmpty_eq_false_iff]
  exact List.append_ne_nil_of_left_ne_nil Nat.toDigits_ne_nil _

theorem readGo_lineOf (e : Duration) (fuel : Nat) (hne : parts ≠ []) (hsound : ∀ p ∈ parts, p.Sound)
    (hfit : e.nanos + total parts ≤ Duration.max.nanos) (hfuel : parts.length ≤ fuel) :
    readGo e (lineOf parts) fuel = some ⟨e.nanos + total parts⟩ := by
  induction parts generalizing e fuel with
  | nil => exact absurd rfl hne
  | cons p rest ih =>
    obtain ⟨fuel, rfl⟩ : ∃ more, fuel = more + 1 := Nat.exists_eq_succ_of_ne_zero (by
      have := hfuel
      simp only [List.length_cons] at this
      omega)
    have htotal : total (p :: rest) = p.nanos + total rest := total_cons _ _ _
    rw [htotal] at hfit ⊢
    have hp := hsound p List.mem_cons_self
    have hamount := amount?_text hp (parted_restOf rest) (count_lt hp (by omega))
    have hadd := addTo?_whole e p.count p.unit hp.small
      (by rw [← Part.nanos]; omega)
    rw [lineOf_cons, readGo]
    simp only [hamount, hadd, Option.bind_eq_bind, Option.bind_some]
    cases rest with
    | nil => rfl
    | cons q rest =>
      have hmore : (trimStart (restOf (q :: rest))).isEmpty = false := trimStart_lineOf q rest
      have hnext := ih ⟨e.nanos + p.nanos⟩ fuel (List.cons_ne_nil _ _)
        (fun p' hp' => hsound p' (List.mem_cons_of_mem _ hp'))
        (by change e.nanos + p.nanos + total (q :: rest) ≤ _; omega)
        (by simpa using hfuel)
      rw [hmore, restOf, readGo_blank]
      simp only [Bool.false_eq_true, if_false]
      rw [← Part.nanos, hnext, Nat.add_assoc]

theorem two_le_length_text (hsound : p.Sound) : 2 ≤ p.text.toList.length := by
  have hdigits : 0 < (Nat.toDigits 10 p.count).length :=
    List.length_pos_iff.mpr Nat.toDigits_ne_nil
  have hword := List.length_pos_iff.mpr hsound.full
  rw [Part.text, String.toList_append, toList_toString_nat, List.length_append]
  omega

theorem length_lt_lineOf (hne : parts ≠ []) (hsound : ∀ p ∈ parts, p.Sound) :
    parts.length < (lineOf parts).length := by
  induction parts with
  | nil => exact absurd rfl hne
  | cons p rest ih =>
    have htwo := two_le_length_text (hsound p List.mem_cons_self)
    rw [lineOf_cons, List.length_append, List.length_cons]
    cases rest with
    | nil => exact Nat.lt_add_right _ htwo
    | cons q rest =>
      have hmore := ih (List.cons_ne_nil _ _) fun p' hp' => hsound p' (List.mem_cons_of_mem _ hp')
      have hblank : (restOf (q :: rest)).length = (lineOf (q :: rest)).length + 1 := rfl
      omega

theorem read?_render (h : d.nanos ≤ Duration.max.nanos) : read? (render d) = some d := by
  cases hzero : d.isZero with
  | true =>
    have hd : d = Duration.zero := by
      obtain ⟨n⟩ := d
      simpa [Duration.isZero, Duration.zero] using hzero
    subst hd
    decide
  | false =>
    have htotal : total (shown (partsOf d)) = d.nanos := by rw [total_shown, total_partsOf]
    have hsound : ∀ p ∈ shown (partsOf d), p.Sound := fun p hp =>
      sound_of_mem_partsOf (List.mem_filter.mp hp).1
    have hne : shown (partsOf d) ≠ [] := by
      intro hnil
      rw [hnil] at htotal
      rw [Duration.isZero, ← htotal] at hzero
      cases hzero
    have htext : (render d).toList = lineOf (shown (partsOf d)) := by
      rw [render_eq hzero, join, String.toList_intercalate, List.map_map, lineOf]
      rfl
    have hlength := length_lt_lineOf hne hsound
    have hlong : render d ≠ "0" := by
      intro hshort
      rw [← htext, hshort] at hlength
      have hone : "0".toList.length = 1 := rfl
      have hpos := List.length_pos_iff.mpr hne
      omega
    have hfit : Duration.zero.nanos + total (shown (partsOf d)) ≤ Duration.max.nanos := by
      rw [htotal]
      exact (Nat.zero_add _).symm ▸ h
    have hgo := readGo_lineOf Duration.zero ((render d).length + 1) hne hsound hfit (by
      rw [← htext, String.length_toList] at hlength
      omega)
    rw [read?, if_neg hlong, htext, hgo, htotal]
    exact congrArg some (congrArg Duration.mk (Nat.zero_add _))

/-! ### What is read -/

theorem add?_le {seconds nanos : Nat} (h : add? e seconds nanos = some d) :
    d.nanos ≤ Duration.max.nanos := by
  have hlimit : Nat.pow 2 64 = 18446744073709551616 := rfl
  simp only [add?, word?, Option.bind_eq_bind, Option.bind_eq_some_iff, Option.ite_none_right_eq_some,
    Option.some.injEq, Option.pure_def, hlimit] at h
  obtain ⟨n, -, s, -, t, ⟨ht, rfl⟩, rfl⟩ := h
  rw [le_max_iff]
  change (e.seconds + s) * 1000000000 + n % 1000000000 < _
  omega

theorem addTo?_le {a : Amount} (h : a.addTo? e = some d) : d.nanos ≤ Duration.max.nanos := by
  simp only [Amount.addTo?, Option.bind_eq_bind, Option.bind_eq_some_iff] at h
  obtain ⟨⟨seconds, nanos⟩, -, sum, hsum, hrest⟩ := h
  cases hfraction : a.fraction with
  | none =>
    rw [hfraction] at hrest
    cases hrest
    exact add?_le hsum
  | some digits =>
    simp only [hfraction, Option.bind_eq_some_iff] at hrest
    obtain ⟨⟨seconds', nanos'⟩, -, hlast⟩ := hrest
    exact add?_le hlast

theorem readGo_le {fuel : Nat} (h : readGo e cs fuel = some d) : d.nanos ≤ Duration.max.nanos := by
  induction fuel generalizing e cs with
  | zero => cases h
  | succ fuel ih =>
    simp only [readGo, Option.bind_eq_bind, Option.bind_eq_some_iff] at h
    obtain ⟨⟨a, rest⟩, -, sum, hsum, hrest⟩ := h
    split at hrest
    · cases hrest
      exact addTo?_le hsum
    · exact ih hrest

/-- A spelled-out duration that is read is read again from the text that is written for it. -/
theorem read?_render_of_read? {text : String} (h : read? text = some d) :
    read? (render d) = some d := by
  apply read?_render
  unfold read? at h
  split at h
  · cases h
    exact Nat.zero_le _
  · exact readGo_le h

end Turnstile.Spelled
