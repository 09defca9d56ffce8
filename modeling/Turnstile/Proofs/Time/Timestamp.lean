import Mathlib.Data.List.TakeWhile
import Turnstile.Proofs.Text.Digits
import Turnstile.Proofs.Time.Calendar
import Turnstile.Time.Timestamp

/-!
# Timestamps read back

A timestamp that is read names an instant that is told by its text: the text that is written for it
is read as the same instant, whatever offset or spelling was read before.
-/

namespace Turnstile

/-- Instants that a timestamp can name: a leap second is the last one of a minute. -/
structure Instant.Named (t : Instant) : Prop where
  first : Instant.firstSecond ≤ t.second
  last : t.second ≤ Instant.lastSecond
  nano : t.nano < 2000000000
  leap : 1000000000 ≤ t.nano → t.second % 60 = 59

namespace Timestamp

open Text

variable {c : Char} {n width : Nat} {rest cs : List Char}

/-! ### Parts -/

theorem number?_padZeros (hwidth : 0 < width) (h : n < 10 ^ width) :
    number? width ((padZeros width n).toList ++ rest) = some (n, rest) := by
  have hlength := length_padZeros hwidth h
  have hdigits : ∀ c ∈ (padZeros width n).toList, isDigit c = true := fun c => isDigit_of_mem_padZeros
  have hne : (padZeros width n).toList ≠ [] := by
    intro hnil
    rw [hnil] at hlength
    exact absurd hlength.symm (Nat.ne_of_gt hwidth)
  have htake : ((padZeros width n).toList ++ rest).take width = (padZeros width n).toList :=
    List.take_left' hlength
  have hall : (padZeros width n).toList.takeWhile isDigit = (padZeros width n).toList :=
    List.takeWhile_eq_self_iff.mpr hdigits
  have hempty : (padZeros width n).toList.isEmpty = false := List.isEmpty_eq_false_iff.mpr hne
  simp only [number?, trimStart_digits hne hdigits, htake, hall, hempty, Bool.false_eq_true, if_false,
    natOfDigits_padZeros, List.drop_left]

theorem mark?_cons (h : isBlank c = false) : mark? c (c :: rest) = some rest := by
  simp only [mark?, trimStart_cons h, if_true]

theorem spanDigits_padZeros (hc : isDigit c = false) :
    spanDigits ((padZeros width n).toList ++ c :: rest) = ((padZeros width n).toList, c :: rest) := by
  apply span_append
  · exact fun c => isDigit_of_mem_padZeros
  · intro d hd
    cases hd
    exact hc

theorem padZeros_ne_nil (width n : Nat) : (padZeros width n).toList ≠ [] := by
  rw [toList_padZeros]
  exact List.append_ne_nil_of_right_ne_nil _ Nat.toDigits_ne_nil

/-- A year of at most four digits has no sign. -/
theorem year?_of_digits {digits : List Char} (hne : digits ≠ [])
    (hd : ∀ c ∈ digits, isDigit c = true) :
    year? (digits ++ rest) = (number? 4 (digits ++ rest)).map fun p => ((p.1 : Int), p.2) := by
  obtain ⟨c, more, rfl⟩ := List.exists_cons_of_ne_nil hne
  have hc := hd c List.mem_cons_self
  unfold year?
  rw [trimStart_digits hne hd, List.cons_append]
  split
  · next heq =>
    cases heq
    cases hc
  · next heq =>
    cases heq
    cases hc
  · rfl

theorem year?_minus (n : Nat) :
    year? ('-' :: ((padZeros 4 n).toList ++ '-' :: rest)) = some (-(n : Int), '-' :: rest) := by
  have hempty := List.isEmpty_eq_false_iff.mpr (padZeros_ne_nil 4 n)
  unfold year?
  rw [trimStart_cons rfl]
  simp only [spanDigits_padZeros (c := '-') rfl, hempty, Bool.false_eq_true, if_false,
    natOfDigits_padZeros]

theorem year?_plus (n : Nat) :
    year? ('+' :: ((padZeros 4 n).toList ++ '-' :: rest)) = some ((n : Int), '-' :: rest) := by
  have hempty := List.isEmpty_eq_false_iff.mpr (padZeros_ne_nil 4 n)
  unfold year?
  rw [trimStart_cons rfl]
  simp only [spanDigits_padZeros (c := '-') rfl, hempty, Bool.false_eq_true, if_false,
    natOfDigits_padZeros]

theorem year?_yearText (y : Int) :
    year? ((yearText y).toList ++ '-' :: rest) = some (y, '-' :: rest) := by
  unfold yearText
  split
  · next hy =>
    have hfour : y.toNat < 10 ^ 4 := by omega
    rw [year?_of_digits (padZeros_ne_nil _ _) fun c => isDigit_of_mem_padZeros,
      number?_padZeros (by decide) hfour, Option.map_some]
    simp only [Int.toNat_of_nonneg hy.1]
  · rw [String.toList_append, List.append_assoc]
    by_cases hneg : y < 0
    · have hvalue : -(y.natAbs : Int) = y := by omega
      have hsign : "-".toList = ['-'] := rfl
      rw [if_pos hneg, hsign, List.singleton_append, year?_minus, hvalue]
    · have hvalue : (y.natAbs : Int) = y := by omega
      have hsign : "+".toList = ['+'] := rfl
      rw [if_neg hneg, hsign, List.singleton_append, year?_plus, hvalue]

/-- A fraction of three, six or nine digits. -/
theorem fraction?_padZeros (hwidth : 0 < width) (hnine : width ≤ 9) (h : n < 10 ^ width) :
    fraction? ('.' :: ((padZeros width n).toList ++ 'Z' :: rest)) =
      some (n * 10 ^ (9 - width), 'Z' :: rest) := by
  have hlength := length_padZeros hwidth h
  have hempty := List.isEmpty_eq_false_iff.mpr (padZeros_ne_nil width n)
  have htake : (padZeros width n).toList.take 9 = (padZeros width n).toList :=
    List.take_of_length_le (by omega)
  have hspan : spanDigits ((padZeros width n).toList ++ 'Z' :: rest) =
      ((padZeros width n).toList, 'Z' :: rest) := spanDigits_padZeros rfl
  simp only [fraction?, hspan, hempty,
    Bool.false_eq_true, if_false, htake, natOfDigits_padZeros, hlength, Nat.pow_eq]

theorem fraction?_fractionText {nano : Nat} (h : nano < 1000000000) :
    fraction? ((fractionText nano).toList ++ 'Z' :: rest) = some (nano, 'Z' :: rest) := by
  have hpoint : ".".toList = ['.'] := rfl
  unfold fractionText
  split
  · next hzero =>
    subst hzero
    rfl
  split
  · have hwhole : nano / 1000000 * 10 ^ (9 - 3) = nano := by omega
    rw [String.toList_append, List.append_assoc, hpoint, List.singleton_append,
      fraction?_padZeros (by decide) (by decide) (by omega), hwhole]
  split
  · have hwhole : nano / 1000 * 10 ^ (9 - 6) = nano := by omega
    rw [String.toList_append, List.append_assoc, hpoint, List.singleton_append,
      fraction?_padZeros (by decide) (by decide) (by omega), hwhole]
  · rw [String.toList_append, List.append_assoc, hpoint, List.singleton_append,
      fraction?_padZeros (by decide) (by decide) (by omega)]
    simp

/-! ### Whole timestamps -/

/-- The time of day that is written for an instant. -/
def timeOf (t : Instant) : TimeOfDay :=
  { hour := (t.second % 86400).toNat / 3600
    minute := (t.second % 86400).toNat % 3600 / 60
    second := (t.second % 86400).toNat % 60 + if t.isLeap then 1 else 0
    nano := if t.isLeap then t.nano - 1000000000 else t.nano }

theorem render_toList (t : Instant) : (render t).toList =
    (yearText (Calendar.dateOfDays (t.second / 86400)).year).toList ++ '-' ::
      ((padZeros 2 (Calendar.dateOfDays (t.second / 86400)).month).toList ++ '-' ::
        ((padZeros 2 (Calendar.dateOfDays (t.second / 86400)).day).toList ++ 'T' ::
          ((padZeros 2 (timeOf t).hour).toList ++ ':' ::
            ((padZeros 2 (timeOf t).minute).toList ++ ':' ::
              ((padZeros 2 (timeOf t).second).toList ++
                ((fractionText (timeOf t).nano).toList ++ ['Z'])))))) := by
  simp only [render, renderWith, timeOf, String.toList_append]
  simp [List.append_assoc]

section

variable {date : Calendar.Date} {hour minute second nano : Nat}

theorem date?_rendered (hmonth : date.month < 100) (hday : date.day < 100) :
    date? ((yearText date.year).toList ++ '-' :: ((padZeros 2 date.month).toList ++ '-' ::
      ((padZeros 2 date.day).toList ++ rest))) = some (date, rest) := by
  have htwo : 0 < 2 := by decide
  simp only [date?, year?_yearText, Option.bind_eq_bind, Option.bind_some, mark?_cons (c := '-') rfl,
    number?_padZeros htwo hmonth, number?_padZeros htwo hday]

theorem timeOfDay?_rendered (rest : List Char) (hhour : hour < 100) (hminute : minute < 100) (hsecond : second < 100)
    (hnano : nano < 1000000000) :
    timeOfDay? ((padZeros 2 hour).toList ++ ':' :: ((padZeros 2 minute).toList ++ ':' ::
      ((padZeros 2 second).toList ++ ((fractionText nano).toList ++ 'Z' :: rest)))) =
      some ({ hour, minute, second, nano }, 'Z' :: rest) := by
  have htwo : 0 < 2 := by decide
  simp only [timeOfDay?, Option.bind_eq_bind, Option.bind_some, mark?_cons (c := ':') rfl,
    number?_padZeros htwo hhour, number?_padZeros htwo hminute, number?_padZeros htwo hsecond,
    fraction?_fractionText hnano]

end

theorem timeOf_bounds {t : Instant} (h : t.Named) :
    (timeOf t).hour ≤ 23 ∧ (timeOf t).minute ≤ 59 ∧ (timeOf t).second ≤ 60 ∧
      (timeOf t).nano < 1000000000 := by
  obtain ⟨-, -, hnano, hleap⟩ := h
  simp only [timeOf, Instant.isLeap, decide_eq_true_eq]
  split <;> omega

theorem instantAt?_dateOfDays {t : Instant} (h : t.Named) :
    instantAt? (Calendar.dateOfDays (t.second / 86400)) (timeOf t) 0 = some t := by
  obtain ⟨hhour, hminute, hsecond, -⟩ := timeOf_bounds h
  obtain ⟨hfirst, hlast, hnano, hleap⟩ := h
  have hyear := Calendar.year_dateOfDays (t.second / 86400)
    (by simp only [Instant.firstSecond] at hfirst; omega)
    (by simp only [Instant.lastSecond] at hlast; omega)
  have hvalid := Calendar.valid_dateOfDays (t.second / 86400)
  have htotal : t.second / 86400 * 86400 + (((timeOf t).hour * 3600 + (timeOf t).minute * 60 +
      if (timeOf t).second = 60 then 59 else (timeOf t).second : Nat) : Int) - 0 = t.second := by
    simp only [timeOf, Instant.isLeap, decide_eq_true_eq]
    split <;> split <;> omega
  have hwhole : (if (timeOf t).second = 60 then (timeOf t).nano + 1000000000 else (timeOf t).nano) =
      t.nano := by
    simp only [timeOf, Instant.isLeap, decide_eq_true_eq]
    split <;> split <;> omega
  simp only [instantAt?, Calendar.daysFromDate_dateOfDays, htotal, hwhole]
  exact if_pos ⟨⟨hyear.1, hyear.2, hvalid⟩, ⟨hhour, hminute, hsecond⟩, by decide, hfirst, hlast⟩

/-- The text that is written for an instant is read as it. -/
theorem read?_render {t : Instant} (h : t.Named) : read? (render t) = some t := by
  obtain ⟨hhour, hminute, hsecond, hnano⟩ := timeOf_bounds h
  have hinstant := instantAt?_dateOfDays h
  obtain ⟨date, hdate⟩ : ∃ date, Calendar.dateOfDays (t.second / 86400) = date := ⟨_, rfl⟩
  have hvalid := Calendar.valid_dateOfDays (t.second / 86400)
  rw [hdate] at hvalid hinstant
  have hmonth : date.month < 100 := by
    have := hvalid.2.1
    omega
  have hday : date.day < 100 := by
    have hle := hvalid.2.2.2
    unfold Calendar.monthLength at hle
    split at hle
    · split at hle <;> omega
    · split at hle <;> omega
  have htime := timeOfDay?_rendered [] (Nat.lt_of_le_of_lt hhour (by decide))
    (Nat.lt_of_le_of_lt hminute (by decide)) (Nat.lt_of_le_of_lt hsecond (by decide)) hnano
  have hzone : offset? (trimStart ['Z']) = some (0, []) := by
    rw [trimStart_cons rfl]
    rfl
  unfold read?
  rw [render_toList, hdate, date?_rendered hmonth hday]
  simp only [Option.bind_eq_bind, Option.bind_some, separator?, htime, hzone]
  exact hinstant

/-! ### What is read -/

theorem fraction?_lt {nano : Nat} (h : fraction? cs = some (nano, rest)) : nano < 1000000000 := by
  unfold fraction? at h
  split at h
  · next r =>
    simp only [Option.ite_none_left_eq_some, Option.some.injEq, Prod.mk.injEq] at h
    obtain ⟨-, rfl, -⟩ := h
    obtain ⟨nine, hnine⟩ : ∃ nine, (spanDigits r).1.take 9 = nine := ⟨_, rfl⟩
    have hdigits : ∀ c ∈ nine, isDigit c = true := by
      intro c hc
      rw [← hnine, spanDigits, List.span_eq_takeWhile_dropWhile] at hc
      exact List.mem_takeWhile_imp (List.mem_of_mem_take hc)
    have hlength : nine.length ≤ 9 := hnine ▸ List.length_take_le 9 _
    have hlt := natOfDigits_lt hdigits
    rw [hnine, Nat.pow_eq]
    calc natOfDigits nine * 10 ^ (9 - nine.length)
        < 10 ^ nine.length * 10 ^ (9 - nine.length) := Nat.mul_lt_mul_of_pos_right hlt (by positivity)
      _ = 10 ^ 9 := by rw [← pow_add, Nat.add_sub_of_le hlength]
  · cases h
    decide

theorem offsetSize?_minutes {offset : Int} (h : offsetSize? cs = some (offset, rest)) :
    offset % 60 = 0 := by
  unfold offsetSize? at h
  split at h
  · split at h
    · split at h
      · split at h
        · cases h
          omega
        · cases h
      · cases h
    · cases h
  · cases h

theorem offset?_minutes {offset : Int} (h : offset? cs = some (offset, rest)) : offset % 60 = 0 := by
  have hneg {r : List Char} (hr : (offsetSize? r).map (fun p => (-p.1, p.2)) = some (offset, rest)) :
      offset % 60 = 0 := by
    obtain ⟨⟨size, more⟩, hsize, heq⟩ := Option.map_eq_some_iff.mp hr
    cases heq
    have := offsetSize?_minutes hsize
    omega
  unfold offset? at h
  split at h
  · cases h
    rfl
  · cases h
    rfl
  · exact offsetSize?_minutes h
  · exact hneg h
  · exact hneg h
  · split at h
    · cases h
      rfl
    · cases h
  · cases h

theorem named_of_instantAt? {date : Calendar.Date} {time : TimeOfDay} {offset : Int} {t : Instant}
    (hnano : time.nano < 1000000000) (hoffset : offset % 60 = 0)
    (h : instantAt? date time offset = some t) : t.Named := by
  simp only [instantAt?, Option.ite_none_right_eq_some, Option.some.injEq] at h
  obtain ⟨⟨-, -, -, hfirst, hlast⟩, rfl⟩ := h
  refine ⟨hfirst, hlast, ?_, ?_⟩
  · simp only
    split <;> omega
  · simp only
    split <;> omega

theorem named_of_read? {text : String} {t : Instant} (h : read? text = some t) : t.Named := by
  simp only [read?, Option.bind_eq_bind, Option.bind_eq_some_iff] at h
  obtain ⟨⟨date, afterDate⟩, -, afterMark, -, ⟨time, afterTime⟩, htime, ⟨offset, afterZone⟩, hoffset,
    -, -, hinstant⟩ := h
  have hnano : time.nano < 1000000000 := by
    simp only [timeOfDay?, Option.bind_eq_bind, Option.bind_eq_some_iff] at htime
    obtain ⟨⟨hour, _⟩, -, _, -, ⟨minute, _⟩, -, _, -, ⟨second, _⟩, -, ⟨nano, _⟩, hfraction, heq⟩ :=
      htime
    cases heq
    exact fraction?_lt hfraction
  exact named_of_instantAt? hnano (offset?_minutes hoffset) hinstant

/-- A timestamp that is read is read again from the text that is written for it. -/
theorem read?_render_of_read? {text : String} {t : Instant} (h : read? text = some t) :
    read? (render t) = some t := read?_render (named_of_read? h)

end Timestamp

end Turnstile
