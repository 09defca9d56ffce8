import Mathlib.Data.List.Basic
import Std.Data.String.ToInt
import Turnstile.Json.Printer
import Turnstile.Proofs.Json.Alike

/-!
# Texts that are read in one way

The compact text of a value says where it ends and which value it is: two values with texts that begin
one text are the same value, provided that doubles with one text are equal.
-/

namespace Turnstile.Json

variable {r s t u : List Char} {c d : Char}

/-! ### Characters of strings -/

/-- Characters that are not written as themselves. -/
def escapedChars : List Char := '"' :: '\\' :: (List.range 32).map Char.ofNat

theorem escapeChar_of_plain (h : c ∉ escapedChars) : escapeChar c = [c] := by
  have hquote : c ≠ '"' := fun he => h (he ▸ List.mem_cons_self)
  have hslash : c ≠ '\\' := fun he => h (he ▸ List.mem_cons_of_mem _ List.mem_cons_self)
  have hseen : 0x20 ≤ c.toNat := by
    by_contra hlow
    refine h (List.mem_cons_of_mem _ (List.mem_cons_of_mem _ ?_))
    exact List.mem_map.mpr ⟨c.toNat, by simpa using hlow, Char.ofNat_toNat c⟩
  simp only [escapeChar, hquote, hslash, hseen, if_true, if_false]

/-- An escape is a backslash, one more character, and then neither quotes nor backslashes. -/
theorem escapeChar_of_escaped (h : c ∈ escapedChars) :
    ∃ x rest, escapeChar c = '\\' :: x :: rest ∧ ∀ y ∈ rest, y ≠ '"' ∧ y ≠ '\\' := by
  have hall : escapedChars.all fun c => (escapeChar c).head? = some '\\' ∧
      2 ≤ (escapeChar c).length ∧ ((escapeChar c).drop 2).all fun y => y ≠ '"' ∧ y ≠ '\\' := by
    decide +kernel
  obtain ⟨hhead, hlength, hrest⟩ := of_decide_eq_true (List.all_eq_true.mp hall c h)
  match escapeChar c, hhead, hlength, hrest with
  | x :: y :: rest, hhead, _, hrest =>
    obtain rfl : x = '\\' := Option.some.inj hhead
    exact ⟨y, rest, rfl, fun z hz => of_decide_eq_true (List.all_eq_true.mp hrest z hz)⟩

theorem head_escapeChar (c : Char) : ∃ x rest, escapeChar c = x :: rest ∧ x ≠ '"' := by
  by_cases h : c ∈ escapedChars
  · obtain ⟨x, rest, he, _⟩ := escapeChar_of_escaped h
    exact ⟨'\\', x :: rest, he, by decide⟩
  · refine ⟨c, [], escapeChar_of_plain h, fun he => h ?_⟩
    exact he ▸ List.mem_cons_self

theorem eq_of_escapeChar_begins (h : escapeChar c <+: escapeChar d) : c = d := by
  by_cases hc : c ∈ escapedChars
  · by_cases hd : d ∈ escapedChars
    · have hall : escapedChars.all fun c => escapedChars.all fun d =>
          escapeChar c <+: escapeChar d → c = d := by
        decide +kernel
      exact of_decide_eq_true (List.all_eq_true.mp (List.all_eq_true.mp hall c hc) d hd) h
    · obtain ⟨x, rest, he, _⟩ := escapeChar_of_escaped hc
      rw [he, escapeChar_of_plain hd] at h
      have hlength := h.length_le
      simp at hlength
  · rw [escapeChar_of_plain hc] at h
    by_cases hd : d ∈ escapedChars
    · obtain ⟨x, rest, he, _⟩ := escapeChar_of_escaped hd
      rw [he, List.cons_prefix_cons] at h
      refine absurd ?_ hc
      exact h.1 ▸ List.mem_cons_of_mem _ List.mem_cons_self
    · rw [escapeChar_of_plain hd, List.cons_prefix_cons] at h
      exact h.1

theorem escapeChar_append_inj (h : escapeChar c ++ r = escapeChar d ++ s) : c = d ∧ r = s := by
  have hp : escapeChar c <+: escapeChar d ++ s := ⟨r, h⟩
  have hcd : c = d := by
    rcases List.prefix_or_prefix_of_prefix hp (List.prefix_append _ s) with hc | hd
    · exact eq_of_escapeChar_begins hc
    · exact (eq_of_escapeChar_begins hd).symm
  subst hcd
  exact ⟨rfl, List.append_cancel_left h⟩

theorem escaped_append_inj {cs ds : List Char}
    (h : cs.flatMap escapeChar ++ '"' :: r = ds.flatMap escapeChar ++ '"' :: s) :
    cs = ds ∧ r = s := by
  induction cs generalizing ds with
  | nil =>
    cases ds with
    | nil =>
      simp at h
      exact ⟨rfl, h⟩
    | cons d ds =>
      obtain ⟨x, rest, he, hx⟩ := head_escapeChar d
      simp only [List.flatMap_nil, List.nil_append, List.flatMap_cons, he, List.cons_append,
        List.cons.injEq] at h
      exact absurd h.1.symm hx
  | cons c cs ih =>
    cases ds with
    | nil =>
      obtain ⟨x, rest, he, hx⟩ := head_escapeChar c
      simp only [List.flatMap_nil, List.nil_append, List.flatMap_cons, he, List.cons_append,
        List.cons.injEq] at h
      exact absurd h.1 hx
    | cons d ds =>
      rw [List.flatMap_cons, List.flatMap_cons, List.append_assoc, List.append_assoc] at h
      obtain ⟨rfl, hrest⟩ := escapeChar_append_inj h
      obtain ⟨rfl, hr⟩ := ih hrest
      exact ⟨rfl, hr⟩

theorem toList_quote (text : String) :
    (quote text).toList = '"' :: (text.toList.flatMap escapeChar ++ ['"']) := by
  simp [quote, String.toList_append]

theorem quote_append_inj {a b : String} (h : (quote a).toList ++ r = (quote b).toList ++ s) :
    a = b ∧ r = s := by
  rw [toList_quote, toList_quote] at h
  simp only [List.cons_append, List.append_assoc, List.nil_append, List.cons.injEq, true_and] at h
  obtain ⟨htext, hr⟩ := escaped_append_inj h
  exact ⟨String.toList_inj.mp htext, hr⟩

/-! ### Numbers -/

/-- The characters of numbers. -/
def isNumberChar (c : Char) : Bool := c.isDigit || c = '-' || c = '+' || c = '.' || c = 'e'

def Numeric (text : String) : Prop := ∀ c ∈ text.toList, isNumberChar c = true

theorem numeric_append {a b : String} : Numeric (a ++ b) ↔ Numeric a ∧ Numeric b := by
  simp [Numeric, String.toList_append, or_imp, forall_and]

theorem numeric_of_digits {text : String} (h : ∀ c ∈ text.toList, c.isDigit = true) :
    Numeric text := by
  intro c hc
  simp [isNumberChar, h c hc]

theorem isDigit_of_mem_toString {n : Nat} (h : c ∈ (toString n).toList) : c.isDigit = true := by
  rw [Nat.toString_eq_repr, Nat.toList_repr] at h
  exact Nat.isDigit_of_mem_toDigits (by decide) (by decide) h

theorem numeric_nat (n : Nat) : Numeric (toString n) :=
  numeric_of_digits fun _ hc => isDigit_of_mem_toString hc

theorem numeric_zeros (count : Nat) : Numeric (DecimalStyle.zeros count) := by
  refine numeric_of_digits fun c hc => ?_
  rw [DecimalStyle.zeros, String.toList_ofList] at hc
  rw [List.eq_of_mem_replicate hc]
  rfl

theorem numeric_digits {cs : List Char} {n : Nat} (h : cs ⊆ (toString n).toList) :
    Numeric (String.ofList cs) := by
  refine numeric_of_digits fun c hc => ?_
  rw [String.toList_ofList] at hc
  exact isDigit_of_mem_toString (h hc)

/-- The text of a number with a point or an exponent. -/
structure Pointed (text : String) : Prop where
  numeric : Numeric text
  mark : '.' ∈ text.toList ∨ 'e' ∈ text.toList

theorem pointed_layDigits (d : DecimalDigits) : Pointed (numberStyle.layDigits d) := by
  have htext : Numeric (toString d.digits) := numeric_nat _
  have htake (n : Nat) : Numeric (String.ofList ((toString d.digits).toList.take n)) :=
    numeric_digits (List.take_subset _ _)
  have hdrop (n : Nat) : Numeric (String.ofList ((toString d.digits).toList.drop n)) :=
    numeric_digits (List.drop_subset _ _)
  have hzeros (n : Nat) : Numeric (DecimalStyle.zeros n) := numeric_zeros n
  have hsigns : Numeric "." ∧ Numeric numberStyle.wholeTail ∧ Numeric "0." ∧ Numeric "e" ∧
      Numeric "-" ∧ Numeric numberStyle.plus ∧ Numeric "0" := by
    simp [Numeric, isNumberChar, numberStyle]
  obtain ⟨hdot, htail, hfront, he, hminus, hplus, hzero⟩ := hsigns
  have htailDot : '.' ∈ numberStyle.wholeTail.toList := by decide
  simp only [DecimalStyle.layDigits]
  split
  · refine ⟨numeric_append.mpr ⟨hzero, htail⟩, Or.inl ?_⟩
    simp [String.toList_append, htailDot]
  split
  · split
    · refine ⟨numeric_append.mpr ⟨numeric_append.mpr ⟨htext, hzeros _⟩, htail⟩, Or.inl ?_⟩
      simp [String.toList_append, htailDot]
    split
    · refine ⟨numeric_append.mpr ⟨numeric_append.mpr ⟨htake _, hdot⟩, hdrop _⟩, Or.inl ?_⟩
      simp [String.toList_append]
    · refine ⟨numeric_append.mpr ⟨numeric_append.mpr ⟨hfront, hzeros _⟩, htext⟩, Or.inl ?_⟩
      simp [String.toList_append]
  · refine ⟨?_, Or.inr (by simp [String.toList_append])⟩
    refine numeric_append.mpr ⟨numeric_append.mpr ⟨numeric_append.mpr ⟨?_, he⟩, ?_⟩, numeric_nat _⟩
    · split
      · exact htake 1
      · exact numeric_append.mpr ⟨numeric_append.mpr ⟨htake 1, hdot⟩, hdrop 1⟩
    · split
      · exact hminus
      · exact hplus

theorem pointed_render {x : Double} (h : x.isFinite = true) : Pointed (numberStyle.render x) := by
  have hlow : x.unsignedBits < Double.infinityBits := by simpa [Double.isFinite] using h
  have hnan : x.isNaN = false := by simpa [Double.isNaN] using hlow.le
  have hinfinite : x.isInfinite = false := by simpa [Double.isInfinite] using hlow.ne
  obtain ⟨hnumeric, hmark⟩ := pointed_layDigits x.shortest
  simp only [DecimalStyle.render, hnan, hinfinite, Bool.false_eq_true, if_false]
  split
  · refine ⟨numeric_append.mpr ⟨by simp [Numeric, isNumberChar], hnumeric⟩, ?_⟩
    rw [String.toList_append]
    exact hmark.imp (List.mem_append_right _) (List.mem_append_right _)
  · exact ⟨hnumeric, hmark⟩

theorem mem_toString_int {n : Int} (h : c ∈ (toString n).toList) : c.isDigit = true ∨ c = '-' := by
  have hdigit (m : Nat) (hm : c ∈ m.repr.toList) : c.isDigit = true := by
    rw [Nat.toList_repr] at hm
    exact Nat.isDigit_of_mem_toDigits (by decide) (by decide) hm
  rw [Int.toString_eq_repr, Int.repr_eq_if] at h
  split at h
  · exact Or.inl (hdigit _ h)
  · rw [String.toList_append, List.mem_append] at h
    rcases h with hsign | hrest
    · exact Or.inr (by simpa using hsign)
    · exact Or.inl (hdigit _ hrest)

theorem numeric_int (n : Int) : Numeric (toString n) := by
  intro c hc
  rcases mem_toString_int hc with hdigit | hsign <;> simp [isNumberChar, *]

theorem not_pointed_int (n : Int) : ¬ Pointed (toString n) := by
  intro h
  rcases h.mark with hc | hc
  · exact absurd (mem_toString_int hc) (by decide)
  · exact absurd (mem_toString_int hc) (by decide)

/-- What follows a number does not go on with it. -/
def Ends (r : List Char) : Prop := ∀ c, r.head? = some c → isNumberChar c = false

theorem numeric_append_inj {a b : String} (ha : Numeric a) (hb : Numeric b) (hr : Ends r)
    (hs : Ends s) (h : a.toList ++ r = b.toList ++ s) : a = b ∧ r = s := by
  have hend : ∀ t, Ends t → t.takeWhile isNumberChar = [] := by
    intro t ht
    cases t with
    | nil => rfl
    | cons c rest => simp [ht c rfl]
  have htake := congrArg (List.takeWhile isNumberChar) h
  rw [List.takeWhile_append_of_pos ha, List.takeWhile_append_of_pos hb, hend r hr, hend s hs,
    List.append_nil, List.append_nil] at htake
  have hab : a = b := String.toList_inj.mp htake
  subst hab
  exact ⟨rfl, List.append_cancel_left h⟩

/-! ### Lists between commas -/

theorem renderItems_eq (items : List Json) :
    renderItems items = String.intercalate "," (items.map render) := by
  induction items with
  | nil => simp [renderItems]
  | cons v rest ih =>
    cases rest with
    | nil => simp [renderItems]
    | cons w rest => simpa [renderItems] using ih

def renderEntry (e : String × Json) : String := quote e.1 ++ ":" ++ render e.2

theorem renderEntries_eq (entries : List (String × Json)) :
    renderEntries entries = String.intercalate "," (entries.map renderEntry) := by
  induction entries with
  | nil => simp [renderEntries]
  | cons e rest ih =>
    cases rest with
    | nil => simp [renderEntries, renderEntry]
    | cons e' rest => simpa [renderEntries, renderEntry] using ih

theorem ends_cons (h : isNumberChar c = false) : Ends (c :: r) := by
  intro d hd
  obtain rfl : c = d := Option.some.inj hd
  exact h

section

variable {α : Type} (text : α → String) (close : Char) (r s : List Char)

/-- The texts of a list up to its closing character, and what comes after it. -/
def listed (xs : List α) : List Char :=
  [','].intercalate (xs.map fun a => (text a).toList) ++ close :: r

/-- What comes after one element when the elements `xs` are still to come. -/
def further : List α → List Char
  | [] => close :: r
  | a :: xs => ',' :: listed text close r (a :: xs)

theorem listed_cons (a : α) (xs : List α) :
    listed text close r (a :: xs) = (text a).toList ++ further text close r xs := by
  cases xs with
  | nil => simp [listed, further]
  | cons b xs => simp [listed, further]

variable {text close r s}

theorem ends_further (hclose : isNumberChar close = false) (xs : List α) :
    Ends (further text close r xs) := by
  cases xs with
  | nil => exact ends_cons hclose
  | cons a xs => exact ends_cons rfl

/-- Lists are read in one way where their elements are and none begins with the closing character. -/
theorem listed_inj {P : α → Prop} (hclose : isNumberChar close = false) (hcomma : close ≠ ',')
    (hhead : ∀ a, P a → ∃ c rest, (text a).toList = c :: rest ∧ c ≠ close) {xs ys : List α}
    (hxs : ∀ a ∈ xs, P a) (hys : ∀ b ∈ ys, P b)
    (hinj : ∀ a ∈ xs, ∀ b, P b → ∀ t u, Ends t → Ends u →
      (text a).toList ++ t = (text b).toList ++ u → a = b ∧ t = u)
    (h : listed text close r xs = listed text close s ys) : xs = ys ∧ r = s := by
  have hempty : ∀ a, P a → ∀ t u, (text a).toList ++ t ≠ close :: u := by
    intro a ha t u he
    obtain ⟨c, rest, htext, hne⟩ := hhead a ha
    rw [htext, List.cons_append] at he
    exact hne (List.cons.inj he).1
  induction xs generalizing ys with
  | nil =>
    cases ys with
    | nil => exact ⟨rfl, (List.cons.inj h).2⟩
    | cons b ys =>
      rw [listed_cons] at h
      exact absurd h.symm (hempty b (hys b List.mem_cons_self) _ _)
  | cons a xs ih =>
    cases ys with
    | nil =>
      rw [listed_cons] at h
      exact absurd h (hempty a (hxs a List.mem_cons_self) _ _)
    | cons b ys =>
      rw [listed_cons, listed_cons] at h
      obtain ⟨rfl, hrest⟩ := hinj a List.mem_cons_self b (hys b List.mem_cons_self) _ _
        (ends_further hclose xs) (ends_further hclose ys) h
      cases xs with
      | nil =>
        cases ys with
        | nil => exact ⟨rfl, (List.cons.inj hrest).2⟩
        | cons b ys => exact absurd (List.cons.inj hrest).1 hcomma
      | cons a' xs =>
        cases ys with
        | nil => exact absurd (List.cons.inj hrest).1.symm hcomma
        | cons b ys =>
          obtain ⟨hxy, hrs⟩ := ih (fun x hx => hxs x (List.mem_cons_of_mem _ hx))
            (fun y hy => hys y (List.mem_cons_of_mem _ hy))
            (fun x hx => hinj x (List.mem_cons_of_mem _ hx)) (List.cons.inj hrest).2
          exact ⟨congrArg _ hxy, hrs⟩

end

theorem toList_render_arr (items : List Json) (r : List Char) :
    (render (.arr items)).toList ++ r = '[' :: listed render ']' r items := by
  simp [render, renderItems_eq, listed, String.toList_append, Function.comp_def]

theorem toList_render_obj (entries : List (String × Json)) (r : List Char) :
    (render (.obj entries)).toList ++ r = '{' :: listed renderEntry '}' r entries := by
  simp [render, renderEntries_eq, listed, String.toList_append, Function.comp_def]

/-! ### Values -/

/-- What the first character of a text stands for: one character for all numbers, and one for both
truth values. -/
def begins (c : Char) : Char :=
  if isNumberChar c then '0' else if c = 'f' then 't' else c

/-- How the text of a value begins. -/
def initial : Json → Char
  | .null => 'n'
  | .bool _ => 't'
  | .int _ => '0'
  | .double _ => '0'
  | .str _ => '"'
  | .arr _ => '['
  | .obj _ => '\x7b'

/-- Doubles that are written as numbers, each with a text of its own. -/
structure Spelled (D : Double → Prop) : Prop where
  finite : ∀ x, D x → x.isFinite = true
  distinct : ∀ x y, D x → D y → numberStyle.render x = numberStyle.render y → x = y

variable {D : Double → Prop} {v w : Json}

theorem render_double (hD : Spelled D) {x : Double} (hx : D x) :
    render (.double x) = numberStyle.render x := by
  simp [render, renderLeaf, hD.finite x hx]

theorem numeric_render (hD : Spelled D) (hv : v.Proper D) (hi : initial v = '0') :
    Numeric (render v) := by
  cases hv with
  | int n => exact numeric_int n
  | double hx =>
    rw [render_double hD hx]
    exact (pointed_render (hD.finite _ hx)).numeric
  | _ => cases hi

theorem eq_of_render_number (hD : Spelled D) (hv : v.Proper D) (hw : w.Proper D)
    (hi : initial v = '0') (hi' : initial w = '0') (h : render v = render w) : v = w := by
  have hmixed {n : Int} {x : Double} (hx : D x) : toString n ≠ numberStyle.render x := by
    intro he
    exact not_pointed_int n (he ▸ pointed_render (hD.finite x hx))
  cases hv with
  | int n =>
    cases hw with
    | int m => exact congrArg _ (Int.repr_injective h)
    | double hy => exact absurd (h.trans (render_double hD hy)) (hmixed hy)
    | _ => cases hi'
  | double hx =>
    rw [render_double hD hx] at h
    cases hw with
    | int m => exact absurd h.symm (hmixed hx)
    | double hy => exact congrArg _ (hD.distinct _ _ hx hy (h.trans (render_double hD hy)))
    | _ => cases hi'
  | _ => cases hi

theorem toList_toString_int_ne_nil (n : Int) : (toString n).toList ≠ [] := by
  rw [Int.toString_eq_repr, Int.repr_eq_if]
  split
  · rw [Nat.toList_repr]
    exact Nat.toDigits_ne_nil
  · simp [String.toList_append]

theorem begins_of_numeric {text : String} (h : Numeric text) (hne : text.toList ≠ []) :
    ∃ c rest, text.toList = c :: rest ∧ begins c = '0' := by
  obtain ⟨c, rest, hc⟩ := List.exists_cons_of_ne_nil hne
  have hnumber : isNumberChar c = true := h c (hc ▸ List.mem_cons_self)
  exact ⟨c, rest, hc, if_pos hnumber⟩

theorem begins_render (hD : Spelled D) (hv : v.Proper D) :
    ∃ c rest, (render v).toList = c :: rest ∧ begins c = initial v := by
  cases hv with
  | null => exact ⟨'n', _, rfl, rfl⟩
  | bool b => cases b <;> exact ⟨_, _, rfl, rfl⟩
  | int n => exact begins_of_numeric (numeric_int n) (toList_toString_int_ne_nil n)
  | double hx =>
    have hpointed := pointed_render (hD.finite _ hx)
    rw [render_double hD hx]
    refine begins_of_numeric hpointed.numeric ?_
    rcases hpointed.mark with hm | hm <;> exact List.ne_nil_of_mem hm
  | str s => exact ⟨'"', _, toList_quote s, rfl⟩
  | arr h => exact ⟨'[', _, by simpa using toList_render_arr _ [], rfl⟩
  | obj hk h => exact ⟨'\x7b', _, by simpa using toList_render_obj _ [], rfl⟩

theorem initial_eq (hD : Spelled D) (hv : v.Proper D) (hw : w.Proper D)
    (h : (render v).toList ++ r = (render w).toList ++ s) : initial v = initial w := by
  obtain ⟨c, rest, hc, hv'⟩ := begins_render hD hv
  obtain ⟨d, rest', hd, hw'⟩ := begins_render hD hw
  rw [hc, hd] at h
  rw [← hv', ← hw', (List.cons.inj h).1]

theorem head_render_ne_bracket (hD : Spelled D) (hv : v.Proper D) :
    ∃ c rest, (render v).toList = c :: rest ∧ c ≠ ']' := by
  obtain ⟨c, rest, he, hi⟩ := begins_render hD hv
  refine ⟨c, rest, he, ?_⟩
  rintro rfl
  cases v <;> cases hi

theorem head_renderEntry (e : String × Json) :
    ∃ c rest, (renderEntry e).toList = c :: rest ∧ c ≠ '\x7d' := by
  rw [renderEntry, String.toList_append, String.toList_append, toList_quote]
  exact ⟨'"', _, rfl, by decide⟩

theorem renderEntry_append_inj {e e' : String × Json}
    (hinj : (render e.2).toList ++ r = (render e'.2).toList ++ s → e.2 = e'.2 ∧ r = s)
    (h : (renderEntry e).toList ++ r = (renderEntry e').toList ++ s) : e = e' ∧ r = s := by
  simp only [renderEntry, String.toList_append, List.append_assoc] at h
  obtain ⟨hkey, hrest⟩ := quote_append_inj h
  obtain ⟨hvalue, htail⟩ := hinj (List.append_cancel_left hrest)
  exact ⟨Prod.ext hkey hvalue, htail⟩

/-- Values whose texts begin one text, and are not followed there by more of a number, are equal. -/
theorem render_append_inj (hD : Spelled D) (hv : v.Proper D) (hw : w.Proper D) (hr : Ends r)
    (hs : Ends s) (h : (render v).toList ++ r = (render w).toList ++ s) : v = w ∧ r = s := by
  have hnumber {v w : Json} {r s : List Char} (hv : v.Proper D) (hw : w.Proper D)
      (hi : initial v = '0') (hr : Ends r) (hs : Ends s)
      (h : (render v).toList ++ r = (render w).toList ++ s) : v = w ∧ r = s := by
    have hi' : initial w = '0' := (initial_eq hD hv hw h).symm.trans hi
    obtain ⟨htext, hrest⟩ :=
      numeric_append_inj (numeric_render hD hv hi) (numeric_render hD hw hi') hr hs h
    exact ⟨eq_of_render_number hD hv hw hi hi' htext, hrest⟩
  induction hv generalizing w r s with
  | null =>
    have hi := initial_eq hD .null hw h
    cases hw <;> cases hi
    exact ⟨rfl, List.append_cancel_left h⟩
  | bool b =>
    have hi := initial_eq hD (.bool b) hw h
    cases hw with
    | bool b' =>
      cases b <;> cases b'
      · exact ⟨rfl, List.append_cancel_left h⟩
      · cases (List.cons.inj h).1
      · cases (List.cons.inj h).1
      · exact ⟨rfl, List.append_cancel_left h⟩
    | _ => cases hi
  | int n => exact hnumber (.int n) hw rfl hr hs h
  | double hx => exact hnumber (.double hx) hw rfl hr hs h
  | str a =>
    have hi := initial_eq hD (.str a) hw h
    cases hw with
    | str b =>
      obtain ⟨htext, hrest⟩ := quote_append_inj h
      exact ⟨congrArg _ htext, hrest⟩
    | _ => cases hi
  | @arr items hall ih =>
    have hi := initial_eq hD (.arr hall) hw h
    cases hw with
    | @arr items' hall' =>
      rw [toList_render_arr, toList_render_arr] at h
      obtain ⟨hitems, hrest⟩ := listed_inj rfl (by decide)
        (fun v hv => head_render_ne_bracket hD hv) hall hall'
        (fun v hv w hw t u ht hu he => ih v hv hw ht hu he) (List.cons.inj h).2
      exact ⟨congrArg _ hitems, hrest⟩
    | _ => cases hi
  | @obj entries hk hall ih =>
    have hi := initial_eq hD (.obj hk hall) hw h
    cases hw with
    | @obj entries' hk' hall' =>
      rw [toList_render_obj, toList_render_obj] at h
      obtain ⟨hentries, hrest⟩ := listed_inj (P := fun e => e.2.Proper D) rfl (by decide)
        (fun e _ => head_renderEntry e) hall hall'
        (fun e he e' he' t u ht hu h => renderEntry_append_inj (ih e he he' ht hu) h)
        (List.cons.inj h).2
      exact ⟨congrArg _ hentries, hrest⟩
    | _ => cases hi

end Turnstile.Json
