import Mathlib.Data.List.Perm.Basic
import Mathlib.Data.List.Sort
import Mathlib.Data.String.Basic
import Turnstile.Json.Canonical

/-!
# Values up to the order of entries

Two JSON values are alike when they differ at most in the order of the entries of their objects, at any
depth. Values whose objects repeat no key are alike just where they have one canonical form.
-/

namespace Turnstile.Json

open scoped List

/-! ### Values -/

/-- Induction over values, with all elements of an array and all values of an object at once. -/
@[elab_as_elim]
theorem inductOn {P : Json → Prop} (v : Json) (null : P .null) (bool : ∀ b, P (.bool b))
    (int : ∀ n, P (.int n)) (double : ∀ x, P (.double x)) (str : ∀ s, P (.str s))
    (arr : ∀ items, (∀ v ∈ items, P v) → P (.arr items))
    (obj : ∀ entries, (∀ e ∈ entries, P e.2) → P (.obj entries)) : P v :=
  @Json.rec P (fun items => ∀ v ∈ items, P v) (fun entries => ∀ e ∈ entries, P e.2)
    (fun e => P e.2) null bool int double str arr obj nofun
    (fun _ _ hv hr => List.forall_mem_cons.mpr ⟨hv, hr⟩) nofun
    (fun _ _ he hr => List.forall_mem_cons.mpr ⟨he, hr⟩) (fun _ _ hv => hv) v

/-- A value whose objects repeat no key and whose doubles are some of the given ones. -/
inductive Proper (D : Double → Prop) : Json → Prop
  | null : Proper D .null
  | bool (b : Bool) : Proper D (.bool b)
  | int (n : Int) : Proper D (.int n)
  | double {x : Double} (h : D x) : Proper D (.double x)
  | str (s : String) : Proper D (.str s)
  | arr {items : List Json} (h : ∀ v ∈ items, Proper D v) : Proper D (.arr items)
  | obj {entries : List (String × Json)} (hk : (entries.map Prod.fst).Nodup)
      (h : ∀ e ∈ entries, Proper D e.2) : Proper D (.obj entries)

mutual

/-- Equal up to the order of the entries of objects, at every depth. -/
inductive Alike : Json → Json → Prop
  | null : Alike .null .null
  | bool (b : Bool) : Alike (.bool b) (.bool b)
  | int (n : Int) : Alike (.int n) (.int n)
  | double (x : Double) : Alike (.double x) (.double x)
  | str (s : String) : Alike (.str s) (.str s)
  | arr {items items' : List Json} (h : AlikeItems items items') : Alike (.arr items) (.arr items')
  | obj {entries moved entries' : List (String × Json)} (hp : entries ~ moved)
      (h : AlikeEntries moved entries') : Alike (.obj entries) (.obj entries')

/-- Alike element by element. -/
inductive AlikeItems : List Json → List Json → Prop
  | nil : AlikeItems [] []
  | cons {v w : Json} {rest rest' : List Json} (h : Alike v w) (hr : AlikeItems rest rest') :
      AlikeItems (v :: rest) (w :: rest')

/-- The same keys in the same order, with values that are alike. -/
inductive AlikeEntries : List (String × Json) → List (String × Json) → Prop
  | nil : AlikeEntries [] []
  | cons {key : String} {v w : Json} {rest rest' : List (String × Json)} (h : Alike v w)
      (hr : AlikeEntries rest rest') : AlikeEntries ((key, v) :: rest) ((key, w) :: rest')

end

variable {D : Double → Prop} {entries entries' : List (String × Json)} {items items' : List Json}

/-! ### Entries in ascending order -/

theorem placeEntry_eq (e : String × Json) (entries : List (String × Json)) :
    placeEntry e entries = entries.orderedInsert (fun a b => a.1 ≤ b.1) e := by
  induction entries with
  | nil => rfl
  | cons e' rest ih => rw [placeEntry, List.orderedInsert_cons, ih]

theorem orderEntries_eq (entries : List (String × Json)) :
    orderEntries entries = entries.insertionSort fun a b => a.1 ≤ b.1 := by
  induction entries with
  | nil => rfl
  | cons e rest ih => rw [orderEntries, List.insertionSort_cons, ih, placeEntry_eq]

theorem perm_orderEntries (entries : List (String × Json)) : orderEntries entries ~ entries := by
  rw [orderEntries_eq]
  exact List.perm_insertionSort _ entries

/-- Where no key is repeated, the order in which entries are given does not matter. -/
theorem orderEntries_congr (hk : (entries.map Prod.fst).Nodup) (hp : entries ~ entries') :
    orderEntries entries = orderEntries entries' := by
  have hsorted (es : List (String × Json)) :
      (orderEntries es).Pairwise fun a b => a.1 ≤ b.1 := by
    rw [orderEntries_eq]
    exact List.pairwise_insertionSort _ es
  have hperm : orderEntries entries ~ orderEntries entries' :=
    (perm_orderEntries entries).trans (hp.trans (perm_orderEntries entries').symm)
  refine hperm.eq_of_pairwise ?_ (hsorted _) (hsorted _)
  intro a b ha hb hab hba
  have ha' : a ∈ entries := (perm_orderEntries entries).mem_iff.mp ha
  have hb' : b ∈ entries := hp.mem_iff.mpr ((perm_orderEntries entries').mem_iff.mp hb)
  exact List.inj_on_of_nodup_map hk ha' hb' (le_antisymm hab hba)

/-! ### Canonical forms -/

theorem canonicalizeItems_eq (items : List Json) :
    canonicalizeItems items = items.map canonicalize := by
  induction items with
  | nil => rfl
  | cons v rest ih => rw [canonicalizeItems, ih, List.map_cons]

theorem canonicalizeEntries_eq (entries : List (String × Json)) :
    canonicalizeEntries entries = entries.map fun e => (e.1, e.2.canonicalize) := by
  induction entries with
  | nil => rfl
  | cons e rest ih => rw [canonicalizeEntries, ih, List.map_cons]

theorem keys_canonicalizeEntries (entries : List (String × Json)) :
    (canonicalizeEntries entries).map Prod.fst = entries.map Prod.fst := by
  rw [canonicalizeEntries_eq, List.map_map]
  rfl

theorem Proper.canonicalize {v : Json} (h : v.Proper D) : v.canonicalize.Proper D := by
  induction h with
  | null => exact .null
  | bool b => exact .bool b
  | int n => exact .int n
  | double hx => exact .double hx
  | str s => exact .str s
  | @arr items _ ih =>
    rw [Json.canonicalize, canonicalizeItems_eq]
    refine .arr fun v hv => ?_
    obtain ⟨w, hw, rfl⟩ := List.mem_map.mp hv
    exact ih w hw
  | @obj entries hk _ ih =>
    have hp := perm_orderEntries (canonicalizeEntries entries)
    refine .obj ?_ fun e he => ?_
    · rw [(hp.map Prod.fst).nodup_iff, keys_canonicalizeEntries]
      exact hk
    · have he' := hp.mem_iff.mp he
      rw [canonicalizeEntries_eq] at he'
      obtain ⟨e', hmem, rfl⟩ := List.mem_map.mp he'
      exact ih e' hmem

/-! ### Alike values have one canonical form -/

theorem map_canonicalize_of_alikeItems
    (h : ∀ v ∈ items, ∀ w, Alike v w → v.canonicalize = w.canonicalize)
    (ha : AlikeItems items items') : items.map canonicalize = items'.map canonicalize := by
  induction items generalizing items' with
  | nil =>
    cases ha
    rfl
  | cons v rest ih =>
    cases ha with
    | cons hv hr =>
      obtain ⟨hhead, htail⟩ := List.forall_mem_cons.mp h
      rw [List.map_cons, List.map_cons, hhead _ hv, ih htail hr]

theorem canonicalizeEntries_of_alikeEntries
    (h : ∀ e ∈ entries, ∀ w, Alike e.2 w → e.2.canonicalize = w.canonicalize)
    (ha : AlikeEntries entries entries') :
    canonicalizeEntries entries = canonicalizeEntries entries' := by
  induction entries generalizing entries' with
  | nil =>
    cases ha
    rfl
  | cons e rest ih =>
    cases ha with
    | cons hv hr =>
      obtain ⟨hhead, htail⟩ := List.forall_mem_cons.mp h
      rw [canonicalizeEntries, canonicalizeEntries, hhead _ hv, ih htail hr]

theorem canonicalize_eq_of_alike {v w : Json} (hv : v.Proper D) (h : Alike v w) :
    v.canonicalize = w.canonicalize := by
  induction hv generalizing w with
  | null | bool | int | double | str =>
    cases h
    rfl
  | @arr items hall ih =>
    cases h with
    | arr hitems =>
      rw [canonicalize, canonicalize, canonicalizeItems_eq, canonicalizeItems_eq,
        map_canonicalize_of_alikeItems (fun v hv w hw => ih v hv hw) hitems]
  | @obj entries hk hall ih =>
    cases h with
    | @obj _ moved _ hp hentries =>
      have hmoved : canonicalizeEntries moved = canonicalizeEntries _ :=
        canonicalizeEntries_of_alikeEntries
          (fun e he w hw => ih e (hp.mem_iff.mpr he) hw) hentries
      have hcanonical : canonicalizeEntries entries ~ canonicalizeEntries moved := by
        rw [canonicalizeEntries_eq, canonicalizeEntries_eq]
        exact hp.map _
      rw [canonicalize, canonicalize, ← hmoved, orderEntries_congr _ hcanonical]
      rw [keys_canonicalizeEntries]
      exact hk

/-! ### Values with one canonical form are alike -/

theorem alikeItems_of_map
    (h : ∀ v ∈ items, ∀ w, v.canonicalize = w.canonicalize → Alike v w)
    (he : items.map canonicalize = items'.map canonicalize) : AlikeItems items items' := by
  induction items generalizing items' with
  | nil =>
    obtain rfl := List.map_eq_nil_iff.mp he.symm
    exact .nil
  | cons v rest ih =>
    obtain ⟨w, rest', rfl, hw, hr⟩ := List.map_eq_cons_iff.mp he.symm
    obtain ⟨hhead, htail⟩ := List.forall_mem_cons.mp h
    exact .cons (hhead w hw.symm) (ih htail hr.symm)

theorem alikeEntries_of_canonicalizeEntries
    (h : ∀ e ∈ entries, ∀ w, e.2.canonicalize = w.canonicalize → Alike e.2 w)
    (he : canonicalizeEntries entries = canonicalizeEntries entries') :
    AlikeEntries entries entries' := by
  induction entries generalizing entries' with
  | nil =>
    rw [canonicalizeEntries_eq entries'] at he
    obtain rfl := List.map_eq_nil_iff.mp he.symm
    exact .nil
  | cons e rest ih =>
    cases entries' with
    | nil => cases he
    | cons e' rest' =>
      obtain ⟨key, v⟩ := e
      obtain ⟨key', w⟩ := e'
      simp only [canonicalizeEntries, List.cons.injEq, Prod.mk.injEq] at he
      obtain ⟨⟨rfl, hv⟩, hr⟩ := he
      obtain ⟨hhead, htail⟩ := List.forall_mem_cons.mp h
      exact .cons (hhead w hv) (ih htail hr)

/-- A rearrangement of images is the image of a rearrangement. -/
theorem exists_perm_of_map {α β : Type} {f : α → β} {xs : List α} {ys : List β}
    (h : xs.map f ~ ys) : ∃ moved, xs ~ moved ∧ moved.map f = ys := by
  have hf : List.Forall₂ (fun y x => y = f x) (xs.map f) xs :=
    List.forall₂_map_left_iff.mpr (List.forall₂_same.mpr fun _ _ => rfl)
  obtain ⟨moved, hmap, hp⟩ := List.perm_comp_forall₂ h.symm hf
  refine ⟨moved, hp.symm, ?_⟩
  rw [← List.forall₂_eq_eq_eq, List.forall₂_map_left_iff]
  exact hmap.flip.imp fun _ _ => Eq.symm

theorem alike_of_canonicalize_eq (v : Json) :
    ∀ w : Json, v.canonicalize = w.canonicalize → Alike v w := by
  induction v using inductOn with
  | null | bool | int | double | str =>
    intro w h
    cases w <;> simp only [canonicalize, reduceCtorEq] at h
    cases h
    constructor
  | arr items ih =>
    intro w h
    cases w <;> simp only [canonicalize, reduceCtorEq] at h
    rw [canonicalizeItems_eq, canonicalizeItems_eq] at h
    exact .arr (alikeItems_of_map ih (Json.arr.inj h))
  | obj entries ih =>
    intro w h
    cases w with
    | obj entries' =>
      rw [canonicalize, canonicalize] at h
      have hp : canonicalizeEntries entries ~ canonicalizeEntries entries' := by
        refine (perm_orderEntries _).symm.trans ?_
        rw [Json.obj.inj h]
        exact perm_orderEntries _
      rw [canonicalizeEntries_eq entries] at hp
      obtain ⟨moved, hm, hmap⟩ := exists_perm_of_map hp
      rw [← canonicalizeEntries_eq] at hmap
      exact .obj hm (alikeEntries_of_canonicalizeEntries
        (fun e he => ih e (hm.mem_iff.mpr he)) hmap)
    | _ => simp only [canonicalize, reduceCtorEq] at h

/-- Lists of values without repeated keys are alike just where they have one canonical form. -/
theorem canonicalize_arr_eq_iff (h : ∀ v ∈ items, v.Proper D) :
    canonicalize (.arr items) = canonicalize (.arr items') ↔ AlikeItems items items' := by
  constructor
  · intro he
    cases alike_of_canonicalize_eq _ _ he with
    | arr hitems => exact hitems
  · intro ha
    exact canonicalize_eq_of_alike (.arr h) (.arr ha)

end Turnstile.Json
