import Mathlib.Data.List.Induction
import Turnstile.Proofs.Json.Alike

/-!
# Normal values

What `normalize` gives has each key of an object once, in ascending order. Normalizing it again
changes nothing.
-/

namespace Turnstile.Json

variable {α : Type} {key : String} {v : Json} {entries : List (String × Json)}

/-- Keys in strictly ascending order. -/
def Ascending (entries : List (String × α)) : Prop := entries.Pairwise fun a b => a.1 < b.1

/-- Only the keys matter. -/
theorem Ascending.congr {β : Type} {entries : List (String × α)} {entries' : List (String × β)}
    (h : Ascending entries) (hk : entries'.map Prod.fst = entries.map Prod.fst) :
    Ascending entries' := by
  have hkeys : (entries.map Prod.fst).Pairwise (· < ·) := List.pairwise_map.mpr h
  rw [← hk] at hkeys
  exact List.pairwise_map.mp hkeys

/-! ### One entry more -/

theorem mem_insertEntry {e : String × Json} (h : e ∈ insertEntry key v entries) :
    e = (key, v) ∨ e ∈ entries := by
  induction entries with
  | nil => exact .inl (List.mem_singleton.mp h)
  | cons e' rest ih =>
    obtain ⟨k, w⟩ := e'
    simp only [insertEntry] at h
    split at h
    · exact List.mem_cons.mp h
    · split at h
      · exact (List.mem_cons.mp h).imp_right (List.mem_cons_of_mem _)
      · obtain rfl | hr := List.mem_cons.mp h
        · exact .inr (List.mem_cons_self ..)
        · exact (ih hr).imp_right (List.mem_cons_of_mem _)

theorem ascending_insertEntry (h : Ascending entries) : Ascending (insertEntry key v entries) := by
  induction entries with
  | nil => exact List.pairwise_singleton _ _
  | cons e rest ih =>
    obtain ⟨k, w⟩ := e
    obtain ⟨hfirst, hrest⟩ := List.pairwise_cons.mp h
    simp only [insertEntry]
    split
    case isTrue hlt =>
      refine List.pairwise_cons.mpr ⟨?_, h⟩
      intro e he
      obtain rfl | hr := List.mem_cons.mp he
      · exact hlt
      · exact hlt.trans (hfirst e hr)
    case isFalse hge =>
      split
      case isTrue heq =>
        subst heq
        exact List.pairwise_cons.mpr ⟨hfirst, hrest⟩
      case isFalse hne =>
        refine List.pairwise_cons.mpr ⟨?_, ih hrest⟩
        intro e he
        obtain rfl | hr := mem_insertEntry he
        · exact lt_of_le_of_ne (not_lt.mp hge) (Ne.symm hne)
        · exact hfirst e hr

/-- An entry whose key is after all others goes to the end. -/
theorem insertEntry_of_lt (h : ∀ e ∈ entries, e.1 < key) :
    insertEntry key v entries = entries ++ [(key, v)] := by
  induction entries with
  | nil => rfl
  | cons e rest ih =>
    obtain ⟨k, w⟩ := e
    have hk : k < key := h (k, w) (List.mem_cons_self ..)
    simp only [insertEntry, if_neg hk.asymm, if_neg hk.ne', List.cons_append]
    rw [ih fun e he => h e (List.mem_cons_of_mem _ he)]

/-! ### All entries -/

theorem sortEntries_concat (entries : List (String × Json)) (e : String × Json) :
    sortEntries (entries ++ [e]) = insertEntry e.1 e.2 (sortEntries entries) :=
  List.foldl_concat ..

theorem ascending_sortEntries (entries : List (String × Json)) :
    Ascending (sortEntries entries) := by
  induction entries using List.reverseRecOn with
  | nil => exact List.Pairwise.nil
  | append_singleton entries e ih =>
    rw [sortEntries_concat]
    exact ascending_insertEntry ih

theorem mem_of_mem_sortEntries {e : String × Json} (h : e ∈ sortEntries entries) :
    e ∈ entries := by
  induction entries using List.reverseRecOn with
  | nil => exact h
  | append_singleton entries e' ih =>
    rw [sortEntries_concat] at h
    obtain rfl | hr := mem_insertEntry h
    · exact List.mem_append_right _ (List.mem_singleton_self _)
    · exact List.mem_append_left _ (ih hr)

theorem sortEntries_of_ascending (h : Ascending entries) : sortEntries entries = entries := by
  induction entries using List.reverseRecOn with
  | nil => rfl
  | append_singleton entries e ih =>
    obtain ⟨hinit, -, hlast⟩ := List.pairwise_append.mp h
    have hlt : ∀ e' ∈ entries, e'.1 < e.1 := fun e' he' => hlast e' he' e (List.mem_singleton_self e)
    rw [sortEntries_concat, ih hinit, insertEntry_of_lt hlt]

/-! ### Values -/

theorem normalizeItems_eq (items : List Json) : normalizeItems items = items.map normalize := by
  induction items with
  | nil => rfl
  | cons v rest ih => rw [normalizeItems, ih, List.map_cons]

theorem normalizeEntries_eq (entries : List (String × Json)) :
    normalizeEntries entries = entries.map fun e => (e.1, e.2.normalize) := by
  induction entries with
  | nil => rfl
  | cons e rest ih => rw [normalizeEntries, ih, List.map_cons]

/-- Entries whose values are normal stay as they are. -/
theorem normalizeEntries_of_normal (h : ∀ e ∈ entries, e.2.normalize = e.2) :
    normalizeEntries entries = entries := by
  rw [normalizeEntries_eq]
  have hsame : ∀ e ∈ entries, (e.1, e.2.normalize) = id e := fun e he => Prod.ext rfl (h e he)
  rw [List.map_congr_left hsame, List.map_id]

theorem normalize_normalize (v : Json) : v.normalize.normalize = v.normalize := by
  induction v using inductOn with
  | null => rfl
  | bool b => rfl
  | int n => rfl
  | double x => rfl
  | str s => rfl
  | arr items ih =>
    simp only [normalize, normalizeItems_eq, List.map_map]
    exact congrArg Json.arr (List.map_congr_left ih)
  | obj entries ih =>
    simp only [normalize]
    -- Sorting takes values over as they are, so those of the result are normal.
    have hvalues : normalizeEntries (sortEntries (normalizeEntries entries)) =
        sortEntries (normalizeEntries entries) := by
      apply normalizeEntries_of_normal
      intro e he
      have hmem := mem_of_mem_sortEntries he
      rw [normalizeEntries_eq] at hmem
      obtain ⟨e', he', rfl⟩ := List.mem_map.mp hmem
      exact ih e' he'
    rw [hvalues, sortEntries_of_ascending (ascending_sortEntries _)]

@[simp]
theorem isNull_normalize (v : Json) : v.normalize.isNull = v.isNull := by
  cases v <;> rfl

end Turnstile.Json
