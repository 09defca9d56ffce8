/-!
# Tables with text keys

A table is a list of entries. Looking up finds the first entry of a key, and storing keeps one entry
a key, in the order in which the keys were first stored.
-/

namespace Turnstile

/-- A table from texts to values. -/
structure Keyed (α : Type) where
  entries : List (String × α)
deriving Inhabited

namespace Keyed

/-! ### Entries -/

/-- The value of the first entry with the key. -/
def lookup (key : String) : List (String × α) → Option α
  | [] => none
  | (k, v) :: rest => if k = key then some v else lookup key rest

def store (key : String) (value : α) : List (String × α) → List (String × α)
  | [] => [(key, value)]
  | (k, v) :: rest => if k = key then (k, value) :: rest else (k, v) :: store key value rest

/-- The entries without those of the key. -/
def discard (key : String) : List (String × α) → List (String × α)
  | [] => []
  | (k, v) :: rest => if k = key then discard key rest else (k, v) :: discard key rest

theorem lookup_store (key key' : String) (value : α) (entries : List (String × α)) :
    lookup key' (store key value entries) =
      if key = key' then some value else lookup key' entries := by
  induction entries with
  | nil => simp [store, lookup]
  | cons e rest ih =>
    obtain ⟨k, v⟩ := e
    by_cases hk : k = key
    · subst hk
      by_cases hkk : k = key' <;> simp [store, lookup, hkk]
    · by_cases hkk : k = key'
      · subst hkk
        simp [store, lookup, hk, Ne.symm hk]
      · simp [store, lookup, hk, hkk, ih]

theorem lookup_discard (key key' : String) (entries : List (String × α)) :
    lookup key' (discard key entries) = if key = key' then none else lookup key' entries := by
  induction entries with
  | nil => simp [discard, lookup]
  | cons e rest ih =>
    obtain ⟨k, v⟩ := e
    by_cases hk : k = key
    · subst hk
      by_cases hkk : k = key'
      · subst hkk
        simpa [discard] using ih
      · simp [discard, lookup, hkk, ih]
    · by_cases hkk : k = key'
      · subst hkk
        simp [discard, lookup, hk, Ne.symm hk]
      · simp [discard, lookup, hk, hkk, ih]

/-! ### Tables -/

def empty : Keyed α := ⟨[]⟩

def get? (t : Keyed α) (key : String) : Option α := lookup key t.entries

def getD (t : Keyed α) (key : String) (default : α) : α := (t.get? key).getD default

def insert (t : Keyed α) (key : String) (value : α) : Keyed α := ⟨store key value t.entries⟩

def erase (t : Keyed α) (key : String) : Keyed α := ⟨discard key t.entries⟩

def ofList (entries : List (String × α)) : Keyed α :=
  entries.foldl (fun t (k, v) => t.insert k v) empty

@[simp] theorem get?_empty (key : String) : (empty : Keyed α).get? key = none := rfl

theorem get?_insert (t : Keyed α) (key key' : String) (value : α) :
    (t.insert key value).get? key' = if key = key' then some value else t.get? key' :=
  lookup_store key key' value t.entries

theorem get?_erase (t : Keyed α) (key key' : String) :
    (t.erase key).get? key' = if key = key' then none else t.get? key' :=
  lookup_discard key key' t.entries

end Keyed

end Turnstile
