/-!
# Tables

A table is a list of keys and values in the order in which the keys were
first set. Setting a key that is there keeps its place.
-/

namespace LanguageRelay

namespace Table

variable {κ α : Type} [DecidableEq κ]

/-- The value under a key. -/
def get? (key : κ) : List (κ × α) → Option α
  | [] => none
  | (k, v) :: rest => if k = key then some v else get? key rest

/-- Sets the value under a key: in place if the key is there, else at the
end. -/
def put (key : κ) (value : α) : List (κ × α) → List (κ × α)
  | [] => [(key, value)]
  | (k, v) :: rest => if k = key then (k, value) :: rest else (k, v) :: put key value rest

/-- Takes a key out. -/
def erase (key : κ) : List (κ × α) → List (κ × α)
  | [] => []
  | (k, v) :: rest => if k = key then erase key rest else (k, v) :: erase key rest

/-- Changes the value under a key, if the key is there. -/
def update (key : κ) (f : α → α) : List (κ × α) → List (κ × α)
  | [] => []
  | (k, v) :: rest => if k = key then (k, f v) :: rest else (k, v) :: update key f rest

/-- The keys, in order. -/
def keys (t : List (κ × α)) : List κ := t.map Prod.fst

/-- The values, in order. -/
def values (t : List (κ × α)) : List α := t.map Prod.snd

/-- An empty table has no keys. -/
@[simp] theorem get?_nil (key : κ) : get? key ([] : List (κ × α)) = none := rfl

/-- Setting a key changes the value under that key alone. -/
theorem get?_put (key other : κ) (value : α) (t : List (κ × α)) :
    get? other (put key value t) = if key = other then some value else get? other t := by
  induction t with
  | nil => simp [put, get?]
  | cons e rest ih =>
    obtain ⟨k, v⟩ := e
    by_cases h : k = key
    · subst h
      by_cases h' : k = other <;> simp [put, get?, h']
    · by_cases h' : k = other
      · subst h'
        simp [put, get?, h, Ne.symm h]
      · simp [put, get?, h, h', ih]

/-- Taking a key out leaves the values under all others. -/
theorem get?_erase (key other : κ) (t : List (κ × α)) :
    get? other (erase key t) = if key = other then none else get? other t := by
  induction t with
  | nil => simp [erase]
  | cons e rest ih =>
    obtain ⟨k, v⟩ := e
    by_cases h : k = key
    · subst h
      rw [erase, if_pos rfl, ih]
      by_cases h' : k = other <;> simp [get?, h']
    · by_cases h' : k = other
      · subst h'
        simp [erase, get?, h, Ne.symm h]
      · simp [erase, get?, h, h', ih]

/-- Changing the value under a key changes no other. -/
theorem get?_update (key other : κ) (f : α → α) (t : List (κ × α)) :
    get? other (update key f t) = if key = other then (get? other t).map f else get? other t := by
  induction t with
  | nil => simp [update]
  | cons e rest ih =>
    obtain ⟨k, v⟩ := e
    by_cases h : k = key
    · subst h
      by_cases h' : k = other <;> simp [update, get?, h']
    · by_cases h' : k = other
      · subst h'
        simp [update, get?, h, Ne.symm h]
      · simp [update, get?, h, h', ih]

end Table

end LanguageRelay
