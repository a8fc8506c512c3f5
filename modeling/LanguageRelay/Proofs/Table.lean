import LanguageRelay.Table
import Mathlib.Data.List.Nodup
/-!
# Tables, as sets of entries

`get?` finds the first entry of a key. Tables that are only written by `put`
hold each key once, and for those looking up is the same as being an entry
(`get?_eq_some_iff`).
-/

namespace LanguageRelay

namespace Table

variable {κ α β : Type} [DecidableEq κ]

/-- Values changed one by one are looked up as before. -/
theorem get?_map (key : κ) (f : α → β) (t : List (κ × α)) :
    get? key (t.map fun e => (e.1, f e.2)) = (get? key t).map f := by
  induction t with
  | nil => rfl
  | cons e rest ih =>
    obtain ⟨k, v⟩ := e
    by_cases h : k = key <;> simp [get?, h, ih]

/-- What is looked up is an entry. -/
theorem mem_of_get? {key : κ} {value : α} {t : List (κ × α)} (h : get? key t = some value) :
    (key, value) ∈ t := by
  induction t with
  | nil => simp at h
  | cons e rest ih =>
    obtain ⟨k, v⟩ := e
    by_cases hk : k = key
    · simp only [get?, if_pos hk, Option.some.injEq] at h
      simp [hk, h]
    · simp only [get?, if_neg hk] at h
      exact List.mem_cons_of_mem _ (ih h)

/-- A key is held exactly if something is found under it. -/
theorem mem_keys_iff {key : κ} {t : List (κ × α)} : key ∈ keys t ↔ (get? key t).isSome := by
  induction t with
  | nil => simp [keys]
  | cons e rest ih =>
    obtain ⟨k, v⟩ := e
    simp only [keys, List.map_cons, List.mem_cons] at ih ⊢
    by_cases hk : k = key
    · simp [get?, hk]
    · simp [get?, hk, Ne.symm hk, ih]

/-- **Where each key is held once, looking up is being an entry.** -/
theorem get?_eq_some_iff {key : κ} {value : α} {t : List (κ × α)} (hn : (keys t).Nodup) :
    get? key t = some value ↔ (key, value) ∈ t := by
  refine ⟨mem_of_get?, fun h => ?_⟩
  induction t with
  | nil => simp at h
  | cons e rest ih =>
    obtain ⟨k, v⟩ := e
    simp only [keys, List.map_cons, List.nodup_cons] at hn
    rcases List.mem_cons.mp h with heq | hmem
    · cases heq
      simp [get?]
    · have hk : k ≠ key := fun hk => hn.1 (hk ▸ List.mem_map_of_mem (f := Prod.fst) hmem)
      simp only [get?, if_neg hk]
      exact ih hn.2 hmem

/-- Setting a key twice is setting it once. -/
theorem put_put (key : κ) (value value' : α) (t : List (κ × α)) :
    put key value (put key value' t) = put key value t := by
  induction t with
  | nil => simp [put]
  | cons e rest ih =>
    obtain ⟨k, v⟩ := e
    by_cases h : k = key <;> simp [put, h, ih]

/-- Setting a key adds no other. -/
theorem mem_keys_put {key other : κ} {value : α} {t : List (κ × α)} :
    other ∈ keys (put key value t) ↔ other = key ∨ other ∈ keys t := by
  simp only [mem_keys_iff, get?_put]
  by_cases h : key = other
  · simp [h]
  · simp [h, Ne.symm h]

/-- Setting a key keeps every key single. -/
theorem nodup_keys_put {key : κ} {value : α} {t : List (κ × α)} (hn : (keys t).Nodup) :
    (keys (put key value t)).Nodup := by
  induction t with
  | nil => simp [put, keys]
  | cons e rest ih =>
    obtain ⟨k, v⟩ := e
    simp only [keys, List.map_cons, List.nodup_cons] at hn
    by_cases h : k = key
    · subst h
      simpa [put, keys] using hn
    · rw [put, if_neg h]
      change (k :: keys (put key value rest)).Nodup
      rw [List.nodup_cons, mem_keys_put, not_or]
      exact ⟨⟨h, hn.1⟩, ih hn.2⟩

/-- An entry with a new key comes last. -/
theorem put_of_not_mem {key : κ} (value : α) {t : List (κ × α)} (h : key ∉ keys t) :
    put key value t = t ++ [(key, value)] := by
  induction t with
  | nil => rfl
  | cons e rest ih =>
    obtain ⟨k, v⟩ := e
    simp only [keys, List.map_cons, List.mem_cons, not_or] at h ih ⊢
    simp [put, Ne.symm h.1, ih h.2]

/-- So does the key. -/
theorem keys_put_of_not_mem {key : κ} {value : α} {t : List (κ × α)} (h : key ∉ keys t) :
    keys (put key value t) = keys t ++ [key] := by
  rw [put_of_not_mem value h, keys, List.map_append]
  rfl

/-- Taking a key out keeps every key single. -/
theorem nodup_keys_erase {key : κ} {t : List (κ × α)} (hn : (keys t).Nodup) :
    (keys (erase key t)).Nodup := by
  induction t with
  | nil => exact hn
  | cons e rest ih =>
    obtain ⟨k, v⟩ := e
    simp only [keys, List.map_cons, List.nodup_cons] at hn
    by_cases h : k = key
    · simpa [erase, h] using ih hn.2
    · rw [erase, if_neg h]
      change (k :: keys (erase key rest)).Nodup
      rw [List.nodup_cons, mem_keys_iff, get?_erase]
      refine ⟨fun hk => hn.1 (mem_keys_iff.mpr ?_), ih hn.2⟩
      simpa [Ne.symm h] using hk

/-- Changing a value that is there is setting it. -/
theorem update_eq_put {key : κ} {value : α} (f : α → α) {t : List (κ × α)}
    (h : get? key t = some value) : update key f t = put key (f value) t := by
  induction t with
  | nil => simp at h
  | cons e rest ih =>
    obtain ⟨k, v⟩ := e
    by_cases hk : k = key
    · simp only [get?, if_pos hk, Option.some.injEq] at h
      simp [update, put, hk, h]
    · simp only [get?, if_neg hk] at h
      simp [update, put, hk, ih h]

/-- Where each key is held once, changing a value goes over all entries. -/
theorem update_eq_map {key : κ} (f : α → α) {t : List (κ × α)} (hn : (keys t).Nodup) :
    update key f t = t.map fun e => if e.1 = key then (e.1, f e.2) else e := by
  induction t with
  | nil => rfl
  | cons e rest ih =>
    obtain ⟨k, v⟩ := e
    obtain ⟨hnot, hrest⟩ := List.nodup_cons.mp hn
    by_cases hk : k = key
    · subst hk
      have hsame : rest.map (fun e => if e.1 = k then (e.1, f e.2) else e) = rest := by
        refine (List.map_congr_left fun e he => ?_).trans (List.map_id rest)
        have hmem : e.1 ∈ keys rest := List.mem_map_of_mem he
        have hne : e.1 ≠ k := by
          rintro rfl
          exact hnot hmem
        simp [hne]
      simp [update, hsame]
    · simp [update, hk, ih hrest]

/-- Where each key is held once, what is there after a change was there or is
the value changed. -/
theorem mem_update_iff {key : κ} {f : α → α} {t : List (κ × α)} (hn : (keys t).Nodup)
    {e : κ × α} :
    e ∈ update key f t ↔ (e.1 = key ∧ ∃ v, (key, v) ∈ t ∧ e.2 = f v) ∨ (e.1 ≠ key ∧ e ∈ t) := by
  obtain ⟨k, w⟩ := e
  rw [update_eq_map f hn, List.mem_map]
  constructor
  · rintro ⟨⟨k', v⟩, hmem, heq⟩
    by_cases hk : k' = key
    · rw [if_pos hk] at heq
      cases heq
      exact .inl ⟨hk, v, hk ▸ hmem, rfl⟩
    · rw [if_neg hk] at heq
      cases heq
      exact .inr ⟨hk, hmem⟩
  · rintro (⟨rfl, v, hmem, rfl⟩ | ⟨hk, hmem⟩)
    · exact ⟨(k, v), hmem, if_pos rfl⟩
    · exact ⟨(k, w), hmem, if_neg hk⟩

/-- What is there after a key was set was there before, or is the new entry. -/
theorem mem_put {key : κ} {value : α} {t : List (κ × α)} {e : κ × α} (h : e ∈ put key value t) :
    e = (key, value) ∨ e ∈ t := by
  induction t with
  | nil => exact .inl (List.mem_singleton.mp h)
  | cons d rest ih =>
    obtain ⟨k, v⟩ := d
    by_cases hk : k = key
    · rw [put, if_pos hk] at h
      rcases List.mem_cons.mp h with rfl | h
      · exact .inl (by rw [hk])
      · exact .inr (List.mem_cons_of_mem _ h)
    · rw [put, if_neg hk] at h
      rcases List.mem_cons.mp h with rfl | h
      · exact .inr List.mem_cons_self
      · exact (ih h).imp_right (List.mem_cons_of_mem _)

/-- What is there after a change was there before, or is a value changed. -/
theorem mem_update {key : κ} {f : α → α} {t : List (κ × α)} {e : κ × α} (h : e ∈ update key f t) :
    e ∈ t ∨ ∃ v, (key, v) ∈ t ∧ e = (key, f v) := by
  induction t with
  | nil => exact .inl h
  | cons d rest ih =>
    obtain ⟨k, v⟩ := d
    by_cases hk : k = key
    · rw [update, if_pos hk] at h
      subst hk
      rcases List.mem_cons.mp h with rfl | h
      · exact .inr ⟨v, List.mem_cons_self, rfl⟩
      · exact .inl (List.mem_cons_of_mem _ h)
    · rw [update, if_neg hk] at h
      rcases List.mem_cons.mp h with rfl | h
      · exact .inl List.mem_cons_self
      · rcases ih h with h | ⟨w, hw, rfl⟩
        · exact .inl (List.mem_cons_of_mem _ h)
        · exact .inr ⟨w, List.mem_cons_of_mem _ hw, rfl⟩

/-- Taking a key out goes over all entries. -/
theorem erase_eq_filter (key : κ) (t : List (κ × α)) :
    erase key t = t.filter fun e => e.1 ≠ key := by
  induction t with
  | nil => rfl
  | cons e rest ih =>
    obtain ⟨k, v⟩ := e
    by_cases hk : k = key <;> simp [erase, hk, ih]

/-- Taking out a key that is not there changes nothing. -/
theorem erase_of_none {key : κ} {t : List (κ × α)} (h : get? key t = none) : erase key t = t := by
  induction t with
  | nil => rfl
  | cons e rest ih =>
    obtain ⟨k, v⟩ := e
    by_cases hk : k = key
    · simp [get?, hk] at h
    · simp only [get?, if_neg hk] at h
      rw [erase, if_neg hk, ih h]

/-- Putting a value where it is changes nothing. -/
theorem update_self {key : κ} {value : α} {t : List (κ × α)} (hn : (keys t).Nodup)
    (h : (key, value) ∈ t) : update key (fun _ => value) t = t := by
  rw [update_eq_map _ hn]
  refine (List.map_congr_left fun e he => ?_).trans (List.map_id t)
  obtain ⟨k, v⟩ := e
  by_cases hk : k = key
  · subst hk
    have hsame : some v = some value :=
      ((get?_eq_some_iff hn).mpr he).symm.trans ((get?_eq_some_iff hn).mpr h)
    cases hsame
    simp
  · simp [hk]

/-- What is there after a key was taken out was there under another. -/
theorem mem_erase_iff {key : κ} {t : List (κ × α)} {e : κ × α} :
    e ∈ erase key t ↔ e ∈ t ∧ e.1 ≠ key := by
  simp [erase_eq_filter]

/-- Where each key is held once, taking one out takes one entry out. -/
theorem perm_erase {key : κ} {value : α} {t : List (κ × α)} (hn : (keys t).Nodup)
    (h : (key, value) ∈ t) : t.Perm ((key, value) :: erase key t) := by
  induction t with
  | nil => simp at h
  | cons e rest ih =>
    obtain ⟨k, v⟩ := e
    obtain ⟨hnot, hrest⟩ := List.nodup_cons.mp hn
    rcases List.mem_cons.mp h with heq | hmem
    · cases heq
      have hnone : get? key rest = none := by
        rw [← Option.not_isSome_iff_eq_none, ← mem_keys_iff]
        exact hnot
      rw [erase, if_pos rfl, erase_of_none hnone]
    · have hkey : key ∈ keys rest := List.mem_map_of_mem (f := Prod.fst) hmem
      have hne : k ≠ key := fun heq => hnot (heq ▸ hkey)
      rw [erase, if_neg hne]
      exact ((ih hrest hmem).cons _).trans (.swap ..)

/-- Changing a value leaves the keys as they are. -/
@[simp] theorem keys_update (key : κ) (f : α → α) (t : List (κ × α)) :
    keys (update key f t) = keys t := by
  induction t with
  | nil => rfl
  | cons e rest ih =>
    obtain ⟨k, v⟩ := e
    simp only [keys] at ih
    by_cases h : k = key <;> simp [update, keys, h, ih]

/-- Changing a value twice is changing it once. -/
theorem update_update (key : κ) (f g : α → α) (t : List (κ × α)) :
    update key f (update key g t) = update key (fun v => f (g v)) t := by
  induction t with
  | nil => rfl
  | cons e rest ih =>
    obtain ⟨k, v⟩ := e
    by_cases h : k = key <;> simp [update, h, ih]

/-- What is told of every entry is told as before, if a change makes no difference to
it. -/
theorem filterMap_update {key : κ} {f : α → α} {g : κ × α → Option β} {t : List (κ × α)}
    (h : ∀ v, get? key t = some v → g (key, f v) = g (key, v)) :
    (update key f t).filterMap g = t.filterMap g := by
  induction t with
  | nil => rfl
  | cons e rest ih =>
    obtain ⟨k, v⟩ := e
    by_cases hk : k = key
    · subst hk
      simp [update, List.filterMap_cons, h v (by simp [get?])]
    · simp only [get?, if_neg hk] at h
      simp [update, hk, List.filterMap_cons, ih h]

/-- A value that was changed is taken out like any other. -/
theorem erase_update (key : κ) (f : α → α) (t : List (κ × α)) :
    erase key (update key f t) = erase key t := by
  induction t with
  | nil => rfl
  | cons e rest ih =>
    obtain ⟨k, v⟩ := e
    by_cases h : k = key <;> simp [update, erase, h, ih]

omit [DecidableEq κ] in
/-- Changing every value leaves the keys as they are. -/
@[simp] theorem keys_map (f : α → β) (t : List (κ × α)) :
    keys (t.map fun e => (e.1, f e.2)) = keys t := by
  simp [keys]

end Table

end LanguageRelay
