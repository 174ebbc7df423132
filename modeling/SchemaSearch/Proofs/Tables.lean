import SchemaSearch.Table

/-!
# Tables without repeated keys

Where no key comes twice, a table is a function from its keys to their values: it does not matter in which
order its entries stand, or from which end it is read.  Its values may be changed all at once.
-/

namespace SchemaSearch.Table

variable {β : Type} {key : String} {value : β} {entries : List (String × β)}

theorem find?_eq_none : ∀ {entries : List (String × β)}, key ∉ keys entries → find? key entries = none
  | [], _ => rfl
  | (k, _) :: rest, h => by
    have hne : k ≠ key := by
      rintro rfl
      exact h List.mem_cons_self
    rw [find?, if_neg hne]
    exact find?_eq_none fun hmem => h (List.mem_cons_of_mem _ hmem)

theorem mem_of_find? : ∀ {entries : List (String × β)}, find? key entries = some value →
    (key, value) ∈ entries
  | (k, v) :: rest, h => by
    rw [find?] at h
    split at h
    · rename_i hkey
      cases h
      rw [← hkey]
      exact List.mem_cons_self
    · exact List.mem_cons_of_mem _ (mem_of_find? h)

theorem keys_reverse : keys entries.reverse = (keys entries).reverse := List.map_reverse

theorem mem_keys_of_mem (h : (key, value) ∈ entries) : key ∈ keys entries := List.mem_map_of_mem h

/-- A key is there with one of its values. -/
theorem exists_find?_of_mem (h : key ∈ keys entries) : ∃ value, find? key entries = some value := by
  induction entries with
  | nil => cases h
  | cons entry rest ih =>
    obtain ⟨k, v⟩ := entry
    by_cases hk : k = key
    · exact ⟨v, if_pos hk⟩
    · rw [find?, if_neg hk]
      apply ih
      exact (List.mem_cons.mp h).resolve_left (Ne.symm hk)

theorem mem_keys_iff : key ∈ keys entries ↔ (find? key entries).isSome = true := by
  rw [Option.isSome_iff_exists]
  constructor
  · exact exists_find?_of_mem
  · rintro ⟨value, hfound⟩
    exact mem_keys_of_mem (mem_of_find? hfound)

/-- Where no key comes twice, a key has one value. -/
theorem value_unique {value' : β} (hnodup : (keys entries).Nodup) (h : (key, value) ∈ entries)
    (h' : (key, value') ∈ entries) : value = value' := by
  induction entries with
  | nil => cases h
  | cons entry rest ih =>
    obtain ⟨hfresh, hrest⟩ := List.nodup_cons.mp hnodup
    rcases List.mem_cons.mp h with rfl | hlater
    · rcases List.mem_cons.mp h' with hsame | hlater'
      · exact (Prod.mk.inj hsame).2.symm
      · exact absurd (mem_keys_of_mem hlater') hfresh
    · rcases List.mem_cons.mp h' with rfl | hlater'
      · exact absurd (mem_keys_of_mem hlater) hfresh
      · exact ih hrest hlater hlater'

/-- Where no key comes twice, a value is found under its key. -/
theorem find?_of_mem (hnodup : (keys entries).Nodup) (h : (key, value) ∈ entries) :
    find? key entries = some value := by
  obtain ⟨found, hfound⟩ := exists_find?_of_mem (mem_keys_of_mem h)
  rw [hfound, value_unique hnodup (mem_of_find? hfound) h]

theorem keys_perm {entries' : List (String × β)} (h : entries.Perm entries') :
    (keys entries).Perm (keys entries') := h.map _

/-- Where no key comes twice, the order of the entries does not matter. -/
theorem find?_perm {entries' : List (String × β)} (h : entries.Perm entries')
    (hnodup : (keys entries).Nodup) : find? key entries = find? key entries' := by
  cases hfound : find? key entries with
  | none =>
    have hfresh : key ∉ keys entries' := by
      rw [← (keys_perm h).mem_iff]
      intro hmem
      obtain ⟨value, hsome⟩ := exists_find?_of_mem hmem
      rw [hfound] at hsome
      cases hsome
    exact (find?_eq_none hfresh).symm
  | some value =>
    apply Eq.symm
    apply find?_of_mem ((keys_perm h).nodup_iff.mp hnodup)
    exact h.mem_iff.mp (mem_of_find? hfound)

/-- Where no key comes twice, it does not matter from which end a table is read. -/
theorem find?_reverse (h : (keys entries).Nodup) : find? key entries.reverse = find? key entries :=
  (find?_perm (List.reverse_perm entries).symm h).symm

/-- A key that is not there goes to the end. -/
theorem upsert_of_not_mem (change : β → β) (fresh : β) : ∀ {entries : List (String × β)},
    key ∉ keys entries → upsert key change fresh entries = entries ++ [(key, fresh)]
  | [], _ => rfl
  | (k, _) :: rest, h => by
    have hne : k ≠ key := by
      rintro rfl
      exact h List.mem_cons_self
    rw [upsert, if_neg hne, upsert_of_not_mem change fresh fun hmem => h (List.mem_cons_of_mem _ hmem)]
    rfl

/-- Setting the value that a key has changes nothing. -/
theorem insert_self : ∀ {entries : List (String × β)}, find? key entries = some value →
    insert key value entries = entries
  | (k, v) :: rest, h => by
    rw [insert, upsert]
    rw [find?] at h
    split at h
    · rename_i hkey
      cases h
      rw [if_pos hkey]
    · rename_i hkey
      rw [if_neg hkey]
      exact congrArg ((k, v) :: ·) (insert_self h)

theorem mem_keys_upsert {other : String} {change : β → β} {fresh : β} :
    other ∈ keys (upsert key change fresh entries) ↔ other ∈ keys entries ∨ other = key := by
  rw [keys_upsert]
  split
  · rename_i hthere
    exact ⟨.inl, fun h => h.elim id fun hkey => hkey ▸ hthere⟩
  · rw [List.mem_append, List.mem_singleton]

/-! ## Setting one key -/

theorem mem_insert {entry : String × β} : ∀ {entries : List (String × β)},
    entry ∈ insert key value entries → entry = (key, value) ∨ entry ∈ entries
  | [], h => .inl (List.mem_singleton.mp h)
  | (k, v) :: rest, h => by
    rw [insert, upsert] at h
    split at h
    · rename_i hkey
      rcases List.mem_cons.mp h with rfl | h
      · exact .inl (by rw [hkey])
      · exact .inr (List.mem_cons_of_mem _ h)
    · rcases List.mem_cons.mp h with rfl | h
      · exact .inr List.mem_cons_self
      · exact (mem_insert h).imp_right (List.mem_cons_of_mem _)

/-- Without a key it makes no difference what the key is set to. -/
theorem filter_insert_self (key : String) (value : β) (entries : List (String × β)) :
    (insert key value entries).filter (·.1 ≠ key) = entries.filter (·.1 ≠ key) := by
  induction entries with
  | nil => simp [insert, upsert]
  | cons entry rest ih =>
    obtain ⟨k, v⟩ := entry
    rw [insert, upsert]
    split
    · rename_i hkey
      simp [hkey]
    · rw [List.filter_cons, List.filter_cons, ← insert, ih]

/-- Another key is set in what is left as it is in the whole. -/
theorem filter_insert_of_ne {other : String} (hne : other ≠ key) (value : β) (entries : List (String × β)) :
    (insert other value entries).filter (·.1 ≠ key) = insert other value (entries.filter (·.1 ≠ key)) := by
  induction entries with
  | nil => simp [insert, upsert, hne]
  | cons entry rest ih =>
    obtain ⟨k, v⟩ := entry
    rw [insert, upsert]
    by_cases hk : k = other
    · subst hk
      simp [insert, upsert, hne]
    · rw [if_neg hk, List.filter_cons, List.filter_cons, ← insert, ih]
      split
      · rw [insert, insert, upsert, if_neg hk]
      · rfl

/-! ## Taking a key out -/

theorem keys_erase (key : String) (entries : List (String × β)) :
    keys (erase key entries) = (keys entries).erase key := by
  induction entries with
  | nil => rfl
  | cons entry rest ih =>
    obtain ⟨k, v⟩ := entry
    rw [erase]
    by_cases hk : k = key
    · simp [keys, hk]
    · simpa [keys, hk] using ih

theorem find?_erase_of_ne {other : String} (hne : other ≠ key) (entries : List (String × β)) :
    find? other (erase key entries) = find? other entries := by
  induction entries with
  | nil => rfl
  | cons entry rest ih =>
    obtain ⟨k, v⟩ := entry
    rw [erase]
    split
    · rename_i hk
      rw [find?, if_neg (hk ▸ hne.symm)]
    · rw [find?, find?, ih]

/-! ## Changing every value -/

section Values

variable {γ : Type} (f : β → γ)

/-- The table with every value changed. -/
def mapValues (entries : List (String × β)) : List (String × γ) :=
  entries.map fun entry => (entry.1, f entry.2)

theorem keys_mapValues (entries : List (String × β)) : keys (mapValues f entries) = keys entries := by
  rw [keys, mapValues, List.map_map]
  rfl

theorem find?_mapValues (key : String) (entries : List (String × β)) :
    find? key (mapValues f entries) = (find? key entries).map f := by
  induction entries with
  | nil => rfl
  | cons entry rest ih =>
    obtain ⟨k, v⟩ := entry
    simp only [mapValues, List.map_cons, find?] at ih ⊢
    split
    · rfl
    · exact ih

/-- A change of one value and a change of all may be made in either order, if they may for each value. -/
theorem mapValues_upsert {change : β → β} {change' : γ → γ} (h : ∀ v, f (change v) = change' (f v))
    (key : String) (fresh : β) (entries : List (String × β)) :
    mapValues f (upsert key change fresh entries) = upsert key change' (f fresh) (mapValues f entries) := by
  induction entries with
  | nil => rfl
  | cons entry rest ih =>
    obtain ⟨k, v⟩ := entry
    simp only [mapValues, upsert, List.map_cons] at ih ⊢
    split
    · rw [List.map_cons, h]
    · rw [List.map_cons, ih]

end Values

end SchemaSearch.Table
