/-!
# Ordered tables

Association lists in the order in which their keys came.  `upsert` is the one way in: it changes a key
in its place or adds it at the end, so a table built by it never holds a key twice.
-/

namespace SchemaSearch.Table

variable {β : Type}

/-- The keys in order. -/
def keys (entries : List (String × β)) : List String := entries.map (·.1)

/-- The value of a key. -/
def find? (key : String) : List (String × β) → Option β
  | [] => none
  | (k, v) :: rest => if k = key then some v else find? key rest

/-- Whether a key is there. -/
def hasKey (key : String) (entries : List (String × β)) : Bool := (find? key entries).isSome

/-- Change the value of a key in its place, or add the key at the end with a fresh value. -/
def upsert (key : String) (change : β → β) (fresh : β) : List (String × β) → List (String × β)
  | [] => [(key, fresh)]
  | (k, v) :: rest =>
    if k = key then (k, change v) :: rest else (k, v) :: upsert key change fresh rest

/-- Set the value of a key. -/
def insert (key : String) (value : β) (entries : List (String × β)) : List (String × β) :=
  upsert key (fun _ => value) value entries

/-- The entries without a key. -/
def erase (key : String) : List (String × β) → List (String × β)
  | [] => []
  | (k, v) :: rest => if k = key then rest else (k, v) :: erase key rest

/-! ## Joining tables -/

/-- The first of two joined tables is looked into first. -/
theorem find?_append (key : String) (first second : List (String × β)) :
    find? key (first ++ second) = (find? key first).or (find? key second) := by
  induction first with
  | nil => simp [find?]
  | cons entry rest ih =>
    obtain ⟨k, v⟩ := entry
    by_cases h : k = key <;> simp [find?, h, ih]

/-! ## What an update does -/

theorem find?_upsert_self (key : String) (change : β → β) (fresh : β)
    (entries : List (String × β)) :
    find? key (upsert key change fresh entries) = some ((find? key entries).elim fresh change) := by
  induction entries with
  | nil => simp [upsert, find?]
  | cons entry rest ih =>
    obtain ⟨k, v⟩ := entry
    by_cases h : k = key <;> simp [upsert, find?, h, ih]

theorem find?_upsert_of_ne {key other : String} (h : other ≠ key) (change : β → β) (fresh : β)
    (entries : List (String × β)) :
    find? other (upsert key change fresh entries) = find? other entries := by
  induction entries with
  | nil => simp [upsert, find?, Ne.symm h]
  | cons entry rest ih =>
    obtain ⟨k, v⟩ := entry
    by_cases hk : k = key
    · subst hk
      simp [upsert, find?, Ne.symm h]
    · simp only [upsert, hk, if_false, find?, ih]

/-- A key that is there keeps its place, a new one goes to the end. -/
theorem keys_upsert (key : String) (change : β → β) (fresh : β) (entries : List (String × β)) :
    keys (upsert key change fresh entries)
      = if key ∈ keys entries then keys entries else keys entries ++ [key] := by
  induction entries with
  | nil => simp [upsert, keys]
  | cons entry rest ih =>
    obtain ⟨k, v⟩ := entry
    by_cases h : k = key
    · simp [upsert, keys, h]
    · simp only [keys] at ih
      simp only [upsert, keys, h, if_false, List.map_cons, List.mem_cons, ih, Ne.symm h, false_or]
      split <;> simp_all

/-- Updates keep keys distinct. -/
theorem nodup_keys_upsert {entries : List (String × β)} (h : (keys entries).Nodup) (key : String)
    (change : β → β) (fresh : β) : (keys (upsert key change fresh entries)).Nodup := by
  rw [keys_upsert]
  split
  · exact h
  · rename_i hk
    exact List.nodup_append.2 ⟨h, by simp, by
      intro a ha b hb
      simp only [List.mem_singleton] at hb
      subst hb
      exact fun e => hk (e ▸ ha)⟩

end SchemaSearch.Table
