/-
Tables: keys with their values, in the order in which the keys first came. `get?_insert` says what a
table holds after a key was given a value.
-/
namespace ScriptAudit

abbrev Table (κ α : Type) := List (κ × α)

namespace Table

variable {κ α : Type}

def keys (t : Table κ α) : List κ := t.map (·.1)

variable [BEq κ]

/-- The value of a key. -/
def get? (t : Table κ α) (key : κ) : Option α := (t.find? (·.1 == key)).map (·.2)

/-- Adds a key with its value. A key that is there already keeps its place and takes the new value. -/
def insert (t : Table κ α) (key : κ) (value : α) : Table κ α :=
  if t.any (·.1 == key) then t.map fun entry => if entry.1 == key then (entry.1, value) else entry
  else t ++ [(key, value)]

theorem find?_map_key [LawfulBEq κ] {t : Table κ α} {key : κ} (h : t.any (·.1 == key) = true)
    (value : α) :
    (t.map fun entry => if entry.1 == key then (entry.1, value) else entry).find? (·.1 == key)
      = some (key, value) := by
  induction t with
  | nil => simp at h
  | cons entry t ih =>
    obtain ⟨k, v⟩ := entry
    rw [List.map_cons, List.find?_cons]
    by_cases hk : k = key
    · subst hk; simp
    · have h' : t.any (·.1 == key) = true := by simpa [hk] using h
      have hb : (k == key) = false := by simpa using hk
      simp only [hb, Bool.false_eq_true, if_false]
      exact ih h'

theorem find?_map_other [LawfulBEq κ] {t : Table κ α} {key other : κ} (hne : other ≠ key)
    (value : α) :
    ((t.map fun entry => if entry.1 == key then (entry.1, value) else entry).find?
      (·.1 == other)).map (·.2) = (t.find? (·.1 == other)).map (·.2) := by
  induction t with
  | nil => rfl
  | cons entry t ih =>
    obtain ⟨k, v⟩ := entry
    rw [List.map_cons, List.find?_cons, List.find?_cons]
    by_cases hk : k = key
    · subst hk
      have hb : (k == other) = false := by simpa using fun h => hne h.symm
      simp only [beq_self_eq_true, if_true, hb]
      exact ih
    · have hb : (k == key) = false := by simpa using hk
      simp only [hb, Bool.false_eq_true, if_false]
      by_cases ho : k = other
      · subst ho; simp
      · have hb' : (k == other) = false := by simpa using ho
        simp only [hb']
        exact ih

theorem get?_insert_self [LawfulBEq κ] (t : Table κ α) (key : κ) (value : α) :
    (t.insert key value).get? key = some value := by
  unfold insert get?
  split
  · rename_i h; rw [find?_map_key h]; rfl
  · rename_i h
    have hn : t.find? (·.1 == key) = none := by
      rw [List.find?_eq_none]; intro entry he hk
      exact h (List.any_eq_true.2 ⟨entry, he, hk⟩)
    simp [List.find?_append, hn]

theorem get?_insert_other [LawfulBEq κ] (t : Table κ α) {key other : κ} (value : α)
    (hne : other ≠ key) : (t.insert key value).get? other = t.get? other := by
  unfold insert get?
  split
  · exact find?_map_other hne value
  · rw [List.find?_append]
    have hb : (key == other) = false := by simpa using fun h => hne h.symm
    simp [hb]

theorem mem_keys_of_get? [LawfulBEq κ] {t : Table κ α} {key : κ} {value : α}
    (h : t.get? key = some value) : key ∈ t.keys := by
  simp only [get?, Option.map_eq_some_iff] at h
  obtain ⟨entry, hfind, _⟩ := h
  have heq := List.find?_some hfind
  exact List.mem_map.2 ⟨entry, List.mem_of_find?_eq_some hfind, by simpa using heq⟩

end Table

end ScriptAudit
