/-!
# Tables

A table maps names to entries. It is kept in ascending order of its names, by code points, which is
the order in which tables are shown.
-/

namespace Colloquy

/-- Entries by name. -/
abbrev Table (α : Type) : Type := List (String × α)

namespace Table

variable {α : Type}

/-- The entry of a name. -/
def get? : Table α → String → Option α
  | [], _ => none
  | (k, a) :: rest, key => if k = key then some a else get? rest key

/-- Gives a name an entry, in place of the one that it has. -/
def insert : Table α → String → α → Table α
  | [], key, a => [(key, a)]
  | (k, b) :: rest, key, a =>
    if key = k then (key, a) :: rest
    else if key < k then (key, a) :: (k, b) :: rest
    else (k, b) :: insert rest key a

/-- Takes the entry of a name away. -/
def erase (t : Table α) (key : String) : Table α := t.filter fun entry => entry.1 ≠ key

/-- The table that results from giving entries one after the other. -/
def ofList (entries : List (String × α)) : Table α := entries.foldl (fun t e => t.insert e.1 e.2) []

/-- Both tables as one; where a name occurs in both, the second decides. -/
def merge (first second : Table α) : Table α := second.foldl (fun t e => t.insert e.1 e.2) first

/-- The names that have an entry. -/
def names (t : Table α) : List String := t.map Prod.fst

@[simp] theorem get?_nil (key : String) : get? ([] : Table α) key = none := rfl

@[simp] theorem get?_insert_self (t : Table α) (key : String) (a : α) :
    get? (t.insert key a) key = some a := by
  induction t with
  | nil => simp [insert, get?]
  | cons entry rest ih =>
    obtain ⟨k, b⟩ := entry
    unfold insert
    split
    · simp [get?]
    · split
      · simp [get?]
      · rename_i hne _
        have hk : k ≠ key := fun h => hne h.symm
        simp [get?, hk, ih]

theorem get?_insert_of_ne (t : Table α) {key other : String} (a : α) (h : other ≠ key) :
    get? (t.insert key a) other = get? t other := by
  induction t with
  | nil => simp [insert, get?, Ne.symm h]
  | cons entry rest ih =>
    obtain ⟨k, b⟩ := entry
    unfold insert
    split
    · rename_i heq
      subst heq
      simp [get?, Ne.symm h]
    · split
      · simp [get?, Ne.symm h]
      · by_cases hk : k = other
        · simp [get?, hk]
        · simp [get?, hk, ih]

@[simp] theorem get?_erase_self (t : Table α) (key : String) : get? (t.erase key) key = none := by
  induction t with
  | nil => rfl
  | cons entry rest ih =>
    obtain ⟨k, b⟩ := entry
    by_cases hk : k = key
    · simpa [erase, hk] using ih
    · have hrest : get? (List.filter (fun entry => !decide (entry.fst = key)) rest) key = none := by
        simpa [erase] using ih
      simp [erase, hk, get?, hrest]

theorem get?_erase_of_ne (t : Table α) {key other : String} (h : other ≠ key) :
    get? (t.erase key) other = get? t other := by
  induction t with
  | nil => rfl
  | cons entry rest ih =>
    obtain ⟨k, b⟩ := entry
    have hrest : get? (List.filter (fun entry => !decide (entry.fst = key)) rest) other =
        get? rest other := by
      simpa [erase] using ih
    by_cases hk : k = key
    · simp [erase, hk, get?, hrest, Ne.symm h]
    · simp [erase, hk, get?, hrest]

end Table

end Colloquy
