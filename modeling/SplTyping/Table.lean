namespace SplTyping

/-!
# Tables

A table keeps one value per key, in the order in which the keys were first
inserted. Inserting a known key replaces its value in place, so every operation
is described by its effect on `get?`, and mapping the values commutes with
insertion on the nose.
-/

/-- Values by key, in the order of first insertion. -/
structure Table (κ α : Type) where
  entries : List (κ × α)
  deriving DecidableEq

namespace Table

variable {κ α β : Type} [DecidableEq κ]

/-- The table without entries. -/
def empty : Table κ α where
  entries := []

instance : Inhabited (Table κ α) where
  default := empty

/-- The value of a key among some entries. -/
def lookup? (key : κ) : List (κ × α) → Option α
  | [] => none
  | entry :: rest => if entry.1 = key then some entry.2 else lookup? key rest

/-- The value of a key. -/
def get? (table : Table κ α) (key : κ) : Option α :=
  lookup? key table.entries

/-- Whether a key has a value. -/
def contains (table : Table κ α) (key : κ) : Bool :=
  (table.get? key).isSome

/-- Entries with the value of one key set. -/
def insertEntry (key : κ) (value : α) : List (κ × α) → List (κ × α)
  | [] => [(key, value)]
  | entry :: rest =>
      if entry.1 = key then
        (key, value) :: rest
      else
        entry :: insertEntry key value rest

/-- The table with the value of one key set. -/
def insert (table : Table κ α) (key : κ) (value : α) : Table κ α where
  entries := insertEntry key value table.entries

/-- The table without one key. -/
def erase (table : Table κ α) (key : κ) : Table κ α where
  entries := table.entries.filter fun entry => entry.1 ≠ key

/-- The table with every value changed by `change`. -/
def map (change : α → β) (table : Table κ α) : Table κ β where
  entries := table.entries.map fun entry => (entry.1, change entry.2)

/-- The number of keys. -/
def size (table : Table κ α) : Nat :=
  table.entries.length

/-- Whether two tables give the same value to every key. -/
def sameAs [DecidableEq α] (first second : Table κ α) : Bool :=
  (first.entries.all fun entry => second.get? entry.1 = first.get? entry.1) &&
    second.entries.all fun entry => first.get? entry.1 = second.get? entry.1

@[simp]
theorem get?_empty (key : κ) : (empty : Table κ α).get? key = none :=
  rfl

/-- Insertion sets the value of its own key and of no other. -/
theorem get?_insert
    (table : Table κ α)
    (key other : κ)
    (value : α) :
    (table.insert key value).get? other =
      if other = key then some value else table.get? other := by
  obtain ⟨entries⟩ := table
  simp only [get?, insert]
  induction entries with
  | nil =>
      simp only [insertEntry, lookup?, eq_comm]
  | cons entry rest inductionHypothesis =>
      by_cases isEntry : entry.1 = key
      · subst isEntry
        by_cases isOther : other = entry.1
        · simp [insertEntry, lookup?, isOther]
        · simp [insertEntry, lookup?, isOther, Ne.symm isOther]
      · by_cases isOther : entry.1 = other
        · subst isOther
          simp [insertEntry, lookup?, isEntry]
        · simp only [insertEntry, lookup?, isEntry, isOther, if_false,
            inductionHypothesis]

/-- Insertion at a free key keeps all values. -/
theorem get?_insert_of_free
    {table : Table κ α}
    {key other : κ}
    {value known : α}
    (free : table.contains key = false)
    (bound : table.get? other = some known) :
    (table.insert key value).get? other = some known := by
  rw [get?_insert]
  by_cases isKey : other = key
  · rw [← isKey, contains, bound] at free
    cases free
  · rw [if_neg isKey, bound]

/-- A value of the changed table is a changed value. -/
theorem get?_map
    (change : α → β)
    (table : Table κ α)
    (key : κ) :
    (table.map change).get? key = (table.get? key).map change := by
  obtain ⟨entries⟩ := table
  simp only [get?, map]
  induction entries with
  | nil => rfl
  | cons entry rest inductionHypothesis =>
      by_cases isKey : entry.1 = key
      · simp [lookup?, isKey]
      · simp [lookup?, isKey, inductionHypothesis]

/-- Erasure takes away its own key and no other. -/
theorem get?_erase
    (table : Table κ α)
    (key other : κ) :
    (table.erase key).get? other =
      if other = key then none else table.get? other := by
  obtain ⟨entries⟩ := table
  simp only [get?, erase]
  induction entries with
  | nil => simp [lookup?]
  | cons entry rest inductionHypothesis =>
      by_cases isKey : entry.1 = key
      · rw [List.filter_cons_of_neg (by simp [isKey]), inductionHypothesis]
        subst isKey
        by_cases isOther : other = entry.1
        · simp [isOther]
        · simp [lookup?, isOther, Ne.symm isOther]
      · rw [List.filter_cons_of_pos (by simp [isKey])]
        by_cases isEntry : entry.1 = other
        · subst isEntry
          simp [lookup?, isKey]
        · simp only [lookup?, isEntry, if_false, inductionHypothesis]

/-- Changing values commutes with insertion. -/
theorem map_insert
    (change : α → β)
    (table : Table κ α)
    (key : κ)
    (value : α) :
    (table.insert key value).map change =
      (table.map change).insert key (change value) := by
  obtain ⟨entries⟩ := table
  simp only [map, insert, mk.injEq]
  induction entries with
  | nil => rfl
  | cons entry rest inductionHypothesis =>
      by_cases isKey : entry.1 = key
      · simp [insertEntry, isKey]
      · simp [insertEntry, isKey, inductionHypothesis]

end Table

end SplTyping
