/-! # Maps in order of insertion

A map from names to values that lists its names in the order in which they were first given a value.
Giving a name a new value replaces the old one and keeps the place in the list.

Main statements: `get?_set` (only the given name changes) and `names_set` (only a new name is added,
at the end). -/

namespace LittlePascal

/-- Names with their values, in order of first insertion. -/
structure OrderedMap (α : Type) where
  entries : List (String × α)
  deriving DecidableEq, Repr

namespace OrderedMap

variable {α : Type}

/-- The map without names. -/
def empty : OrderedMap α := ⟨[]⟩

/-- The value of a name. -/
def get? (m : OrderedMap α) (name : String) : Option α := m.entries.lookup name

/-- The names in order. -/
def names (m : OrderedMap α) : List String := m.entries.map Prod.fst

/-- The values in the order of their names. -/
def values (m : OrderedMap α) : List α := m.entries.map Prod.snd

/-- A list of entries in which one name has a new value. -/
def setEntry (name : String) (value : α) : List (String × α) → List (String × α)
  | [] => [(name, value)]
  | entry :: rest =>
    if name == entry.1 then (name, value) :: rest else entry :: setEntry name value rest

/-- The map in which one name has a new value. -/
def set (m : OrderedMap α) (name : String) (value : α) : OrderedMap α :=
  ⟨setEntry name value m.entries⟩

@[simp] theorem get?_empty (name : String) : (empty : OrderedMap α).get? name = none := rfl

@[simp] theorem names_empty : (empty : OrderedMap α).names = [] := rfl

theorem lookup_setEntry (name other : String) (value : α) (entries : List (String × α)) :
    (setEntry name value entries).lookup other =
      if other = name then some value else entries.lookup other := by
  induction entries with
  | nil =>
    by_cases h : other = name
    · simp [setEntry, h]
    · simp [setEntry, List.lookup_cons, h, beq_eq_false_iff_ne.mpr h]
  | cons entry rest ih =>
    obtain ⟨key, old⟩ := entry
    by_cases hk : name = key
    · subst hk
      by_cases h : other = name
      · simp [setEntry, h]
      · simp [setEntry, List.lookup_cons, h, beq_eq_false_iff_ne.mpr h]
    · by_cases h : other = key
      · subst h
        simp [setEntry, hk, Ne.symm hk]
      · simp [setEntry, List.lookup_cons, hk, beq_eq_false_iff_ne.mpr h, ih]

/-- A new value changes the value of its own name only. -/
@[simp] theorem get?_set (m : OrderedMap α) (name other : String) (value : α) :
    (m.set name value).get? other = if other = name then some value else m.get? other :=
  lookup_setEntry name other value m.entries

theorem keys_setEntry (name : String) (value : α) (entries : List (String × α)) :
    (setEntry name value entries).map Prod.fst =
      if name ∈ entries.map Prod.fst then entries.map Prod.fst
      else entries.map Prod.fst ++ [name] := by
  induction entries with
  | nil => simp [setEntry]
  | cons entry rest ih =>
    by_cases hk : name = entry.1
    · simp [setEntry, hk]
    · simp only [setEntry, beq_iff_eq, hk, if_false, List.map_cons, ih, List.mem_cons, false_or]
      split <;> simp

/-- A name takes its place in the list when it first gets a value, and keeps it. -/
theorem names_set (m : OrderedMap α) (name : String) (value : α) :
    (m.set name value).names = if name ∈ m.names then m.names else m.names ++ [name] :=
  keys_setEntry name value m.entries

end OrderedMap

end LittlePascal
