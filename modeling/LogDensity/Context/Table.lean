/-!
# Ordered tables

A table is a list of named entries in strictly ascending order of the names, code point by code
point; every name occurs once.
-/

namespace LogDensity

/-- Named entries in ascending order of the names. -/
structure Table (α : Type) where
  entries : List (String × α) := []

namespace Table

variable {α : Type}

/-- Puts an entry into its place among ordered ones, for the one of that name if there is one. -/
def insertInto (name : String) (a : α) : List (String × α) → List (String × α)
  | [] => [(name, a)]
  | (n, b) :: rest =>
    if name < n then (name, a) :: (n, b) :: rest
    else if name = n then (name, a) :: rest
    else (n, b) :: insertInto name a rest

/-- Adds an entry or replaces the one of that name. -/
def insert (t : Table α) (name : String) (a : α) : Table α :=
  ⟨insertInto name a t.entries⟩

/-- The entry of a name. -/
def find? (t : Table α) (name : String) : Option α :=
  t.entries.lookup name

/-- The names in order. -/
def names (t : Table α) : List String :=
  t.entries.map Prod.fst

/-- The table of a list of entries, of which later ones replace earlier ones. -/
def ofList (entries : List (String × α)) : Table α :=
  entries.foldl (fun t e => t.insert e.1 e.2) {}

end Table

end LogDensity
