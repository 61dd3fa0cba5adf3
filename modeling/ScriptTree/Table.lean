/-!
Tables that keep their entries in the order in which the keys were first set.
-/

namespace ScriptTree

/-- Entries of keys and values, at most one for a key. -/
abbrev Table (κ α : Type) := List (κ × α)

namespace Table

variable {κ α : Type} [BEq κ]

/-- Sets the value of a key. A known key keeps its place. -/
def set (key : κ) (value : α) : Table κ α → Table κ α
  | [] => [(key, value)]
  | (k, v) :: rest => if k == key then (k, value) :: rest else (k, v) :: set key value rest

def get? (key : κ) (table : Table κ α) : Option α := (table.find? fun e => e.1 == key).map Prod.snd

def erase (key : κ) (table : Table κ α) : Table κ α := table.filter fun e => !(e.1 == key)

def ofEntries (entries : List (κ × α)) : Table κ α := entries.foldl (fun t e => set e.1 e.2 t) []

def keys (table : Table κ α) : List κ := table.map Prod.fst

end Table

end ScriptTree
