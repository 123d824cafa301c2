/-
Named values in the order in which their names first arrived. A value given under a name that is
already there takes the place of the old one, so a redefinition keeps the position of what it replaces.
-/

namespace PluginTools

structure Roster (α : Type) where
  entries : List (String × α) := []
deriving Repr, Inhabited

namespace Roster

/-- Puts a value at the first entry of the name, or behind all entries. -/
def place (name : String) (value : α) : List (String × α) → List (String × α)
  | [] => [(name, value)]
  | (n, v) :: rest => if n = name then (n, value) :: rest else (n, v) :: place name value rest

/-- The value of the first entry of the name. -/
def find? (name : String) : List (String × α) → Option α
  | [] => none
  | (n, v) :: rest => if n = name then some v else find? name rest

def get? (r : Roster α) (name : String) : Option α := find? name r.entries

def insert (r : Roster α) (name : String) (value : α) : Roster α := ⟨place name value r.entries⟩

/-- Inserts a value and tells which one it replaced. -/
def replace (r : Roster α) (name : String) (value : α) : Option α × Roster α :=
  (r.get? name, r.insert name value)

def names (r : Roster α) : List String := r.entries.map (·.1)

def values (r : Roster α) : List α := r.entries.map (·.2)

def size (r : Roster α) : Nat := r.entries.length

def isEmpty (r : Roster α) : Bool := r.entries.isEmpty

/-- The values by name, inserted one after another. -/
def ofList (values : List α) (name : α → String) : Roster α :=
  values.foldl (fun r v => r.insert (name v) v) {}

end Roster
end PluginTools
