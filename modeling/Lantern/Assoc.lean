/-!
# Association lists

Finite maps from names, in the order in which the names were first put in.
-/

namespace Lantern

/-- A finite map from names. -/
abbrev Assoc (α : Type) := List (String × α)

namespace Assoc

/-- The value of a name. -/
def get? {α : Type} (xs : Assoc α) (name : String) : Option α :=
  (xs.find? (·.1 == name)).map Prod.snd

/-- Whether a name has a value. -/
def has {α : Type} (xs : Assoc α) (name : String) : Bool := xs.any (·.1 == name)

/-- Gives a name a value, in its place if it had one. -/
def put {α : Type} (xs : Assoc α) (name : String) (value : α) : Assoc α :=
  if xs.has name then xs.map fun x => if x.1 == name then (name, value) else x
  else xs ++ [(name, value)]

/-- The names with a value. -/
def names {α : Type} (xs : Assoc α) : List String := xs.map Prod.fst

end Assoc

/-- Adds `x` at the end of a list of distinct elements, unless it is there. -/
def addNew {α : Type} [BEq α] (xs : List α) (x : α) : List α :=
  if xs.contains x then xs else xs ++ [x]

end Lantern
