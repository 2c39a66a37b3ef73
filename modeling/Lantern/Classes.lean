import Lantern.Tree

/-!
# Class tables

The classes of a program by name, and the walk from a class to its bases. Names in a table are
distinct: a later class of the same name takes the place of the earlier one.
-/

namespace Lantern

/-- The classes of a program, in order of first declaration. -/
abbrev ClassTable := List ClassDecl

namespace ClassTable

/-- The class of a given name. -/
def get? (t : ClassTable) (name : String) : Option ClassDecl := t.find? (·.name == name)

/-- Whether there is a class of a given name. -/
def has (t : ClassTable) (name : String) : Bool := t.any (·.name == name)

/-- Adds a class, in the place of one of the same name if there is one. -/
def add (t : ClassTable) (c : ClassDecl) : ClassTable :=
  if t.has c.name then t.map fun d => if d.name == c.name then c else d else t ++ [c]

/-- The classes among the items of a program. -/
def ofItems (items : List Stmt) : ClassTable :=
  items.foldl (fun t s => match s with
    | .class_ c => t.add c
    | _ => t) []

/-- The class `name` and its bases, nearest first, taking at most `bound` steps and stopping at a
    name that is unknown or was `seen`. -/
def lineageFrom (t : ClassTable) : Nat → List String → String → List ClassDecl
  | 0, _, _ => []
  | bound + 1, seen, name =>
    if seen.contains name then []
    else
      match t.get? name with
      | none => []
      | some c => c :: lineageFrom t bound (name :: seen) c.base

/-- The class `name` and its bases, nearest first. An unknown base or a cycle ends the walk, which
    therefore meets each class of the table at most once. -/
def lineage (t : ClassTable) (name : String) : List ClassDecl :=
  lineageFrom t t.length [] name

theorem mem_of_mem_lineageFrom {t : ClassTable} {bound : Nat} {seen : List String} {name : String}
    {c : ClassDecl} (inside : c ∈ t.lineageFrom bound seen name) : c ∈ t := by
  induction bound generalizing seen name with
  | zero => cases inside
  | succ bound ih =>
      unfold lineageFrom at inside
      split at inside
      · cases inside
      · split at inside
        · cases inside
        · next d found =>
            rcases List.mem_cons.mp inside with rfl | inside
            · exact List.mem_of_find?_eq_some found
            · exact ih inside

theorem mem_of_mem_lineage {t : ClassTable} {name : String} {c : ClassDecl}
    (inside : c ∈ t.lineage name) : c ∈ t := mem_of_mem_lineageFrom inside

/-- What the nearest class that has anything has. The search ends at the empty name, as a class without a base has it. -/
def nearest? {α : Type} (t : ClassTable) (look : ClassDecl → Option α) (name : String) : Option α :=
  ((t.lineage name).takeWhile (!·.name.isEmpty)).findSome? look

/-- The nearest method of a given name, and the class that declares it. -/
def findMethod? (t : ClassTable) (cls name : String) : Option (ClassDecl × Method) :=
  (t.lineage cls).findSome? fun c => (c.methods.find? (·.name == name)).map fun m => (c, m)

/-- The nearest field of a given name. -/
def findField? (t : ClassTable) (cls name : String) : Option Field :=
  (t.lineage cls).findSome? fun c => c.fields.find? (·.name == name)

end ClassTable

end Lantern
