import Lantern.Classes
import Lantern.SymbolName

/-!
# Layout of classes

What an object of a class holds and what its method table maps: fields and methods of the class and
its bases, where a derived declaration takes the place of the one it replaces.
-/

namespace Lantern

/-- Puts `x` in the place of the element with the same key, or at the end. -/
def upsert {α : Type} (key : α → String) (xs : List α) (x : α) : List α :=
  if xs.any (key · == key x) then xs.map fun y => if key y == key x then x else y else xs ++ [x]

/-- An entry of a method table: a key and the routine it stands for. -/
structure MethodEntry where
  /-- The key. -/
  key : String
  /-- The symbol of the routine. -/
  symbol : String
  deriving Repr, DecidableEq, BEq

namespace ClassTable

/-- A class and its bases, oldest first. -/
def ancestry (t : ClassTable) (cls : String) : List ClassDecl := (t.lineage cls).reverse

/-- The fields an object of the class holds, those of older classes first. -/
def flatFields (t : ClassTable) (cls : String) : List Field :=
  ((t.ancestry cls).flatMap fun c => c.fields.filter (!·.isStatic)).foldl (upsert Field.name) []

/-- The methods of an object of the class, each by its most derived implementation. -/
def flatMethods (t : ClassTable) (cls : String) : List MethodEntry :=
  ((t.ancestry cls).flatMap fun c => (c.methods.filter (!·.isStatic)).map fun m =>
    MethodEntry.mk m.name (SymbolName.method c.name m.name)).foldl (upsert MethodEntry.key) []

/-- For every class of the ancestry that has a base, the methods of that base under keys of their
    own. -/
def superEntries (t : ClassTable) (cls : String) : List MethodEntry :=
  (t.ancestry cls).flatMap fun c =>
    if t.has c.base then
      (t.flatMethods c.base).map fun m => ⟨SymbolName.superKey c.name m.key, m.symbol⟩
    else []

/-- The word of a static field of the class or the nearest base that has it. -/
def staticField? (t : ClassTable) (cls name : String) : Option String :=
  ((t.lineage cls).find? fun c => c.fields.any fun f => f.isStatic && f.name == name).map
    fun c => SymbolName.staticField c.name name

/-- The routine of a static method of the class or the nearest base that has it. -/
def staticMethod? (t : ClassTable) (cls name : String) : Option String :=
  ((t.lineage cls).find? fun c => c.methods.any fun m => m.isStatic && m.name == name).map
    fun c => SymbolName.staticMethod c.name name

end ClassTable

end Lantern
