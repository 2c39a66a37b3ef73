import Lantern.Check.Declarations

/-!
# The class hierarchy

No class shares its name with a function, every base is declared, and no class is its own ancestor.
Methods that claim to replace an inherited one, and those that do so silently, are remarked on.
-/

namespace Lantern.Check

/-- What is wrong with the bases of a class. -/
inductive BaseFault where
  /-- A base is not declared. -/
  | unknown (base : String)
  /-- The bases come round to a class met before. -/
  | cycle
  deriving Repr, DecidableEq

/-- Follows the bases from `base` on, having met the classes `seen`. Each step meets a new class, so
    as many steps as there are classes are enough. -/
def baseFault? (classes : ClassTable) : Nat → List String → String → Option BaseFault
  | 0, _, _ => some .cycle
  | bound + 1, seen, base =>
    if base.isEmpty then none
    else
      match classes.get? base with
      | none => some (.unknown base)
      | some b =>
        if seen.contains base then some .cycle
        else baseFault? classes bound (base :: seen) b.base

/-- Remarks on a method that replaces an inherited one or claims to. -/
def checkOverride (classes : ClassTable) (base : String) (m : Method) : Checked Unit :=
  let inherited := (classes.findMethod? base m.name).isSome
  if m.isOverride then
    if inherited then pure ()
    else Checked.warn .extra m.span
      ("Method '" ++ m.name ++ "' is marked override but no base class declares it")
  else if !m.isStatic && inherited then
    Checked.warn .pedantic m.span
      ("Method '" ++ m.name ++ "' shadows a base method without 'override'")
  else pure ()

/-- Checks one class against the others. -/
def checkBases (d : Declarations) (c : ClassDecl) : Checked Unit := do
  if (d.func? c.name).isSome then
    Checked.fail c.span ("Class '" ++ c.name ++ "' has the same name as a function")
  match baseFault? d.classes (d.classes.length + 1) [c.name] c.base with
  | some (.unknown base) =>
    Checked.fail c.span ("Class '" ++ c.name ++ "' extends unknown class '" ++ base ++ "'")
  | some .cycle =>
    Checked.fail c.span ("Inheritance cycle involving class '" ++ c.name ++ "'")
  | none => c.methods.forM (checkOverride d.classes c.base)

/-- Checks the given classes of a program one after the other. -/
def checkHierarchy (d : Declarations) (order : List ClassDecl) : Checked Unit :=
  order.forM (checkBases d)

end Lantern.Check
