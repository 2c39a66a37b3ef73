import Lantern.Check.Scope
import Lantern.Classes
import Lantern.Library
import Lantern.SymbolName

/-!
# Declarations

The functions and classes of a program, gathered before anything is checked, so that order does not
matter. Nothing may be declared twice, and a function may not take the name of a library function.
-/

namespace Lantern.Check

/-- What a program declares. -/
structure Declarations where
  /-- Functions in order. -/
  funcs : List FuncDecl
  /-- Classes in order. -/
  classes : ClassTable
  /-- Types of parameters and results. -/
  hints : Hints

namespace Declarations

/-- Nothing is declared. -/
def empty : Declarations := ⟨[], [], Hints.empty⟩

/-- The function of a given name. -/
def func? (d : Declarations) (name : String) : Option FuncDecl := d.funcs.find? (·.name == name)

end Declarations

/-- The first element of a list whose key an earlier one has, given the keys `seen` before. -/
def firstRepeated? {α β : Type} [BEq β] (key : α → β) : List β → List α → Option α
  | _, [] => none
  | seen, x :: xs =>
    if seen.contains (key x) then some x else firstRepeated? key (key x :: seen) xs

/-- The sigils of parameters, `int` where no type is written. -/
def paramSigils (params : List Param) : List Sigil := params.map fun p => p.type.getD .int

/-- The symbol of a method. -/
def methodSymbol (cls : String) (m : Method) : String :=
  if m.isStatic then SymbolName.staticMethod cls m.name else SymbolName.method cls m.name

/-- The types a class declares for the parameters and results of its members. -/
def classHints (h : Hints) (c : ClassDecl) : Hints :=
  let receiver := [Sigil.object c.name]
  let h := c.methods.foldl (fun h m =>
    h.addRoutine (methodSymbol c.name m)
      ((if m.isStatic then [] else receiver) ++ paramSigils m.params) m.result) h
  c.ctors.foldl (fun h k =>
    h.addRoutine (SymbolName.ctor c.name k.params.length) (receiver ++ paramSigils k.params)
      none) h

/-- Adds a function. -/
def addFunc (d : Declarations) (f : FuncDecl) : Checked Declarations := do
  if isLibrary f.name then
    Checked.fail f.span ("'" ++ f.name ++ "' is a library function and cannot be redefined")
  if (d.func? f.name).isSome then
    Checked.fail f.span ("Redefinition of function '" ++ f.name ++ "'")
  return { d with
    funcs := d.funcs ++ [f]
    hints := d.hints.addRoutine (SymbolName.func f.name) (paramSigils f.params) f.result }

/-- Adds a class. -/
def addClass (d : Declarations) (c : ClassDecl) : Checked Declarations := do
  if d.classes.has c.name then
    Checked.fail c.span ("Redefinition of class '" ++ c.name ++ "'")
  if let some f := firstRepeated? Field.name [] c.fields then
    Checked.fail f.span ("Duplicate field '" ++ f.name ++ "' in class '" ++ c.name ++ "'")
  if let some m := firstRepeated? Method.name [] c.methods then
    Checked.fail m.span ("Duplicate method '" ++ m.name ++ "' in class '" ++ c.name ++ "'")
  if let some k := firstRepeated? (fun k : Ctor => k.params.length) [] c.ctors then
    Checked.fail k.span ("Class '" ++ c.name ++ "' already has a constructor taking " ++
      toString k.params.length ++ " arguments")
  return { d with classes := d.classes.add c, hints := classHints d.hints c }

/-- Gathers what the items of a program declare. -/
def gather : Declarations → List Stmt → Checked Declarations
  | d, [] => pure d
  | d, .func f :: rest => do gather (← addFunc d f) rest
  | d, .class_ c :: rest => do gather (← addClass d c) rest
  | d, _ :: rest => gather d rest

end Lantern.Check
