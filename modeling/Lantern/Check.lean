import Lantern.Check.Hierarchy
import Lantern.Check.Stmt

/-!
# Checking programs

A program is checked in three steps: its declarations are gathered and compared with each other, its
globals are gathered, and then the top-level statements and the bodies of all routines are checked.
The result is the program with resolved members, and the hints for the passes behind.
-/

namespace Lantern.Check

/-- The context outside of routines and classes. -/
def Context.outside (d : Declarations) : Context :=
  { funcs := d.funcs, classes := d.classes, results := d.hints.results, routine := "", cls := "",
    isStatic := false, loops := 0, switches := 0 }

/-- Declares the parameters of a routine whose body stands at `at_`. -/
def declareParams (at_ : Span) : List Param → Checking Unit
  | [] => pure ()
  | p :: ps => do
    if ← isLocal p.name then fail at_ ("Duplicate parameter '" ++ p.name ++ "'")
    declare p.name p.type
    declareParams at_ ps

/-- Checks a routine; the context says whose. -/
def routine (ctx : Context) (params : List Param) (body : Stmt) : Checking Stmt := inScope do
  unless ctx.cls.isEmpty || ctx.isStatic do declare "this" (some (.object ctx.cls))
  declareParams body.span params
  stmt ctx body

/-- Checks the fields of a class. Their initial values have no receiver. -/
def fields (ctx : Context) : List Field → Checking (List Field)
  | [] => return []
  | f :: fs => do
    let (init, got) ← exprOption { ctx with isStatic := true } f.init
    checkAssignable f.span f.type got ("field '" ++ f.name ++ "'")
    return { f with init := init } :: (← fields ctx fs)

/-- Checks the methods of a class. -/
def methods (ctx : Context) : List Method → Checking (List Method)
  | [] => return []
  | m :: ms => do
    let inside := { ctx with routine := methodSymbol ctx.cls m, isStatic := m.isStatic }
    let body ← routine inside m.params m.body
    return { m with body := body } :: (← methods ctx ms)

/-- Checks the constructors of a class. -/
def ctors (ctx : Context) : List Ctor → Checking (List Ctor)
  | [] => return []
  | k :: ks => do
    let inside := { ctx with routine := SymbolName.ctor ctx.cls k.params.length }
    let body ← routine inside k.params k.body
    return { k with body := body } :: (← ctors ctx ks)

/-- Checks a function. -/
def func (ctx : Context) (f : FuncDecl) : Checking FuncDecl := do
  let body ← routine { ctx with routine := SymbolName.func f.name } f.params f.body
  return { f with body := body }

/-- Checks a class. -/
def class_ (ctx : Context) (c : ClassDecl) : Checking ClassDecl := do
  let ctx := { ctx with cls := c.name }
  let fs ← fields ctx c.fields
  let ms ← methods ctx c.methods
  let ks ← ctors ctx c.ctors
  return { c with fields := fs, methods := ms, ctors := ks }

/-- Checks the declarations among the items of a program. -/
def decls (ctx : Context) : List Stmt → Checking (List Stmt)
  | [] => return []
  | .func f :: rest => do
    let f ← func ctx f
    return .func f :: (← decls ctx rest)
  | .class_ c :: rest => do
    let c ← class_ ctx c
    return .class_ c :: (← decls ctx rest)
  | s :: rest => return s :: (← decls ctx rest)

/-- Checks all items of a program whose declarations are known. -/
def items (d : Declarations) (xs : List Stmt) : Checking (List Stmt) := do
  gatherGlobalsOf d.classes (xs.filter (!·.isDecl))
  let ctx := Context.outside d
  decls ctx (← stmts ctx true false xs)

end Lantern.Check

namespace Lantern

/-- Checks a program: the program with resolved members, and what was found out. -/
def Program.check (p : Program) : Checked (Program × Hints) := do
  let d ← Check.gather Check.Declarations.empty p.items
  Check.checkHierarchy d d.classes
  let (xs, st) ← (Check.items d p.items).run ⟨[[]], d.hints⟩
  return ({ p with items := xs }, st.hints)

end Lantern
