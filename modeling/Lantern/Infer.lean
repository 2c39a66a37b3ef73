import Lantern.Infer.Stmt

/-!
# Inference

Decides for every expression of a program how its value is represented. The order is fixed, because
what is settled first stays: initial values of fields, then the top-level statements, then functions,
then the methods and constructors of classes.
-/

namespace Lantern

/-- A program with a sigil for every expression, and what is known about its variables. -/
structure Inference where
  /-- The program. -/
  program : Program
  /-- Its variables. -/
  facts : Infer.Facts
  /-- Its classes. -/
  classes : ClassTable

namespace Infer

/-- Makes sure that a routine has a frame. -/
def enter (routine : String) : Inferring Unit :=
  modify fun fs => if fs.frames.has routine then fs else fs.setFrame routine Frame.empty

/-- Infers the initial values of fields and settles the static ones. -/
def fields (ctx : Context) : List Field → Inferring (List Field)
  | [] => return []
  | f :: rest => do
    let init ← valueOption ctx f.init
    if f.isStatic then
      let s := (f.type.or (init.map Expr.sigil)).getD .int
      modify fun fs =>
        { fs with statics := fs.statics.put (SymbolName.staticField ctx.cls f.name) s }
    return { f with init := init } :: (← fields ctx rest)

/-- The sigils of parameters: as hinted, else as written, else `int`. -/
def paramSigils : List Sigil → List Param → List (String × Sigil)
  | _, [] => []
  | [], p :: ps => (p.name, p.type.getD .int) :: paramSigils [] ps
  | s :: ss, p :: ps => (p.name, s) :: paramSigils ss ps

/-- Infers the body of a routine; `hasThis` when it has a receiver. -/
def routine (ctx : Context) (hasThis : Bool) (params : List Param) (body : Stmt) : Inferring Stmt := do
  enter ctx.routine
  let hinted := (ctx.hints.params.get? ctx.routine).getD []
  let receiver := if hasThis then [("this", Sigil.object ctx.cls)] else []
  let own := receiver ++ paramSigils (if hasThis then hinted.drop 1 else hinted) params
  modify fun fs =>
    let f := fs.frame ctx.routine
    fs.setFrame ctx.routine
      { f with params := own.foldl (fun ps (name, s) => Assoc.put ps name s) f.params }
  stmt ctx body

/-- Infers methods. -/
def methods (ctx : Context) : List Method → Inferring (List Method)
  | [] => return []
  | m :: ms => do
    let sym := if m.isStatic then SymbolName.staticMethod ctx.cls m.name
      else SymbolName.method ctx.cls m.name
    let body ← routine { ctx with routine := sym } (!m.isStatic) m.params m.body
    return { m with body := body } :: (← methods ctx ms)

/-- Infers constructors. -/
def ctors (ctx : Context) : List Ctor → Inferring (List Ctor)
  | [] => return []
  | k :: ks => do
    let sym := SymbolName.ctor ctx.cls k.params.length
    let body ← routine { ctx with routine := sym } true k.params k.body
    return { k with body := body } :: (← ctors ctx ks)

/-- Infers the initial values of the fields of all classes. -/
def classFields (ctx : Context) : List Stmt → Inferring (List Stmt)
  | [] => return []
  | .class_ c :: rest => do
    let fs ← fields { ctx with cls := c.name } c.fields
    return .class_ { c with fields := fs } :: (← classFields ctx rest)
  | s :: rest => return s :: (← classFields ctx rest)

/-- Infers the top-level statements. -/
def topLevel (ctx : Context) : List Stmt → Inferring (List Stmt)
  | [] => return []
  | s :: rest => do
    let s ← if s.isDecl then pure s else stmt ctx s
    return s :: (← topLevel ctx rest)

/-- Infers the functions. -/
def funcs (ctx : Context) : List Stmt → Inferring (List Stmt)
  | [] => return []
  | .func f :: rest => do
    let body ← routine { ctx with routine := SymbolName.func f.name } false f.params f.body
    return .func { f with body := body } :: (← funcs ctx rest)
  | s :: rest => return s :: (← funcs ctx rest)

/-- Infers the methods and constructors of all classes. -/
def classRoutines (ctx : Context) : List Stmt → Inferring (List Stmt)
  | [] => return []
  | .class_ c :: rest => do
    let ctx' := { ctx with cls := c.name }
    let ms ← methods ctx' c.methods
    let ks ← ctors ctx' c.ctors
    return .class_ { c with methods := ms, ctors := ks } :: (← classRoutines ctx rest)
  | s :: rest => return s :: (← classRoutines ctx rest)

/-- Infers all items of a program. -/
def items (ctx : Context) (xs : List Stmt) : Inferring (List Stmt) := do
  enter SymbolName.mainRoutine
  let xs ← classFields ctx xs
  let xs ← topLevel ctx xs
  let xs ← funcs ctx xs
  classRoutines ctx xs

end Infer

/-- The representation of every expression of a program under the given hints. -/
def Program.infer (p : Program) (hints : Hints) : Inference :=
  let classes := ClassTable.ofItems p.items
  let ctx : Infer.Context := ⟨hints, classes, SymbolName.mainRoutine, ""⟩
  let (xs, facts) := (Infer.items ctx p.items).run ⟨[], hints.globalTypes, []⟩
  ⟨{ p with items := xs }, facts, ClassTable.ofItems xs⟩

end Lantern
