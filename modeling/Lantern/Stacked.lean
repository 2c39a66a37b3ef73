import Lantern.Infer.Unbounded
import Lantern.Stacked.Stmt

/-!
# Code generation over stacks

Every routine begins with empty stacks, and its exit for exceptions is the first target that is pushed. Generation is
given a number of jumps that may nest; with enough of them it ends wherever the real one does.
-/

namespace Lantern

namespace Stacked

open Assembly Emit

/-- Generates a routine by the given steps, with `locals` named words in its frame. -/
def finish (name : String) (locals : Nat) (body : Stacking Unit) : Stacking Routine := do
  modify fun s =>
    { s with gen := { s.gen with code := #[], temps := 0, maxTemps := 0, maxCallArgs := 0 }, around := .empty }
  emit .prologue []
  body
  let g := (← get).gen
  return ⟨name, g.code.toList, locals + 1 + g.maxTemps, g.maxCallArgs⟩

/-- Makes the labels of a routine's end and pushes its last target of exceptions. -/
def beginTail : Stacking Tail := do
  let t ← newTail
  change (·.pushTarget t.unwind 0)
  return t

/-- A function, method or constructor. -/
def routine (depth : Nat) (env : Env) (sym cls : String) (hasThis : Bool) (params : List Param) (body : Stmt) :
    Stacking Routine := do
  let names := (if hasThis then ["this"] else []) ++ params.map Param.name
  let locals := (names ++ declaredNames body).foldl addNew []
  let env := { env with routine := sym, cls := cls, locals := locals }
  finish sym locals.length do
    loadParams env 0 names
    let t ← beginTail
    let env := { env with retLabel := t.ret }
    stmt (knot env depth) env body
    routineEnd t

/-- The routines of a class. -/
def classRoutines (depth : Nat) (env : Env) (c : ClassDecl) : Stacking (List Routine) := do
  let ms ← c.methods.mapM fun m =>
    if m.isStatic then
      routine depth env (SymbolName.staticMethod c.name m.name) c.name false m.params m.body
    else routine depth env (SymbolName.method c.name m.name) c.name true m.params m.body
  let ks ← (ctorsByArity c.ctors).mapM fun k =>
    routine depth env (SymbolName.ctor c.name k.params.length) c.name true k.params k.body
  return ms ++ ks

/-- Sets the static fields of a class. -/
def staticInit (k : Knot) (env : Env) (c : ClassDecl) : Stacking Unit :=
  (c.fields.filter Field.isStatic).forM fun f => do
    match f.init with
    | some e => expr k env e
    | none => defaultValue f.type
    emit .mov [.data (SymbolName.staticField c.name f.name), rax]

/-- The main routine; a seed that is not negative is handed to the run-time library. -/
def mainRoutine (depth : Nat) (env : Env) (seed : Int64) (items : List Stmt) : Stacking Routine :=
  finish SymbolName.mainRoutine 0 do
    let t ← beginTail
    let env := { env with retLabel := t.ret }
    if 0 ≤ seed then call "lm_seed" [.imm seed]
    (env.classes.forM (methodTable env) : Emitting Unit)
    env.classes.forM (staticInit (knot env depth) env)
    stmts (knot env depth) env items
    mainEnd t

/-- The routines of a program's functions, in order. -/
def funcRoutines (depth : Nat) (env : Env) : List Stmt → Stacking (List Routine)
  | [] => return []
  | .func f :: rest => do
    let r ← routine depth env (SymbolName.func f.name) "" false f.params f.body
    return r :: (← funcRoutines depth env rest)
  | _ :: rest => funcRoutines depth env rest

/-- All routines of a program: functions, then classes, then the main routine. -/
def routines (depth : Nat) (env : Env) (seed : Int64) (items : List Stmt) : Stacking (List Routine) := do
  let fs ← funcRoutines depth env items
  let cs ← env.classes.mapM (classRoutines depth env)
  let m ← mainRoutine depth env seed (items.filter (!·.isDecl))
  return fs ++ cs.flatten ++ [m]

end Stacked

namespace Inference

variable (t : Inference) (depth : Nat) (hints : Hints) (seed : Int64)

/-- Generates the routines of a program with so many jumps one inside another at most. -/
def runAt : EStateM.Result Stacked.Stop Stacked.Site (List Assembly.Routine) :=
  (Stacked.routines depth (t.env hints) seed t.program.items).run ⟨t.start hints, .empty, []⟩

/-- The points of the run, to its end or to where it stops. -/
def pointsAt : List Stacked.Point :=
  match t.runAt depth hints seed with
  | .ok _ s => s.points
  | .error _ s => s.points

/-- The image and the remarks, if generation ends. -/
def generateAt : Option (Assembly.Image × List Diagnostic) :=
  match t.runAt depth hints seed with
  | .ok rs s =>
    let words := Emit.globalWords hints t.classes t.program.items
    some (⟨Emit.sorted s.gen.externs, Emit.poolStrings s.gen.pool, Emit.sorted words, rs⟩, s.gen.log.toList)
  | .error _ _ => none

end Inference

/-- The image of a program under the given hints, if no search of inference meets more than so many classes and no more
    jumps nest in generation. -/
def Program.generateAt (p : Program) (depth : Nat) (hints : Hints) (seed : Int64) :
    Option (Assembly.Image × List Diagnostic) := do
  let t ← p.infer? depth hints
  t.generateAt depth hints seed

end Lantern
