import Lantern.Emit.Stmt
import Lantern.Infer

/-!
# Code generation

A program becomes an image: a routine for each function, method and constructor, and the main routine,
which builds the method tables, sets the static fields and runs the top-level statements. A routine
that ends normally clears `rdx`; one left by an exception returns with the exception there.
-/

namespace Lantern.Emit

open Assembly

/-- The labels at the end of a routine. -/
structure Tail where
  /-- Normal exit. -/
  ret : String
  /-- Exit with an exception. -/
  unwind : String
  /-- Where the frame is taken down. -/
  epilogue : String
  deriving Repr, DecidableEq

/-- Makes the labels of a routine's end. -/
def newTail : Emitting Tail := do
  let ret ← newLabel "ret"
  let unwind ← newLabel "unwind"
  let epilogue ← newLabel "epi"
  return ⟨ret, unwind, epilogue⟩

/-- The environment of a routine's body. -/
def Env.enter (env : Env) (t : Tail) : Env :=
  { env with retLabel := t.ret, loops := [], lasts := [], unwind := [⟨t.unwind, 0⟩] }

/-- The end of a routine: falling off the end returns zero. -/
def routineEnd (t : Tail) : Emitting Unit := do
  zero
  place t.ret
  emit .xor [edx, edx]
  jump .jmp t.epilogue
  place t.unwind
  zero
  place t.epilogue
  emit .epilogue []

/-- The end of the main routine: an exception that arrives here is reported. -/
def mainEnd (t : Tail) : Emitting Unit := do
  place t.ret
  zero
  jump .jmp t.epilogue
  place t.unwind
  call "lm_exception_uncaught" [rdx]
  emit .mov [rax, imm 1]
  place t.epilogue
  emit .epilogue []

/-- Generates a routine by the given steps, with `locals` named words in its frame. -/
def finish (name : String) (locals : Nat) (body : Emitting Unit) : Emitting Routine := do
  modify fun g => { g with code := #[], temps := 0, maxTemps := 0, maxCallArgs := 0 }
  emit .prologue []
  body
  let g ← get
  return ⟨name, g.code.toList, locals + 1 + g.maxTemps, g.maxCallArgs⟩

/-- Fetches parameters into the slots of their names, counting from `i`. -/
def loadParams (env : Env) : Nat → List String → Emitting Unit
  | _, [] => pure ()
  | i, name :: rest => do
    emit .loadparam [.arg i, .slot (env.locals.idxOf name)]
    loadParams env (i + 1) rest

/-- A function, method or constructor. -/
def routine (env : Env) (sym cls : String) (hasThis : Bool) (params : List Param) (body : Stmt) :
    Emitting Routine := do
  let names := (if hasThis then ["this"] else []) ++ params.map Param.name
  let locals := (names ++ declaredNames body).foldl addNew []
  let env := { env with routine := sym, cls := cls, locals := locals }
  finish sym locals.length do
    loadParams env 0 names
    let t ← newTail
    stmt (env.enter t) body
    routineEnd t

/-- The constructors of a class by number of parameters, the last one for each number. -/
def ctorsByArity (ctors : List Ctor) : List Ctor :=
  (ctors.foldl (fun ks k =>
    ks.filter (·.params.length != k.params.length) ++ [k]) []).mergeSort
      fun a b => a.params.length ≤ b.params.length

/-- The routines of a class. -/
def classRoutines (env : Env) (c : ClassDecl) : Emitting (List Routine) := do
  let ms ← c.methods.mapM fun m =>
    if m.isStatic then
      routine env (SymbolName.staticMethod c.name m.name) c.name false m.params m.body
    else routine env (SymbolName.method c.name m.name) c.name true m.params m.body
  let ks ← (ctorsByArity c.ctors).mapM fun k =>
    routine env (SymbolName.ctor c.name k.params.length) c.name true k.params k.body
  return ms ++ ks

/-- Builds the method table of a class. -/
def methodTable (env : Env) (c : ClassDecl) : Emitting Unit := do
  let entries := env.classes.flatMethods c.name ++ env.classes.superEntries c.name
  let table := Operand.data (SymbolName.methodTable c.name)
  call "lm_map_new" [imm entries.length]
  emit .mov [table, rax]
  entries.forM fun m => do
    call "lm_map_set" [table, ← str m.key, .addr m.symbol, imm 0]

/-- Sets the static fields of a class. -/
def staticInit (env : Env) (c : ClassDecl) : Emitting Unit :=
  (c.fields.filter Field.isStatic).forM fun f => do
    match f.init with
    | some e => expr env e
    | none => defaultValue f.type
    emit .mov [.data (SymbolName.staticField c.name f.name), rax]

/-- The main routine; a seed that is not negative is handed to the run-time library. -/
def mainRoutine (env : Env) (seed : Int64) (items : List Stmt) : Emitting Routine :=
  finish SymbolName.mainRoutine 0 do
    let t ← newTail
    let env := env.enter t
    if 0 ≤ seed then call "lm_seed" [.imm seed]
    env.classes.forM (methodTable env)
    env.classes.forM (staticInit env)
    stmts env items
    mainEnd t

/-- The routines of a program's functions, in order. -/
def funcRoutines (env : Env) : List Stmt → Emitting (List Routine)
  | [] => return []
  | .func f :: rest => do
    let r ← routine env (SymbolName.func f.name) "" false f.params f.body
    return r :: (← funcRoutines env rest)
  | _ :: rest => funcRoutines env rest

/-- All routines of a program: functions, then classes, then the main routine. -/
def routines (env : Env) (seed : Int64) (items : List Stmt) : Emitting (List Routine) := do
  let fs ← funcRoutines env items
  let cs ← env.classes.mapM (classRoutines env)
  let m ← mainRoutine env seed (items.filter (!·.isDecl))
  return fs ++ cs.flatten ++ [m]

/-- The names of a program's functions. -/
def funcNames (items : List Stmt) : List String :=
  items.filterMap fun
    | .func f => some f.name
    | _ => none

/-- Names in order. -/
def sorted (names : List String) : List String := names.mergeSort (· ≤ ·)

/-- The literal pool with the labels of its strings. -/
def poolStrings (pool : List String) : List StringLit :=
  pool.mapIdx fun i s => ⟨poolLabel i, s⟩

end Lantern.Emit

namespace Lantern

namespace Inference

variable (t : Inference) (hints : Hints)

/-- The environment of a program's main routine, from which those of the others are made. -/
def env : Emit.Env :=
  { classes := t.classes, words := Emit.globalWords hints t.classes t.program.items,
    funcs := Emit.funcNames t.program.items, facts := t.facts,
    routine := SymbolName.mainRoutine, cls := "", locals := [], retLabel := "", loops := [],
    lasts := [], unwind := [] }

/-- The state in which the generator starts. -/
def start : Emit.Gen :=
  { labels := 0
    pool := Emit.literalPool t.classes (Emit.globalWords hints t.classes t.program.items)
      t.program.items
    externs := [], code := #[], temps := 0, maxTemps := 0, maxCallArgs := 0, log := #[] }

/-- The image of an inferred program, and remarks on what could not be resolved. -/
def generate (seed : Int64) : Assembly.Image × List Diagnostic :=
  let items := t.program.items
  let words := Emit.globalWords hints t.classes items
  let (rs, g) := (Emit.routines (t.env hints) seed items).run (t.start hints)
  (⟨Emit.sorted g.externs, Emit.poolStrings g.pool, Emit.sorted words, rs⟩, g.log.toList)

end Inference

/-- The image of a program under the given hints. -/
def Program.generate (p : Program) (hints : Hints) (seed : Int64) :
    Assembly.Image × List Diagnostic :=
  (p.infer hints).generate hints seed

/-- What to say when there is no program to generate code for. -/
def noProgram : String := "codegen: expected a program block, got <nil>"

end Lantern
