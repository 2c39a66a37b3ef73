import Lantern.Assembly
import Lantern.Diagnostic
import Lantern.Emit.Names
import Lantern.Infer.Facts

/-!
# Emitting instructions

Code is generated into one flat list of instructions per routine. Values are computed into `rax`;
what must survive the computation of another value is spilled into a temporary of the frame.
Temporaries are handed out like a stack, above the named locals and the return slot.
-/

namespace Lantern.Emit

open Assembly

/-- What changes while code is generated. -/
structure Gen where
  /-- Number of labels made so far. -/
  labels : Nat
  /-- The literal pool. -/
  pool : List String
  /-- Routines called but not held. -/
  externs : List String
  /-- Instructions of the current routine. -/
  code : Array Instr
  /-- Temporaries in use. -/
  temps : Nat
  /-- Greatest number of temporaries in use at once. -/
  maxTemps : Nat
  /-- Greatest number of arguments of a call. -/
  maxCallArgs : Nat
  /-- Remarks on what could not be resolved. -/
  log : Array Diagnostic
  deriving Repr

/-- A step of code generation. -/
abbrev Emitting := StateM Gen

/-- Where `break` and `continue` lead inside a loop or switch. -/
structure LoopFrame where
  /-- Label behind it. -/
  exit : String
  /-- Label of the next round; switches have none. -/
  next : String
  /-- Whether it is a switch. -/
  isSwitch : Bool
  /-- Number of pending last blocks when it was entered. -/
  depth : Nat
  deriving Repr, DecidableEq

/-- The last block of a guarded statement, to be run by whatever leaves the statement. Its code is
    generated as at the entry of the statement, under the loops of the place that leaves. -/
structure LastBlock where
  /-- Generates the block's code. -/
  run : List LoopFrame → Emitting Unit

/-- Where an exception is delivered. -/
structure UnwindTarget where
  /-- The label to jump to. -/
  label : String
  /-- Number of pending last blocks that the target runs itself. -/
  depth : Nat
  deriving Repr, DecidableEq

/-- What does not change while an expression is generated. -/
structure Env where
  /-- The classes of the program. -/
  classes : ClassTable
  /-- The words of the data section. -/
  words : List String
  /-- Names of functions. -/
  funcs : List String
  /-- What is known about variables. -/
  facts : Infer.Facts
  /-- The symbol of the routine. -/
  routine : String
  /-- The class around; empty if there is none. -/
  cls : String
  /-- Named locals; the place of a name is its slot. -/
  locals : List String
  /-- Label of the routine's normal exit. -/
  retLabel : String
  /-- Loops and switches around, innermost first. -/
  loops : List LoopFrame
  /-- Pending last blocks, innermost first. -/
  lasts : List LastBlock
  /-- Targets of exceptions, innermost first. -/
  unwind : List UnwindTarget

/-- The register of results. -/
def rax : Operand := .reg .rax
/-- The register for second operands. -/
def rbx : Operand := .reg .rbx
/-- The register that carries an exception out of a routine. -/
def rdx : Operand := .reg .rdx
/-- The register for addresses of code. -/
def r11 : Operand := .reg .r11
/-- The low byte of the register of results. -/
def al : Operand := .reg .al
/-- The low half of the register of results. -/
def eax : Operand := .reg .eax
/-- The low half of the exception register. -/
def edx : Operand := .reg .edx

/-- Emits an instruction. -/
def emit (op : Op) (args : List Operand) : Emitting Unit :=
  modify fun g => { g with code := g.code.push ⟨op, args, ""⟩ }

/-- A new label; no other has its number. -/
def newLabel (base : String) : Emitting String := do
  let g ← get
  set { g with labels := g.labels + 1 }
  return "L" ++ base ++ toString g.labels

/-- Places a label. -/
def place (label : String) : Emitting Unit := emit .label [.label label]

/-- Jumps to a label. -/
def jump (op : Op) (label : String) : Emitting Unit := emit op [.label label]

/-- The name of the pool's string at a place. -/
def poolLabel (n : Nat) : String := "str" ++ toString n

/-- The address of a string, which joins the pool if it is not there. -/
def str (value : String) : Emitting Operand := do
  let g ← get
  set { g with pool := addNew g.pool value }
  return .addr (poolLabel (g.pool.idxOf value))

/-- Remarks on something that could not be resolved. -/
def warn (at_ : Span) (message : String) : Emitting Unit :=
  modify fun g => { g with log := g.log.push ⟨.warning .codegen, at_, message⟩ }

/-- The value zero. -/
def zero : Emitting Unit := emit .xor [eax, eax]

/-- Sets the flags by whether `rax` is zero. -/
def testResult : Emitting Unit := emit .test [rax, rax]

/-- A constant operand. -/
def imm (n : Int) : Operand := .imm (Int64.ofInt n)

/-- A new temporary. -/
def pushTemp (env : Env) : Emitting Operand := do
  let g ← get
  set { g with temps := g.temps + 1, maxTemps := max g.maxTemps (g.temps + 1) }
  return .slot (env.locals.length + 1 + g.temps)

/-- Gives the latest temporaries back. Every form gives back just what it took, so the difference of natural numbers is
    never cut off at zero. -/
def popTemps (n : Nat) : Emitting Unit := modify fun g => { g with temps := g.temps - n }

/-- Stores `rax` in a new temporary. -/
def spill (env : Env) : Emitting Operand := do
  let t ← pushTemp env
  emit .mov [t, rax]
  return t

/-- Places arguments for a call, counting from `i`. -/
def setArgsFrom : Nat → List Operand → Emitting Unit
  | _, [] => pure ()
  | i, a :: rest => do
    emit .setarg [.arg i, a]
    setArgsFrom (i + 1) rest

/-- Places the arguments of a call and makes room for them. -/
def setArgs (args : List Operand) : Emitting Unit := do
  setArgsFrom 0 args
  modify fun g => { g with maxCallArgs := max g.maxCallArgs args.length }

/-- Calls a routine of the run-time library. Those with a variable number of arguments expect their
    number of vector registers in `eax`. -/
def call (name : String) (args : List Operand) : Emitting Unit := do
  setArgs args
  if name == "printf" || name == "scanf" then zero
  modify fun g => { g with externs := addNew g.externs name }
  emit .call [.label name]

namespace Env

/-- The storage of a variable: a slot for a local, a data word for a global. -/
def lookup? (env : Env) (name : String) : Option Operand :=
  match env.locals.idxOf? name with
  | some i => some (.slot i)
  | none =>
    if env.words.contains (SymbolName.globalVar name) then
      some (.data (SymbolName.globalVar name))
    else none

/-- Whether a name is a variable. -/
def isVariable (env : Env) (name : String) : Bool := (env.lookup? name).isSome

/-- The class a bare name stands for. -/
def classRef? (env : Env) : Expr → Option String
  | .ident _ name => if !env.isVariable name && env.classes.has name then some name else none
  | _ => none

/-- The slot that keeps a returned value while last blocks run. -/
def retSlot (env : Env) : Operand := .slot env.locals.length

/-- The innermost target of exceptions. -/
def target (env : Env) : UnwindTarget := env.unwind.headD ⟨"", 0⟩

end Env

/-- Generates the pending last blocks above `depth`, innermost first. -/
def replay (env : Env) (depth : Nat) : Emitting Unit :=
  (env.lasts.take (env.lasts.length - depth)).forM fun l => l.run env.loops

/-- Delivers the exception in `rdx` to the innermost target, after the last blocks that the target
    does not run itself. -/
def raise (env : Env) : Emitting Unit := do
  if env.target.depth < env.lasts.length then
    let exc ← pushTemp env
    emit .mov [exc, rdx]
    replay env env.target.depth
    emit .mov [rdx, exc]
    popTemps 1
  jump .jmp env.target.label

/-- Behind a call of a routine of the program: a non-zero `rdx` is an exception. -/
def checkException (env : Env) : Emitting Unit := do
  emit .test [rdx, rdx]
  if env.lasts.length ≤ env.target.depth then jump .jnz env.target.label
  else
    let skip ← newLabel "noexc"
    jump .jz skip
    raise env
    place skip

/-- Calls a routine of the program. -/
def callRoutine (env : Env) (target : Operand) (args : List Operand) : Emitting Unit := do
  setArgs args
  emit .call [target]
  checkException env

/-- Calls the routine whose address a place holds. -/
def callAddress (env : Env) (address : Operand) (args : List Operand) : Emitting Unit := do
  setArgs args
  emit .mov [r11, address]
  emit .call [r11]
  checkException env

/-- Stores `rax` in a variable. -/
def store (env : Env) (at_ : Span) (name : String) : Emitting Unit :=
  match env.lookup? name with
  | some place => emit .mov [place, rax]
  | none => warn at_ ("Assignment to unknown variable '" ++ name ++ "' is dropped")

/-- The value of a declaration without one: an empty collection or string for those types, zero
    otherwise. -/
def defaultValue (type : Option Sigil) : Emitting Unit :=
  match type with
  | some (.list _) => call "lm_array_new" [imm 0]
  | some (.map _) => call "lm_map_new" [imm 0]
  | some .str => do emit .lea [rax, ← str ""]
  | _ => zero

end Lantern.Emit
