import Lantern.Emit.Monad
import Lantern.Library
import Lantern.Tree.Outline

/-!
# Code for the forms of expressions

One definition for each form, over operands whose code is given. Running the code of an operand
leaves its value in `rax`.
-/

namespace Lantern.Emit

open Assembly

/-- An operand: an expression and the code that computes it. -/
structure Value where
  /-- The expression. -/
  expr : Expr
  /-- Code that leaves its value in `rax`. -/
  code : Emitting Unit

/-- The sigil of an operand. -/
def Value.sigil (v : Value) : Sigil := v.expr.sigil

/-- The value of a name. -/
def ident (env : Env) (at_ : Span) (name : String) : Emitting Unit :=
  match env.lookup? name with
  | some place => emit .mov [rax, place]
  | none =>
    if env.funcs.contains name then emit .lea [rax, .addr (SymbolName.func name)]
    else do
      warn at_ ("Unknown variable '" ++ name ++ "' evaluates to 0")
      zero

/-- The address of a function. -/
def funcRef (env : Env) (at_ : Span) (name : String) : Emitting Unit :=
  if env.funcs.contains name then emit .lea [rax, .addr (SymbolName.func name)]
  else do
    warn at_ ("Reference to unknown function '" ++ name ++ "' evaluates to 0")
    zero

/-- Turns the flags into 0 or 1. -/
def flagValue (op : Op) : Emitting Unit := do
  emit op [al]
  emit .movzx [rax, al]

/-- An operator on one operand. -/
def unary (op : UnaryOp) (v : Value) : Emitting Unit := do
  v.code
  match op with
  | .neg => emit .neg [rax]
  | .not =>
    testResult
    flagValue .sete

/-- A choice between two values. -/
def ternary (cond onTrue onFalse : Value) : Emitting Unit := do
  let elseL ← newLabel "else"
  let endL ← newLabel "endif"
  cond.code
  testResult
  jump .jz elseL
  onTrue.code
  jump .jmp endL
  place elseL
  onFalse.code
  place endL

/-- The instruction that reads a comparison off the flags. -/
def compareOp? : BinaryOp → Option Op
  | .eq => some .sete
  | .ne => some .setne
  | .lt => some .setl
  | .gt => some .setg
  | .le => some .setle
  | .ge => some .setge
  | _ => none

/-- The second operand is computed only if the first does not decide the result. -/
def shortCircuit (isOr : Bool) (l r : Value) : Emitting Unit := do
  let jumpOp : Op := if isOr then .jnz else .jz
  let decided ← newLabel (if isOr then "sctrue" else "scfalse")
  let endL ← newLabel "scend"
  let truth (b : Bool) : Emitting Unit := if b then emit .mov [rax, imm 1] else zero
  l.code
  testResult
  jump jumpOp decided
  r.code
  testResult
  jump jumpOp decided
  truth (!isOr)
  jump .jmp endL
  place decided
  truth isOr
  place endL

/-- A power, multiplied in a counted loop. An exponent that is not positive yields 1. -/
def powerForm (env : Env) (l r : Value) : Emitting Unit := do
  let loop ← newLabel "pow"
  let endL ← newLabel "powend"
  l.code
  let base ← spill env
  r.code
  emit .mov [rbx, rax]
  emit .mov [rax, imm 1]
  place loop
  emit .cmp [rbx, imm 0]
  jump .jle endL
  emit .imul [rax, base]
  emit .sub [rbx, imm 1]
  jump .jmp loop
  place endL
  popTemps 1

/-- An operator on two words, the first in `rax` and the second in `rbx`. -/
def wordOp (op : BinaryOp) : Emitting Unit :=
  match op with
  | .add => emit .add [rax, rbx]
  | .sub => emit .sub [rax, rbx]
  | .mul => emit .imul [rax, rbx]
  | .div => do
    emit .cqo []
    emit .idiv [rbx]
  | .rem => do
    emit .cqo []
    emit .idiv [rbx]
    emit .mov [rax, rdx]
  | _ =>
    match compareOp? op with
    | some flag => do
      emit .cmp [rax, rbx]
      flagValue flag
    | none => zero

/-- An operator on two operands that are both computed. -/
def strictBinary (env : Env) (op : BinaryOp) (l r : Value) : Emitting Unit := do
  l.code
  let left ← spill env
  r.code
  if l.sigil.isStr && r.sigil.isStr && op == .add then call "lm_str_concat" [left, rax]
  else if l.sigil.isStr && r.sigil.isStr && (op == .eq || op == .ne) then
    call "strcmp" [left, rax]
    emit .test [eax, eax]
    flagValue (if op == .eq then .sete else .setne)
  else
    emit .mov [rbx, rax]
    emit .mov [rax, left]
    wordOp op
  popTemps 1

/-- An operator on two operands. -/
def binary (env : Env) (op : BinaryOp) (l r : Value) : Emitting Unit :=
  match op with
  | .and => shortCircuit false l r
  | .or => shortCircuit true l r
  | .pow => powerForm env l r
  | _ => strictBinary env op l r

/-- Pushes elements onto the list that `place` holds. -/
def pushElems (list : Operand) : List Value → Emitting Unit
  | [] => pure ()
  | v :: vs => do
    v.code
    call "lm_array_push" [list, rax]
    pushElems list vs

/-- A list literal. -/
def listLit (env : Env) (elems : List Value) : Emitting Unit := do
  call "lm_array_new" [imm 0]
  let list ← spill env
  pushElems list elems
  emit .mov [rax, list]
  popTemps 1

/-- A map key: words are converted to strings. -/
def key (v : Value) : Emitting Unit := do
  v.code
  match v.expr, v.sigil with
  | .str .., _ => pure ()
  | _, .int => call "lm_to_string" [rax]
  | _, .bool => call "lm_to_string" [rax]
  | _, _ => pure ()

/-- The flag that says whether a stored value is a string. -/
def strFlag (isStr : Bool) : Operand := imm (if isStr then 1 else 0)

/-- Puts entries into a map. -/
def putEntries (env : Env) (map : Operand) : List (Value × Value) → Emitting Unit
  | [] => pure ()
  | (k, v) :: rest => do
    key k
    let k ← spill env
    v.code
    call "lm_map_set" [map, k, rax, strFlag v.sigil.isStr]
    popTemps 1
    putEntries env map rest

/-- A map literal. -/
def mapLit (env : Env) (entries : List (Value × Value)) : Emitting Unit := do
  call "lm_map_new" [imm entries.length]
  let map ← spill env
  putEntries env map entries
  emit .mov [rax, map]
  popTemps 1

/-- The value of a static field. -/
def loadStatic (env : Env) (at_ : Span) (cls field : String) : Emitting Unit :=
  match env.classes.staticField? cls field with
  | some sym => emit .mov [rax, .data sym]
  | none => do
    warn at_ ("Class '" ++ cls ++ "' has no static field '" ++ field ++ "'")
    zero

/-- The class and field that a class name with a literal key stand for. -/
def staticRef? (env : Env) (base k : Expr) : Option (String × String) :=
  match env.classRef? base, k.strValue? with
  | some cls, some field => some (cls, field)
  | _, _ => none

/-- An element of a collection or object. -/
def index (env : Env) (at_ : Span) (base k : Value) : Emitting Unit :=
  match staticRef? env base.expr k.expr with
  | some (cls, field) => loadStatic env at_ cls field
  | none => do
    base.code
    let b ← spill env
    if base.sigil.isKeyed then
      key k
      call "lm_map_get" [b, rax]
    else
      k.code
      call "lm_array_get" [b, rax]
    popTemps 1

/-- A field of an object or class. -/
def member (env : Env) (at_ : Span) (object : Value) (name : String) : Emitting Unit :=
  match env.classRef? object.expr with
  | some cls => loadStatic env at_ cls name
  | none => do
    object.code
    call "lm_map_get" [rax, ← str name]

/-- Computes arguments from left to right into temporaries. -/
def evalArgs (env : Env) : List Value → Emitting (List Operand)
  | [] => return []
  | v :: vs => do
    v.code
    let t ← spill env
    return t :: (← evalArgs env vs)

/-- Calls the method whose address is in `rax`. -/
def callMethod (env : Env) (receiver : Operand) (args : List Operand) : Emitting Unit := do
  let address ← spill env
  callAddress env address (receiver :: args)
  popTemps 1

/-- A call of an inherited method, found under the key of the class around. -/
def superCall (env : Env) (at_ : Span) (name : String) (args : List Value) : Emitting Unit :=
  match env.locals.idxOf? "this", env.cls.isEmpty with
  | some i, false => do
    let receiver := Operand.slot i
    let ops ← evalArgs env args
    call "lm_map_get" [receiver, ← str SymbolName.methodTableKey]
    call "lm_map_get" [rax, ← str (SymbolName.superKey env.cls name)]
    callMethod env receiver ops
    popTemps ops.length
  | _, _ => do
    warn at_ "'super' used outside of an instance method evaluates to 0"
    zero

/-- A call of a static method. -/
def staticCall (env : Env) (at_ : Span) (cls name : String) (args : List Value) : Emitting Unit :=
  match env.classes.staticMethod? cls name with
  | some sym => do
    let ops ← evalArgs env args
    callRoutine env (.label sym) ops
    popTemps ops.length
  | none => do
    warn at_ ("Class '" ++ cls ++ "' has no static method '" ++ name ++ "'")
    zero

/-- A call of a method through the method table of its receiver. -/
def dispatch (env : Env) (receiver : Value) (name : String) (args : List Value) : Emitting Unit := do
  receiver.code
  let r ← spill env
  let ops ← evalArgs env args
  call "lm_map_get" [r, ← str SymbolName.methodTableKey]
  call "lm_map_get" [rax, ← str name]
  callMethod env r ops
  popTemps (ops.length + 1)

/-- A method call. -/
def methodCall (env : Env) (at_ : Span) (receiver : Value) (name : String) (args : List Value) :
    Emitting Unit :=
  match receiver.expr with
  | .super _ => superCall env at_ name args
  | e =>
    match env.classRef? e with
    | some cls => staticCall env at_ cls name args
    | none => dispatch env receiver name args

/-- Sets the fields of a new object to their initial values; `initial` generates those. -/
def setFields (obj : Operand) (initial : Expr → Emitting Unit) : List Field → Emitting Unit
  | [] => pure ()
  | f :: fs => do
    match f.init with
    | some e => initial e
    | none => defaultValue f.type
    let isStr := match f.type with
      | some t => t.isStr
      | none => (f.init.map fun e => e.sigil.isStr).getD false
    call "lm_map_set" [obj, ← str f.name, rax, strFlag isStr]
    setFields obj initial fs

/-- Runs the constructor for the given arguments, if the class has one for their number. -/
def construct (env : Env) (at_ : Span) (c : ClassDecl) (obj : Operand) (args : List Value) :
    Emitting Unit := do
  if c.ctors.any (·.params.length == args.length) then
    let ops ← evalArgs env args
    callRoutine env (.label (SymbolName.ctor c.name args.length)) (obj :: ops)
    popTemps ops.length
  else if !args.isEmpty then
    warn at_ ("Class '" ++ c.name ++ "' has no constructor taking " ++ toString args.length ++
      " arguments")

/-- A new object: a map that holds its method table and its fields. -/
def newObject (env : Env) (initial : Expr → Emitting Unit) (at_ : Span) (cls : String)
    (args : List Value) : Emitting Unit :=
  match env.classes.get? cls with
  | none => do
    warn at_ ("Unknown class '" ++ cls ++ "' in 'new' evaluates to null")
    zero
  | some c => do
    let fields := env.classes.flatFields cls
    call "lm_map_new" [imm (fields.length + 1)]
    let obj ← spill env
    call "lm_map_set"
      [obj, ← str SymbolName.methodTableKey, .data (SymbolName.methodTable c.name), imm 0]
    setFields obj initial fields
    construct env at_ c obj args
    emit .mov [rax, obj]
    popTemps 1

/-- The instruction of a step. -/
def stepInstr : StepOp → Op
  | .inc => .add
  | .dec => .sub

/-- A step of the word at a place. -/
def stepPlace (op : StepOp) (first : Bool) (place : Operand) : Emitting Unit := do
  emit .mov [rax, place]
  emit .mov [rbx, rax]
  emit (stepInstr op) [rbx, imm 1]
  emit .mov [place, rbx]
  if first then emit .mov [rax, rbx]

/-- A step of a variable. -/
def stepVar (env : Env) (at_ : Span) (op : StepOp) (first : Bool) (name : String) : Emitting Unit :=
  match env.lookup? name with
  | some place => stepPlace op first place
  | none => do
    warn at_ ("Unknown variable '" ++ name ++ "' evaluates to 0")
    zero

/-- A step of an element or field. -/
def stepElement (env : Env) (at_ : Span) (op : StepOp) (first : Bool) (base k : Value) :
    Emitting Unit :=
  match staticRef? env base.expr k.expr with
  | some (cls, field) =>
    match env.classes.staticField? cls field with
    | some sym => stepPlace op first (.data sym)
    | none => do
      warn at_ ("Class '" ++ cls ++ "' has no static field '" ++ field ++ "'")
      zero
  | none => do
    let keyed := base.sigil.isKeyed
    base.code
    let b ← spill env
    if keyed then key k else k.code
    let k ← spill env
    call (if keyed then "lm_map_get" else "lm_array_get") [b, k]
    let old ← spill env
    emit (stepInstr op) [rax, imm 1]
    let updated ← spill env
    if keyed then call "lm_map_set" [b, k, updated, imm 0]
    else call "lm_array_set" [b, k, updated]
    emit .mov [rax, if first then updated else old]
    popTemps 4

/-- What is no expression at all has the value zero. -/
def unsupported (at_ : Span) (kind : NodeKind) : Emitting Unit := do
  warn at_ ("Unsupported expression " ++ kind.name ++ " evaluates to 0")
  zero

end Lantern.Emit
