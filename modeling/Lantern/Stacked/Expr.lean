import Lantern.Stacked.State

/-!
# Code for expressions over stacks

The forms of expressions once more. Those that call routines of the program look at the stacks, and so may any operand;
what is neither a call nor an operand is taken from the forms over an environment.
-/

namespace Lantern.Stacked

open Assembly Emit

/-- An operand: an expression and the code that computes it. -/
structure Value where
  /-- The expression. -/
  expr : Expr
  /-- Code that leaves its value in `rax`. -/
  code : Stacking Unit

/-- The sigil of an operand. -/
def Value.sigil (v : Value) : Sigil := v.expr.sigil

/-- A form whose one operand is computed before anything else. -/
def after (v : Value) (form : Emit.Value → Emitting Unit) : Stacking Unit := do
  v.code
  form ⟨v.expr, pure ()⟩

/-! ## Operators -/

/-- A choice between two values. -/
def ternary (cond onTrue onFalse : Value) : Stacking Unit := do
  let elseL ← newLabel "else"
  let endL ← newLabel "endif"
  cond.code
  testResult
  jump .jz elseL
  onTrue.code
  jump .jmp endL
  place elseL
  onFalse.code
  place endL

/-- The second operand is computed only if the first does not decide the result. -/
def shortCircuit (isOr : Bool) (l r : Value) : Stacking Unit := do
  let jumpOp : Op := if isOr then .jnz else .jz
  let decided ← newLabel (if isOr then "sctrue" else "scfalse")
  let endL ← newLabel "scend"
  let truth (b : Bool) : Emitting Unit := if b then emit .mov [rax, imm 1] else zero
  l.code
  testResult
  jump jumpOp decided
  r.code
  testResult
  jump jumpOp decided
  truth (!isOr)
  jump .jmp endL
  place decided
  truth isOr
  place endL

/-- A power, multiplied in a counted loop. -/
def powerForm (env : Env) (l r : Value) : Stacking Unit := do
  let loop ← newLabel "pow"
  let endL ← newLabel "powend"
  l.code
  let base ← spill env
  r.code
  emit .mov [rbx, rax]
  emit .mov [rax, imm 1]
  place loop
  emit .cmp [rbx, imm 0]
  jump .jle endL
  emit .imul [rax, base]
  emit .sub [rbx, imm 1]
  jump .jmp loop
  place endL
  popTemps 1

/-- An operator on two operands that are both computed. -/
def strictBinary (env : Env) (op : BinaryOp) (l r : Value) : Stacking Unit := do
  l.code
  let left ← spill env
  r.code
  if l.sigil.isStr && r.sigil.isStr && op == .add then call "lm_str_concat" [left, rax]
  else if l.sigil.isStr && r.sigil.isStr && (op == .eq || op == .ne) then
    call "strcmp" [left, rax]
    emit .test [eax, eax]
    flagValue (if op == .eq then .sete else .setne)
  else
    emit .mov [rbx, rax]
    emit .mov [rax, left]
    wordOp op
  popTemps 1

/-- An operator on two operands. -/
def binary (env : Env) (op : BinaryOp) (l r : Value) : Stacking Unit :=
  match op with
  | .and => shortCircuit false l r
  | .or => shortCircuit true l r
  | .pow => powerForm env l r
  | _ => strictBinary env op l r

/-! ## Collections -/

/-- Pushes elements onto the list that `place` holds. -/
def pushElems (list : Operand) : List Value → Stacking Unit
  | [] => pure ()
  | v :: vs => do
    v.code
    call "lm_array_push" [list, rax]
    pushElems list vs

/-- A list literal. -/
def listLit (env : Env) (elems : List Value) : Stacking Unit := do
  call "lm_array_new" [imm 0]
  let list ← spill env
  pushElems list elems
  emit .mov [rax, list]
  popTemps 1

/-- Puts entries into a map. -/
def putEntries (env : Env) (map : Operand) : List (Value × Value) → Stacking Unit
  | [] => pure ()
  | (k, v) :: rest => do
    after k key
    let k ← spill env
    v.code
    call "lm_map_set" [map, k, rax, strFlag v.sigil.isStr]
    popTemps 1
    putEntries env map rest

/-- A map literal. -/
def mapLit (env : Env) (entries : List (Value × Value)) : Stacking Unit := do
  call "lm_map_new" [imm entries.length]
  let map ← spill env
  putEntries env map entries
  emit .mov [rax, map]
  popTemps 1

/-- An element of a collection or object. -/
def index (env : Env) (at_ : Span) (base k : Value) : Stacking Unit :=
  match staticRef? env base.expr k.expr with
  | some (cls, field) => loadStatic env at_ cls field
  | none => do
    base.code
    let b ← spill env
    if base.sigil.isKeyed then
      after k key
      call "lm_map_get" [b, rax]
    else
      k.code
      call "lm_array_get" [b, rax]
    popTemps 1

/-- A field of an object or class. -/
def member (env : Env) (at_ : Span) (object : Value) (name : String) : Stacking Unit :=
  match env.classRef? object.expr with
  | some cls => loadStatic env at_ cls name
  | none => do
    object.code
    call "lm_map_get" [rax, ← str name]

/-- A step of an element or field. -/
def stepElement (env : Env) (at_ : Span) (op : StepOp) (first : Bool) (base k : Value) :
    Stacking Unit :=
  match staticRef? env base.expr k.expr with
  | some (cls, field) =>
    match env.classes.staticField? cls field with
    | some sym => stepPlace op first (.data sym)
    | none => do
      warn at_ ("Class '" ++ cls ++ "' has no static field '" ++ field ++ "'")
      zero
  | none => do
    let keyed := base.sigil.isKeyed
    base.code
    let b ← spill env
    if keyed then after k key else k.code
    let k ← spill env
    call (if keyed then "lm_map_get" else "lm_array_get") [b, k]
    let old ← spill env
    emit (stepInstr op) [rax, imm 1]
    let updated ← spill env
    if keyed then call "lm_map_set" [b, k, updated, imm 0]
    else call "lm_array_set" [b, k, updated]
    emit .mov [rax, if first then updated else old]
    popTemps 4

/-! ## Calls -/

/-- Computes arguments from left to right into temporaries. -/
def evalArgs (env : Env) : List Value → Stacking (List Operand)
  | [] => return []
  | v :: vs => do
    v.code
    let t ← spill env
    return t :: (← evalArgs env vs)

/-- Calls a routine of the program. -/
def callRoutine (k : Knot) (env : Env) (target : Operand) (args : List Operand) : Stacking Unit := do
  setArgs args
  emit .call [target]
  checkException k env

/-- Calls the routine whose address a place holds. -/
def callAddress (k : Knot) (env : Env) (address : Operand) (args : List Operand) : Stacking Unit := do
  setArgs args
  emit .mov [r11, address]
  emit .call [r11]
  checkException k env

/-- Calls the method whose address is in `rax`. -/
def callMethod (k : Knot) (env : Env) (receiver : Operand) (args : List Operand) : Stacking Unit := do
  let address ← spill env
  callAddress k env address (receiver :: args)
  popTemps 1

/-- A call of an inherited method, found under the key of the class around. -/
def superCall (k : Knot) (env : Env) (at_ : Span) (name : String) (args : List Value) : Stacking Unit :=
  match env.locals.idxOf? "this", env.cls.isEmpty with
  | some i, false => do
    let receiver := Operand.slot i
    let ops ← evalArgs env args
    call "lm_map_get" [receiver, ← str SymbolName.methodTableKey]
    call "lm_map_get" [rax, ← str (SymbolName.superKey env.cls name)]
    callMethod k env receiver ops
    popTemps ops.length
  | _, _ => do
    warn at_ "'super' used outside of an instance method evaluates to 0"
    zero

/-- A call of a static method. -/
def staticCall (k : Knot) (env : Env) (at_ : Span) (cls name : String) (args : List Value) : Stacking Unit :=
  match env.classes.staticMethod? cls name with
  | some sym => do
    let ops ← evalArgs env args
    callRoutine k env (.label sym) ops
    popTemps ops.length
  | none => do
    warn at_ ("Class '" ++ cls ++ "' has no static method '" ++ name ++ "'")
    zero

/-- A call of a method through the method table of its receiver. -/
def dispatch (k : Knot) (env : Env) (receiver : Value) (name : String) (args : List Value) : Stacking Unit := do
  receiver.code
  let r ← spill env
  let ops ← evalArgs env args
  call "lm_map_get" [r, ← str SymbolName.methodTableKey]
  call "lm_map_get" [rax, ← str name]
  callMethod k env r ops
  popTemps (ops.length + 1)

/-- A method call. -/
def methodCall (k : Knot) (env : Env) (at_ : Span) (receiver : Value) (name : String) (args : List Value) :
    Stacking Unit :=
  match receiver.expr with
  | .super _ => superCall k env at_ name args
  | e =>
    match env.classRef? e with
    | some cls => staticCall k env at_ cls name args
    | none => dispatch k env receiver name args

/-- Sets the fields of a new object to their initial values. -/
def setFields (k : Knot) (obj : Operand) : List Field → Stacking Unit
  | [] => pure ()
  | f :: fs => do
    match f.init with
    | some e => k.initial e
    | none => defaultValue f.type
    let isStr := match f.type with
      | some t => t.isStr
      | none => (f.init.map fun e => e.sigil.isStr).getD false
    call "lm_map_set" [obj, ← str f.name, rax, strFlag isStr]
    setFields k obj fs

/-- Runs the constructor for the given arguments, if the class has one for their number. -/
def construct (k : Knot) (env : Env) (at_ : Span) (c : ClassDecl) (obj : Operand) (args : List Value) :
    Stacking Unit := do
  if c.ctors.any (·.params.length == args.length) then
    let ops ← evalArgs env args
    callRoutine k env (.label (SymbolName.ctor c.name args.length)) (obj :: ops)
    popTemps ops.length
  else if !args.isEmpty then
    warn at_ ("Class '" ++ c.name ++ "' has no constructor taking " ++ toString args.length ++
      " arguments")

/-- A new object: a map that holds its method table and its fields. -/
def newObject (k : Knot) (env : Env) (at_ : Span) (cls : String) (args : List Value) : Stacking Unit :=
  match env.classes.get? cls with
  | none => do
    warn at_ ("Unknown class '" ++ cls ++ "' in 'new' evaluates to null")
    zero
  | some c => do
    let fields := env.classes.flatFields cls
    call "lm_map_new" [imm (fields.length + 1)]
    let obj ← spill env
    call "lm_map_set"
      [obj, ← str SymbolName.methodTableKey, .data (SymbolName.methodTable c.name), imm 0]
    setFields k obj fields
    construct k env at_ c obj args
    emit .mov [rax, obj]
    popTemps 1

/-! ## Library calls -/

/-- Whether a string, map or list contains something. -/
def containsForm (env : Env) (v x : Value) : Stacking Unit := do
  v.code
  let c ← spill env
  if v.sigil.isKeyed then after x key else x.code
  call (if v.sigil.isStr then "lm_str_contains"
    else if v.sigil.isKeyed then "lm_map_contains"
    else if v.sigil.elemSigil.isStr then "lm_array_contains_str"
    else "lm_array_contains_int") [c, rax]
  popTemps 1

/-- Removes an entry of a map. -/
def deleteForm (env : Env) (v k : Value) : Stacking Unit := do
  v.code
  let m ← spill env
  after k key
  call "lm_map_delete" [m, rax]
  popTemps 1

/-- An entry of a map or a given value. -/
def getOrForm (env : Env) (v k d : Value) : Stacking Unit := do
  v.code
  let m ← spill env
  after k key
  let k ← spill env
  d.code
  call "lm_map_get_default" [m, k, rax]
  popTemps 2

/-- A call of a library function; `readStr` when input is to be a string. -/
def libraryCall (env : Env) (at_ : Span) (f : LibFunc) (readStr : Bool) (args : List Value) :
    Stacking Unit := do
  if args.length != f.arity then
    warn at_ ("Wrong number of arguments to '" ++ f.name ++ "' evaluates to 0")
    zero
  else
    match runtimeRoutine? f, f, args with
    | some routine, _, _ =>
      let ops ← evalArgs env args
      call routine ops
      popTemps ops.length
    | none, .len, [v] => after v lenForm
    | none, .str, [v] => after v strForm
    | none, .num, [v] => after v numForm
    | none, .contains, [v, x] => containsForm env v x
    | none, .delete, [v, k] => deleteForm env v k
    | none, .getOr, [v, k, d] => getOrForm env v k d
    | none, .free, [v] => after v freeForm
    | none, .input, _ => inputForm readStr
    | none, .inputLine, _ => readString "fmt_read_line"
    | none, _, _ =>
      warn at_ ("Library call '" ++ f.name ++ "' has no lowering and evaluates to 0")
      zero

/-- A call by name: through a variable, of a library function, or of a function of the program. -/
def callByName (k : Knot) (env : Env) (at_ : Span) (name : String) (args : List Value) : Stacking Unit :=
  match env.lookup? name with
  | some place => do
    let ops ← evalArgs env args
    callAddress k env place ops
    popTemps ops.length
  | none =>
    match LibFunc.ofName? name with
    | some f => libraryCall env at_ f false args
    | none =>
      if env.funcs.contains name then do
        let ops ← evalArgs env args
        callRoutine k env (.label (SymbolName.func name)) ops
        popTemps ops.length
      else do
        warn at_ ("Call to unknown function '" ++ name ++ "' evaluates to 0")
        zero

/-! ## Expressions -/

mutual

/-- Generates an expression. -/
def expr (k : Knot) (env : Env) (e : Expr) : Stacking Unit := do
  note (some (.expr e))
  match e with
  | .number _ v => emit .mov [rax, .imm v]
  | .bool _ v => if v then emit .mov [rax, imm 1] else zero
  | .str _ v => emit .lea [rax, ← str v]
  | .ident i name => ident env i.span name
  | .binary _ op l r => binary env op ⟨l, expr k env l⟩ ⟨r, expr k env r⟩
  | .unary _ op e => after ⟨e, expr k env e⟩ (unary op)
  | .ternary _ c a b => ternary ⟨c, expr k env c⟩ ⟨a, expr k env a⟩ ⟨b, expr k env b⟩
  | .list _ es => listLit env (values k env es)
  | .map _ es => mapLit env (entries k env es)
  | .index i b x => index env i.span ⟨b, expr k env b⟩ ⟨x, expr k env x⟩
  | .member i o name => member env i.span ⟨o, expr k env o⟩ name
  | .call i callee args => callByName k env i.span callee (values k env args)
  | .method i r name args => methodCall k env i.span ⟨r, expr k env r⟩ name (values k env args)
  | .new_ i cls args => newObject k env i.span cls (values k env args)
  | .super i => ident env i.span "this"
  | .step i op first t =>
    match t with
    | .ident _ name => stepVar env i.span op first name
    | .index _ b x => stepElement env i.span op first ⟨b, expr k env b⟩ ⟨x, expr k env x⟩
    | .member ti o name =>
      stepElement env i.span op first ⟨o, expr k env o⟩
        ⟨.str ⟨ti.span, none, none⟩ name, do emit .lea [rax, ← str name]⟩
    | _ => zero
  | .funcRef i name => funcRef env i.span name

/-- Expressions with their code. -/
def values (k : Knot) (env : Env) : List Expr → List Value
  | [] => []
  | e :: es => ⟨e, expr k env e⟩ :: values k env es

/-- Entries of a map literal with their code. -/
def entries (k : Knot) (env : Env) : List (Expr × Expr) → List (Value × Value)
  | [] => []
  | (x, v) :: es => (⟨x, expr k env x⟩, ⟨v, expr k env v⟩) :: entries k env es

end

/-- An expression with its code. -/
def value (k : Knot) (env : Env) (e : Expr) : Value := ⟨e, expr k env e⟩

/-- Generates a value that is stored where values of the given sigil belong. Input reads a string
    where strings belong. -/
def valueFor (k : Knot) (env : Env) (target : Sigil) (e : Expr) : Stacking Unit :=
  match e with
  | .call i callee args =>
    if callee == LibFunc.input.name && !env.isVariable callee then
      libraryCall env i.span .input target.isStr (args.map (value k env))
    else expr k env e
  | _ => expr k env e

end Lantern.Stacked
