import Lantern.Check.Declarations

/-!
# Checking expressions

Names must be known, calls must fit what they call, and a few obvious slips are remarked on. Checking
an expression yields it with the types of its members and method calls resolved, and its own type
where that is certain.
-/

namespace Lantern.Check

/-- What does not change while a routine is checked, loops and switches apart. -/
structure Context where
  /-- Functions by name. -/
  funcs : List FuncDecl
  /-- Classes by name. -/
  classes : ClassTable
  /-- Declared result types of routines. -/
  results : Assoc Sigil
  /-- Symbol of the routine; empty outside of one. -/
  routine : String
  /-- Name of the class around it; empty outside of one. -/
  cls : String
  /-- Whether there is no receiver although there is a class. -/
  isStatic : Bool
  /-- Number of loops around. -/
  loops : Nat
  /-- Number of switches around, within the innermost loop. -/
  switches : Nat

namespace Context

/-- The function of a given name. -/
def func? (ctx : Context) (name : String) : Option FuncDecl := ctx.funcs.find? (·.name == name)

/-- The base of the class around; empty if there is none. -/
def base (ctx : Context) : String := ((ctx.classes.get? ctx.cls).map ClassDecl.base).getD ""

end Context

/-- Whether a value of type `got` goes where `want` is declared without a remark: shapes agree, or
    both are words. -/
def fits (want got : Sigil) : Bool :=
  want.kindIndex == got.kindIndex ||
    (want == .int && got == .bool) || (want == .bool && got == .int)

/-- Remarks on a value of the wrong shape. Unknown types fit everything. -/
def checkAssignable (at_ : Span) (want got : Option Sigil) (what : String) : Checking Unit :=
  match want, got with
  | some want, some got =>
    if fits want got then pure ()
    else warn .type at_ ("Assigning a value of type '" ++ got.name ++ "' to " ++ what ++
      " of type '" ++ want.name ++ "'")
  | _, _ => pure ()

/-- The type of a name used as a value. -/
def identType (ctx : Context) (at_ : Span) (name : String) : Checking (Option Sigil) := do
  if name == "this" then
    if ctx.cls.isEmpty || ctx.isStatic then
      fail at_ "'this' used outside of an instance method"
    return some (.object ctx.cls)
  match ← find? name with
  | some type => return type
  | none =>
    if ctx.classes.has name then return some (.object name)
    if (ctx.func? name).isSome then
      fail at_ ("Function '" ++ name ++ "' used as a value; take its address with '&" ++ name ++
        "'")
    fail at_ ("Undefined variable '" ++ name ++ "'")

/-- The type of an operator's result. -/
def binaryType (at_ : Span) (op : BinaryOp) (l r : Option Sigil) : Checking (Option Sigil) := do
  if op.isLogical then return some .bool
  if op == .add then
    if let (some l, some r) := (l, r) then
      if l.isStr && r.isStr then return some .str
      if l.isStr != r.isStr then
        warn .type at_ ("'+' between '" ++ l.name ++ "' and '" ++ r.name ++
          "' is integer addition; convert with str()")
  return some .int

/-- The type of a field's initial value that needs no scope to tell. -/
def literalType : Expr → Option Sigil
  | .number .. => some .int
  | .bool .. => some .bool
  | .str .. => some .str
  | .new_ _ cls _ => some (.object cls)
  | _ => none

/-- Whether an expression is a bare name that no scope knows, and so stands for a class. -/
def isClassRef (e : Expr) : Checking Bool :=
  match e with
  | .ident _ name => do return !(← isKnown name)
  | _ => return false

/-- The class of a receiver, if its type is an object of a known class name. -/
def receiverClass? : Option Sigil → Option String
  | some (.object cls) => if cls.isEmpty then none else some cls
  | _ => none

/-- The type of a member of a receiver of the given type. -/
def memberType (ctx : Context) (at_ : Span) (object : Expr) (type : Option Sigil) (name : String) :
    Checking (Option Sigil) := do
  match receiverClass? type with
  | none => return none
  | some cls =>
    let classRef ← isClassRef object
    match ctx.classes.findField? cls name with
    | none =>
      if ctx.classes.has cls then
        warn .type at_ ("Class '" ++ cls ++ "' has no field '" ++ name ++ "'")
      return none
    | some f =>
      if classRef && !f.isStatic then
        fail at_ ("'" ++ cls ++ "." ++ name ++ "' is not a static field")
      match f.type with
      | some t => return some t
      | none => return f.init.bind literalType

/-- The type of a call of a found method, which must take as many arguments as are given. -/
def callMethod (at_ : Span) (m : Method) (count : Nat) : Checking (Option Sigil) := do
  if count != m.params.length then
    fail at_ ("Method '" ++ m.name ++ "' takes " ++ toString m.params.length ++
      " arguments, got " ++ toString count)
  return m.result

/-- The type of a method call on a receiver of the given type. -/
def methodType (ctx : Context) (at_ : Span) (receiver : Expr) (type : Option Sigil)
    (name : String) (count : Nat) : Checking (Option Sigil) := do
  match receiverClass? type with
  | none => return none
  | some cls =>
    let found := ctx.classes.findMethod? cls name
    if ← isClassRef receiver then
      match found with
      | none => fail at_ ("Class '" ++ cls ++ "' has no static method '" ++ name ++ "'")
      | some (_, m) =>
        if !m.isStatic then fail at_ ("'" ++ cls ++ "." ++ name ++ "' is not a static method")
        callMethod at_ m count
    else
      match found with
      | none =>
        if ctx.classes.has cls then
          warn .type at_ ("Class '" ++ cls ++ "' has no method '" ++ name ++ "'")
        return none
      | some (_, m) =>
        if m.isStatic then
          fail at_ ("Static method '" ++ name ++ "' called through an instance; use '" ++ cls ++
            "." ++ name ++ "()'")
        callMethod at_ m count

/-- A number of arguments in words. -/
def argumentCount (n : Nat) : String :=
  if n == 1 then "1 argument" else toString n ++ " arguments"

/-- Compares arguments with the parameters they go to. -/
def checkArgs : List Param → List (Expr × Option Sigil) → Checking Unit
  | p :: ps, (e, got) :: rest => do
    checkAssignable e.span p.type got ("parameter '" ++ p.name ++ "'")
    checkArgs ps rest
  | _, _ => pure ()

/-- The type of a call by name. A variable may hold the address of any function. -/
def callType (ctx : Context) (at_ : Span) (name : String) (args : List (Expr × Option Sigil)) :
    Checking (Option Sigil) := do
  if ← isKnown name then return none
  match LibFunc.ofName? name with
  | some f =>
    if args.length != f.arity then
      fail at_ ("Library function '" ++ name ++ "' takes " ++ argumentCount f.arity ++ ", got " ++
        toString args.length)
    return none
  | none =>
    match ctx.func? name with
    | none =>
      if ctx.classes.has name then
        fail at_ ("Use 'new " ++ name ++ "(...)' to create an instance")
      fail at_ ("Call to undefined function '" ++ name ++ "'")
    | some f =>
      if args.length != f.params.length then
        fail at_ ("Function '" ++ name ++ "' takes " ++ toString f.params.length ++
          " arguments, got " ++ toString args.length)
      checkArgs f.params args
      return f.result

/-- The type of a new object. -/
def newType (ctx : Context) (at_ : Span) (cls : String) (count : Nat) : Checking (Option Sigil) := do
  match ctx.classes.get? cls with
  | none =>
    warn .type at_ ("Unknown class '" ++ cls ++ "' in 'new'; the value will be null")
    return none
  | some c =>
    if 0 < count && !c.ctors.any (·.params.length == count) then
      warn .extra at_ ("Class '" ++ cls ++ "' declares no constructor taking " ++
        toString count ++ " arguments; none will run")
    return some (.object cls)

/-- The element representation of a collection literal: strings when there are elements and each is
    certainly a string. -/
def literalElem (types : List (Option Sigil)) : Elem :=
  if !types.isEmpty && types.all (fun t => (t.map Sigil.isStr).getD false) then .str else .int

/-- Remarks on a map key that is certainly no string. -/
def checkKey (key : Expr) (type : Option Sigil) : Checking Unit :=
  match type with
  | some t =>
    if t.isStr then pure ()
    else warn .type key.span ("Map keys must be strings, got '" ++ t.name ++ "'")
  | none => pure ()

mutual

/-- Checks an expression. -/
def expr (ctx : Context) : Expr → Checking (Expr × Option Sigil)
  | .number i v => return (.number i v, some .int)
  | .bool i v => return (.bool i v, some .bool)
  | .str i v => return (.str i v, some .str)
  | .ident i name => do return (.ident i name, ← identType ctx i.span name)
  | .binary i op l r => do
    let (l, lt) ← expr ctx l
    let (r, rt) ← expr ctx r
    return (.binary i op l r, ← binaryType i.span op lt rt)
  | .unary i op e => do
    let (e, _) ← expr ctx e
    return (.unary i op e, some (if op == .not then .bool else .int))
  | .ternary i c a b => do
    let (c, _) ← expr ctx c
    let (a, at') ← expr ctx a
    let (b, bt) ← expr ctx b
    return (.ternary i c a b, if at' == bt then at' else none)
  | .list i es => do
    let es ← exprs ctx es
    return (.list i (es.map Prod.fst), some (.list (literalElem (es.map Prod.snd))))
  | .map i es => do
    let ks ← keys ctx es
    let vs ← values ctx es
    return (.map i (ks.zip (vs.map Prod.fst)), some (.map (literalElem (vs.map Prod.snd))))
  | .index i b k => do
    let (b, bt) ← expr ctx b
    let (k, _) ← expr ctx k
    return (.index i b k, bt.bind fun t => if t.isCollection then some t.elemSigil else none)
  | .member i o name => do
    let (o, ot) ← expr ctx o
    let type ← memberType ctx i.span o ot name
    return (.member { i with resolved := type } o name, type)
  | .call i callee args => do
    let args ← exprs ctx args
    let type ← callType ctx i.span callee args
    return (.call i callee (args.map Prod.fst), type)
  | .method i r name args => do
    let (r, rt) ← expr ctx r
    let args ← exprs ctx args
    let type ← methodType ctx i.span r rt name args.length
    return (.method { i with resolved := type } r name (args.map Prod.fst), type)
  | .new_ i cls args => do
    let args ← exprs ctx args
    let type ← newType ctx i.span cls args.length
    return (.new_ i cls (args.map Prod.fst), type)
  | .super i => do
    if ctx.cls.isEmpty || ctx.isStatic || ctx.base.isEmpty then
      fail i.span "'super' used outside of a method of a derived class"
    return (.super i, some (.object ctx.base))
  | .step i op first t => do
    let (t, _) ← expr ctx t
    return (.step i op first t, some .int)
  | .funcRef i name => do
    if (ctx.func? name).isNone then
      fail i.span ("'&" ++ name ++ "' does not name a function")
    return (.funcRef i name, some .int)

/-- Checks expressions from left to right. -/
def exprs (ctx : Context) : List Expr → Checking (List (Expr × Option Sigil))
  | [] => return []
  | e :: es => do
    let e ← expr ctx e
    return e :: (← exprs ctx es)

/-- Checks the keys of a map literal. -/
def keys (ctx : Context) : List (Expr × Expr) → Checking (List Expr)
  | [] => return []
  | (k, _) :: es => do
    let (k, type) ← expr ctx k
    checkKey k type
    return k :: (← keys ctx es)

/-- Checks the values of a map literal. -/
def values (ctx : Context) : List (Expr × Expr) → Checking (List (Expr × Option Sigil))
  | [] => return []
  | (_, v) :: es => do
    let v ← expr ctx v
    return v :: (← values ctx es)

end

/-- Checks an expression for its effects and remarks only. -/
def exprOnly (ctx : Context) (e : Expr) : Checking Expr := do return (← expr ctx e).1

/-- Checks an expression that may be missing. -/
def exprOption (ctx : Context) : Option Expr → Checking (Option Expr × Option Sigil)
  | none => return (none, none)
  | some e => do
    let (e, type) ← expr ctx e
    return (some e, type)

end Lantern.Check
