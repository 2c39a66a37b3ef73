import Lantern.Infer.Facts
import Lantern.Library

/-!
# Sigils of expressions

Every expression receives a sigil, after those below it, from its form and from what is known about
variables. Where the checker resolved a type, that type decides.
-/

namespace Lantern.Infer

/-- The sigil of a name. -/
def identSigil (ctx : Context) (fs : Facts) (name : String) : Sigil :=
  if name == "this" && !ctx.cls.isEmpty then .object ctx.cls
  else if !fs.isVariable ctx name && ctx.classes.has name then .object name
  else fs.var ctx.routine name

/-- The sigil of an operator's result. -/
def binarySigil (op : BinaryOp) (l r : Sigil) : Sigil :=
  if op.isLogical then .bool
  else if op == .add && l.isStr && r.isStr then .str
  else .int

/-- The element representation of a collection literal: strings when there are elements and each is
    a string. -/
def literalElem (es : List Sigil) : Elem :=
  if !es.isEmpty && es.all Sigil.isStr then .str else .int

/-- The sigil of an element of a value of the given sigil. An object's elements are strings. -/
def indexSigil : Sigil → Sigil
  | .list e | .map e => e.sigil
  | .object _ => .str
  | _ => .int

/-- Whether an expression is a bare name that is no variable. -/
def isFreeName (ctx : Context) (fs : Facts) : Expr → Bool
  | .ident _ name => !fs.isVariable ctx name
  | _ => false

/-- The sigil of a member no type was resolved for. -/
def memberSigil (ctx : Context) (fs : Facts) (object : Expr) (name : String) : Sigil :=
  match object.sigil with
  | .object cls =>
    if isFreeName ctx fs object then (fs.staticField? ctx.classes cls name).getD .str else .str
  | _ => .str

/-- The sigil of a call by name. -/
def callSigil (ctx : Context) (fs : Facts) (callee : String) (args : List Sigil) : Sigil :=
  match LibFunc.ofName? callee, fs.isVariable ctx callee with
  | some f, false => f.result args
  | _, _ => (ctx.hints.results.get? (SymbolName.func callee)).getD .int

/-- The declared result of the method of the given name, static or not, that a class has of its own. A method without
    a declared result counts too. -/
def ownResult? (ctx : Context) (name : String) (static_ : Bool) (c : ClassDecl) : Option (Option Sigil) :=
  if c.methods.any fun m => m.name == name && m.isStatic == static_ then
    some (ctx.hints.results.get?
      (if static_ then SymbolName.staticMethod c.name name else SymbolName.method c.name name))
  else none

/-- The declared result of the nearest method of the given name, static or not. Bases that come round are left after
    one round here; the search that inference makes does not end on them. -/
def methodResult? (ctx : Context) (cls name : String) (static_ : Bool) : Option Sigil :=
  (ctx.classes.nearest? (ownResult? ctx name static_) cls).join

/-- The sigil of a method call no type was resolved for. -/
def methodSigil (ctx : Context) (fs : Facts) (receiver : Expr) (name : String) : Sigil :=
  let cls := receiver.sigil.className
  let static_ := isFreeName ctx fs receiver && ctx.classes.has cls
  (methodResult? ctx cls name static_).getD .int

/-- The base of the class around; empty if there is none. -/
def baseOf (ctx : Context) : String := ((ctx.classes.get? ctx.cls).map ClassDecl.base).getD ""

/-- The info of an expression whose sigil is found. -/
def found (i : Info) (s : Sigil) : Info := { i with sigil := some s }

mutual

/-- Records the sigils of an expression and everything below it. -/
def expr (ctx : Context) (fs : Facts) : Expr → Expr
  | .number i v => .number (found i .int) v
  | .bool i v => .bool (found i .bool) v
  | .str i v => .str (found i .str) v
  | .ident i name => .ident (found i (identSigil ctx fs name)) name
  | .binary i op l r =>
    let l := expr ctx fs l
    let r := expr ctx fs r
    .binary (found i (binarySigil op l.sigil r.sigil)) op l r
  | .unary i op e => .unary (found i (if op == .not then .bool else .int)) op (expr ctx fs e)
  | .ternary i c a b =>
    let a := expr ctx fs a
    let b := expr ctx fs b
    .ternary (found i (if a.sigil == b.sigil then a.sigil else .int)) (expr ctx fs c) a b
  | .list i es =>
    let es := exprs ctx fs es
    .list (found i (.list (literalElem (es.map Expr.sigil)))) es
  | .map i es =>
    let es := entries ctx fs es
    .map (found i (.map (literalElem (es.map fun e => e.2.sigil)))) es
  | .index i b k =>
    let b := expr ctx fs b
    .index (found i (indexSigil b.sigil)) b (expr ctx fs k)
  | .member i o name =>
    let o := expr ctx fs o
    .member (found i (i.resolved.getD (memberSigil ctx fs o name))) o name
  | .call i callee args =>
    let args := exprs ctx fs args
    .call (found i (callSigil ctx fs callee (args.map Expr.sigil))) callee args
  | .method i r name args =>
    let r := expr ctx fs r
    .method (found i (i.resolved.getD (methodSigil ctx fs r name))) r name (exprs ctx fs args)
  | .new_ i cls args => .new_ (found i (.object cls)) cls (exprs ctx fs args)
  | .super i => .super (found i (.object (baseOf ctx)))
  | .step i op first t => .step (found i .int) op first (expr ctx fs t)
  | .funcRef i name => .funcRef (found i .int) name

/-- Records the sigils of expressions. -/
def exprs (ctx : Context) (fs : Facts) : List Expr → List Expr
  | [] => []
  | e :: es => expr ctx fs e :: exprs ctx fs es

/-- Records the sigils of the entries of a map literal. -/
def entries (ctx : Context) (fs : Facts) : List (Expr × Expr) → List (Expr × Expr)
  | [] => []
  | (k, v) :: es => (expr ctx fs k, expr ctx fs v) :: entries ctx fs es

end

end Lantern.Infer
