import Lantern.Emit.Library

/-!
# Code for expressions

A new object runs the initial values of its fields where it is created. Those values are not below
the expression that creates the object, so they are generated by a function given from outside; at
the top it generates them in the same way, one level of objects further down. Initial values whose
classes do not create each other in a circle nest at most as deeply as there are classes.
-/

namespace Lantern.Emit

open Assembly

mutual

/-- Generates an expression; `initial` generates the initial values of new objects. -/
def exprWith (initial : Expr → Emitting Unit) (env : Env) : Expr → Emitting Unit
  | .number _ v => emit .mov [rax, .imm v]
  | .bool _ v => if v then emit .mov [rax, imm 1] else zero
  | .str _ v => do emit .lea [rax, ← str v]
  | .ident i name => ident env i.span name
  | .binary _ op l r => binary env op ⟨l, exprWith initial env l⟩ ⟨r, exprWith initial env r⟩
  | .unary _ op e => unary op ⟨e, exprWith initial env e⟩
  | .ternary _ c a b =>
    ternary ⟨c, exprWith initial env c⟩ ⟨a, exprWith initial env a⟩ ⟨b, exprWith initial env b⟩
  | .list _ es => listLit env (valuesWith initial env es)
  | .map _ es => mapLit env (entriesWith initial env es)
  | .index i b k => index env i.span ⟨b, exprWith initial env b⟩ ⟨k, exprWith initial env k⟩
  | .member i o name => member env i.span ⟨o, exprWith initial env o⟩ name
  | .call i callee args => callByName env i.span callee (valuesWith initial env args)
  | .method i r name args =>
    methodCall env i.span ⟨r, exprWith initial env r⟩ name (valuesWith initial env args)
  | .new_ i cls args => newObject env initial i.span cls (valuesWith initial env args)
  | .super i => ident env i.span "this"
  | .step i op first t =>
    match t with
    | .ident _ name => stepVar env i.span op first name
    | .index _ b k =>
      stepElement env i.span op first ⟨b, exprWith initial env b⟩ ⟨k, exprWith initial env k⟩
    | .member ti o name =>
      stepElement env i.span op first ⟨o, exprWith initial env o⟩
        ⟨.str ⟨ti.span, none, none⟩ name, do emit .lea [rax, ← str name]⟩
    | _ => zero
  | .funcRef i name => funcRef env i.span name

/-- Expressions with their code. -/
def valuesWith (initial : Expr → Emitting Unit) (env : Env) : List Expr → List Value
  | [] => []
  | e :: es => ⟨e, exprWith initial env e⟩ :: valuesWith initial env es

/-- Entries of a map literal with their code. -/
def entriesWith (initial : Expr → Emitting Unit) (env : Env) :
    List (Expr × Expr) → List (Value × Value)
  | [] => []
  | (k, v) :: es =>
    (⟨k, exprWith initial env k⟩, ⟨v, exprWith initial env v⟩) :: entriesWith initial env es

end

/-- Generates an expression in which initial values of objects nest at most `depth` deep. -/
def exprAt : Nat → Env → Expr → Emitting Unit
  | 0, env, e => exprWith (fun _ => pure ()) env e
  | depth + 1, env, e => exprWith (exprAt depth env) env e

/-- Generates an expression. -/
def expr (env : Env) (e : Expr) : Emitting Unit := exprAt env.classes.length env e

/-- An expression with its code. -/
def value (env : Env) (e : Expr) : Value := ⟨e, expr env e⟩

/-- Generates a value that is stored where values of the given sigil belong. Input reads a string
    where strings belong. -/
def valueFor (env : Env) (target : Sigil) (e : Expr) : Emitting Unit :=
  match e with
  | .call i callee args =>
    if callee == LibFunc.input.name && !env.isVariable callee then
      libraryCall env i.span .input target.isStr (args.map (value env))
    else expr env e
  | _ => expr env e

end Lantern.Emit
