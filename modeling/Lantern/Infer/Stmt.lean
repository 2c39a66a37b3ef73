import Lantern.Infer.Expr

/-!
# Sigils in statements

Statements are walked in order: declarations and assignments settle the sigils of variables for what
comes behind them.
-/

namespace Lantern.Infer

/-- A step of inference. -/
abbrev Inferring := StateM Facts

/-- Records the sigils of an expression under the facts known so far. -/
def value (ctx : Context) (e : Expr) : Inferring Expr := do return expr ctx (← get) e

/-- Records the sigils of an expression that may be missing. -/
def valueOption (ctx : Context) : Option Expr → Inferring (Option Expr)
  | none => return none
  | some e => do return some (← value ctx e)

mutual

/-- Records the sigils of a statement. -/
def stmt (ctx : Context) : Stmt → Inferring Stmt
  | .block s body => do return .block s (← stmts ctx body)
  | .print s e => do return .print s (← value ctx e)
  | .expr s e => do return .expr s (← value ctx e)
  | .assign s name e => do
    let e ← value ctx e
    modify fun fs => fs.assign ctx name e.sigil
    return .assign s name e
  | .indexAssign s b k e => do
    return .indexAssign s (← value ctx b) (← value ctx k) (← value ctx e)
  | .varDecl s name type init => do
    let init ← valueOption ctx init
    modify fun fs => fs.declare ctx name (type.or (init.map Expr.sigil))
    return .varDecl s name type init
  | .ifElse s c a b => do
    let c ← value ctx c
    let a ← stmt ctx a
    let b ← match b with
      | some b => some <$> stmt ctx b
      | none => pure none
    return .ifElse s c a b
  | .while_ s c body => do
    let c ← value ctx c
    return .while_ s c (← stmt ctx body)
  | .doWhile s body c => do
    let body ← stmt ctx body
    return .doWhile s body (← value ctx c)
  | .for_ s init cond post body => do
    let init ← match init with
      | some i => some <$> stmt ctx i
      | none => pure none
    let cond ← valueOption ctx cond
    let post ← match post with
      | some p => some <$> stmt ctx p
      | none => pure none
    return .for_ s init cond post (← stmt ctx body)
  | .switch s e cs => do
    let e ← value ctx e
    return .switch s e (← clauses ctx cs)
  | .return_ s e => do return .return_ s (← valueOption ctx e)
  | .throw_ s type e => do return .throw_ s type (← value ctx e)
  | .try_ s body cs last => do
    let body ← stmt ctx body
    let cs ← catches ctx cs
    let last ← match last with
      | some l => some <$> stmt ctx l
      | none => pure none
    return .try_ s body cs last
  | .break_ s => return .break_ s
  | .continue_ s => return .continue_ s
  | .func f => return .func f
  | .class_ c => return .class_ c
  | .bare e => return .bare e
  | .printStmt s b => return .printStmt s b

/-- Records the sigils of statements. -/
def stmts (ctx : Context) : List Stmt → Inferring (List Stmt)
  | [] => return []
  | s :: ss => do
    let s ← stmt ctx s
    return s :: (← stmts ctx ss)

/-- Records the sigils of the clauses of a switch. -/
def clauses (ctx : Context) : List Clause → Inferring (List Clause)
  | [] => return []
  | .case_ s v body :: cs => do
    let v ← value ctx v
    let body ← stmts ctx body
    return .case_ s v body :: (← clauses ctx cs)
  | .default_ s body :: cs => do
    let body ← stmts ctx body
    return .default_ s body :: (← clauses ctx cs)

/-- Records the sigils of handlers; the exception is an object. -/
def catches (ctx : Context) : List Catch → Inferring (List Catch)
  | [] => return []
  | ⟨s, type, name, body⟩ :: cs => do
    modify fun fs => fs.declare ctx name (some (.object ""))
    let body ← stmt ctx body
    return ⟨s, type, name, body⟩ :: (← catches ctx cs)

end

end Lantern.Infer
