import Lantern.Check.Expr
import Lantern.Check.Globals

/-!
# Checking statements

Statements are checked in order, blocks in scopes of their own. Assigning to a name nobody declared
makes it global.
-/

namespace Lantern.Check

namespace Context

/-- Inside the body of a loop, where switches further out no longer catch a `break`. -/
def inLoop (ctx : Context) : Context := { ctx with loops := ctx.loops + 1, switches := 0 }

/-- Inside a switch. -/
def inSwitch (ctx : Context) : Context := { ctx with switches := ctx.switches + 1 }

end Context

/-- Checks the target of an assignment to an element or field. A field of a class must be static. -/
def target (ctx : Context) (base key : Expr) : Checking (Expr × Expr) := do
  if let (.ident _ name, .str i field) := (base, key) then
    unless ← isKnown name do
      if ctx.classes.has name then
        match ctx.classes.findField? name field with
        | some f =>
          if !f.isStatic then
            fail i.span ("Class '" ++ name ++ "' has no static field '" ++ field ++ "'")
        | none => fail i.span ("Class '" ++ name ++ "' has no static field '" ++ field ++ "'")
        return (base, key)
  let base ← exprOnly ctx base
  let key ← exprOnly ctx key
  return (base, key)

/-- Checks an assignment of a value of type `got` to a variable. -/
def assignment (ctx : Context) (at_ : Span) (name : String) (got : Option Sigil) : Checking Unit := do
  match ← find? name with
  | none =>
    if ctx.classes.has name then fail at_ ("Cannot assign to class '" ++ name ++ "'")
    warn .implicitDecl at_
      ("Assignment to undeclared variable '" ++ name ++ "' creates a global")
    declareGlobal ctx.classes name none at_
  | some type =>
    if name == "this" then fail at_ "Cannot assign to 'this'"
    checkAssignable at_ type got ("'" ++ name ++ "'")
    if type.isNone && got.isSome then
      unless ← atGlobalScope do setType name got

/-- Checks the declaration of a variable whose initial value has type `got`. Outside of routines
    the variable is global and known already. -/
def variableDecl (ctx : Context) (at_ : Span) (name : String) (type got : Option Sigil) :
    Checking Unit := do
  checkAssignable at_ type got ("'" ++ name ++ "'")
  let type := type.or got
  if ctx.routine.isEmpty then
    if let some none ← find? name then setType name type
  else
    if ← isLocal name then
      fail at_ ("Redefinition of '" ++ name ++ "' in the same scope")
    declare name type

/-- Checks the value of a clause against the subject of its switch. -/
def clauseValue (ctx : Context) (subject : Option Sigil) (value : Expr) : Checking Expr := do
  match value with
  | .number .. | .str .. | .bool .. => pure ()
  | _ => warn .extra value.span "Case value is not a constant"
  let (value, type) ← expr ctx value
  if let (some s, some t) := (subject, type) then
    if s.isStr != t.isStr then
      warn .type value.span ("Case value of type '" ++ t.name ++
        "' compared with switch subject of type '" ++ s.name ++ "'")
  return value

/-- Checks a returned value of type `got` against the declared result. -/
def checkReturn (ctx : Context) (at_ : Span) (got : Option Sigil) : Checking Unit :=
  checkAssignable at_ (ctx.results.get? ctx.routine) got "return value"

mutual

/-- Checks a statement. -/
def stmt (ctx : Context) : Stmt → Checking Stmt
  | .block s body => inScope do return .block s (← stmts ctx false false body)
  | .print s e => do return .print s (← exprOnly ctx e)
  | .expr s e => do return .expr s (← exprOnly ctx e)
  | .varDecl s name type init => do
    let (init, got) ← exprOption ctx init
    variableDecl ctx s name type got
    return .varDecl s name type init
  | .assign s name e => do
    let (e, got) ← expr ctx e
    assignment ctx s name got
    return .assign s name e
  | .indexAssign s base key e => do
    let (base, key) ← target ctx base key
    return .indexAssign s base key (← exprOnly ctx e)
  | .ifElse s c a b => do
    let c ← exprOnly ctx c
    let a ← stmt ctx a
    let b ← match b with
      | some b => some <$> stmt ctx b
      | none => pure none
    return .ifElse s c a b
  | .while_ s c body => do
    let c ← exprOnly ctx c
    return .while_ s c (← stmt ctx.inLoop body)
  | .doWhile s body c => do
    let body ← stmt ctx.inLoop body
    return .doWhile s body (← exprOnly ctx c)
  | .for_ s init cond post body => inScope do
    let init ← match init with
      | some i => some <$> stmt ctx i
      | none => pure none
    let (cond, _) ← exprOption ctx cond
    let post ← match post with
      | some p => some <$> stmt ctx p
      | none => pure none
    return .for_ s init cond post (← stmt ctx.inLoop body)
  | .switch s e cs => do
    let (e, subject) ← expr ctx e
    inScope do return .switch s e (← clauses ctx.inSwitch subject cs)
  | .break_ s => do
    if ctx.loops == 0 && ctx.switches == 0 then fail s "'break' outside of a loop or switch"
    return .break_ s
  | .continue_ s => do
    if ctx.loops == 0 then fail s "'continue' outside of a loop"
    return .continue_ s
  | .return_ s none => return .return_ s none
  | .return_ s (some e) => do
    if ctx.routine.isEmpty then fail s "Return with value used outside of a function"
    let (e, got) ← expr ctx e
    checkReturn ctx s got
    return .return_ s (some e)
  | .throw_ s type e => do return .throw_ s type (← exprOnly ctx e)
  | .try_ s body cs last => do
    let body ← stmt ctx body
    let cs ← catches ctx cs
    let last ← match last with
      | some l => some <$> stmt ctx l
      | none => pure none
    return .try_ s body cs last
  | .func f => fail f.span "Functions and classes can only be declared at the top level"
  | .class_ c => fail c.span "Functions and classes can only be declared at the top level"
  | .bare e => return .bare e
  | .printStmt s b => return .printStmt s b

/-- Checks statements in order, remarking on one that follows a transfer of control. Declarations
    are passed over at the `top` level. -/
def stmts (ctx : Context) (top left : Bool) : List Stmt → Checking (List Stmt)
  | [] => return []
  | s :: ss => do
    if top && s.isDecl then return s :: (← stmts ctx top left ss)
    if left then warn .unreachableCode s.span "Unreachable code"
    let s ← stmt ctx s
    return s :: (← stmts ctx top s.isTransfer ss)

/-- Checks the clauses of a switch on a subject of the given type. -/
def clauses (ctx : Context) (subject : Option Sigil) : List Clause → Checking (List Clause)
  | [] => return []
  | .case_ s v body :: cs => do
    let v ← clauseValue ctx subject v
    let body ← stmts ctx false false body
    return .case_ s v body :: (← clauses ctx subject cs)
  | .default_ s body :: cs => do
    let body ← stmts ctx false false body
    return .default_ s body :: (← clauses ctx subject cs)

/-- Checks handlers, each with its exception in a scope around it. -/
def catches (ctx : Context) : List Catch → Checking (List Catch)
  | [] => return []
  | ⟨s, type, name, body⟩ :: cs => do
    let body ← inScope do
      declare name (some (.object ""))
      stmt ctx body
    return ⟨s, type, name, body⟩ :: (← catches ctx cs)

end

end Lantern.Check
