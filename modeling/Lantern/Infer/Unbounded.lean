import Lantern.Infer

/-!
# Searches that may not end

Inference looks for static fields and methods along the bases of a class and keeps no record of the classes it has
met: where bases come round and no class has what it looks for, it goes on forever. Here inference is written with
that search, and a search that is not over after a given number of classes is given up: inference ends if some number will
do, and where none will it goes on forever. Where every chain of bases ends it is `Program.infer`.
-/

namespace Lantern

/-- What the first class from a name along the bases has, if the search is over after so many classes. It ends at the
    empty name and at names of no class, and nowhere else without a find. -/
def ClassTable.search {α : Type} (t : ClassTable) (look : ClassDecl → Option α) :
    Nat → String → Option (Option α)
  | 0, _ => none
  | bound + 1, name =>
    if name = "" then some none
    else
      match t.get? name with
      | none => some none
      | some c =>
        match look c with
        | some a => some (some a)
        | none => search t look bound c.base

namespace Infer

-- how many classes a search may meet
variable (bound : Nat)

/-- The sigil of a member no type was resolved for. -/
def memberSigil? (ctx : Context) (fs : Facts) (object : Expr) (name : String) : Option Sigil :=
  match object.sigil with
  | .object cls =>
    if isFreeName ctx fs object then do return (← ctx.classes.search (fs.ownStatic? name) bound cls).getD .str
    else some .str
  | _ => some .str

/-- The sigil of a method call no type was resolved for. -/
def methodSigil? (ctx : Context) (fs : Facts) (receiver : Expr) (name : String) : Option Sigil := do
  let cls := receiver.sigil.className
  let static_ := isFreeName ctx fs receiver && ctx.classes.has cls
  return (← ctx.classes.search (ownResult? ctx name static_) bound cls).join.getD .int

mutual

/-- Records the sigils of an expression and everything below it. -/
def expr? (ctx : Context) (fs : Facts) : Expr → Option Expr
  | .number i v => return .number (found i .int) v
  | .bool i v => return .bool (found i .bool) v
  | .str i v => return .str (found i .str) v
  | .ident i name => return .ident (found i (identSigil ctx fs name)) name
  | .binary i op l r => do
    let l ← expr? ctx fs l
    let r ← expr? ctx fs r
    return .binary (found i (binarySigil op l.sigil r.sigil)) op l r
  | .unary i op e => do
    return .unary (found i (if op == .not then .bool else .int)) op (← expr? ctx fs e)
  | .ternary i c a b => do
    let c ← expr? ctx fs c
    let a ← expr? ctx fs a
    let b ← expr? ctx fs b
    return .ternary (found i (if a.sigil == b.sigil then a.sigil else .int)) c a b
  | .list i es => do
    let es ← exprs? ctx fs es
    return .list (found i (.list (literalElem (es.map Expr.sigil)))) es
  | .map i es => do
    let es ← entries? ctx fs es
    return .map (found i (.map (literalElem (es.map fun e => e.2.sigil)))) es
  | .index i b k => do
    let b ← expr? ctx fs b
    return .index (found i (indexSigil b.sigil)) b (← expr? ctx fs k)
  | .member i o name => do
    let o ← expr? ctx fs o
    let s ← i.resolved.elim (memberSigil? bound ctx fs o name) some
    return .member (found i s) o name
  | .call i callee args => do
    let args ← exprs? ctx fs args
    return .call (found i (callSigil ctx fs callee (args.map Expr.sigil))) callee args
  | .method i r name args => do
    let r ← expr? ctx fs r
    let args ← exprs? ctx fs args
    let s ← i.resolved.elim (methodSigil? bound ctx fs r name) some
    return .method (found i s) r name args
  | .new_ i cls args => do return .new_ (found i (.object cls)) cls (← exprs? ctx fs args)
  | .super i => return .super (found i (.object (baseOf ctx)))
  | .step i op first t => do return .step (found i .int) op first (← expr? ctx fs t)
  | .funcRef i name => return .funcRef (found i .int) name

/-- Records the sigils of expressions. -/
def exprs? (ctx : Context) (fs : Facts) : List Expr → Option (List Expr)
  | [] => return []
  | e :: es => do
    let e ← expr? ctx fs e
    return e :: (← exprs? ctx fs es)

/-- Records the sigils of the entries of a map literal. -/
def entries? (ctx : Context) (fs : Facts) : List (Expr × Expr) → Option (List (Expr × Expr))
  | [] => return []
  | (k, v) :: es => do
    let k ← expr? ctx fs k
    let v ← expr? ctx fs v
    return (k, v) :: (← entries? ctx fs es)

end

/-- A step of inference that may not end. -/
abbrev Searching := StateT Facts Option

/-- Records the sigils of an expression under the facts known so far. -/
def value? (ctx : Context) (e : Expr) : Searching Expr := do expr? bound ctx (← get) e

/-- Records the sigils of an expression that may be missing. -/
def valueOption? (ctx : Context) : Option Expr → Searching (Option Expr)
  | none => return none
  | some e => do return some (← value? bound ctx e)

mutual

/-- Records the sigils of a statement. -/
def stmt? (ctx : Context) : Stmt → Searching Stmt
  | .block s body => do return .block s (← stmts? ctx body)
  | .print s e => do return .print s (← value? bound ctx e)
  | .expr s e => do return .expr s (← value? bound ctx e)
  | .assign s name e => do
    let e ← value? bound ctx e
    modify fun fs => fs.assign ctx name e.sigil
    return .assign s name e
  | .indexAssign s b k e => do
    return .indexAssign s (← value? bound ctx b) (← value? bound ctx k) (← value? bound ctx e)
  | .varDecl s name type init => do
    let init ← valueOption? bound ctx init
    modify fun fs => fs.declare ctx name (type.or (init.map Expr.sigil))
    return .varDecl s name type init
  | .ifElse s c a b => do
    let c ← value? bound ctx c
    let a ← stmt? ctx a
    let b ← match b with
      | some b => some <$> stmt? ctx b
      | none => pure none
    return .ifElse s c a b
  | .while_ s c body => do
    let c ← value? bound ctx c
    return .while_ s c (← stmt? ctx body)
  | .doWhile s body c => do
    let body ← stmt? ctx body
    return .doWhile s body (← value? bound ctx c)
  | .for_ s init cond post body => do
    let init ← match init with
      | some i => some <$> stmt? ctx i
      | none => pure none
    let cond ← valueOption? bound ctx cond
    let post ← match post with
      | some p => some <$> stmt? ctx p
      | none => pure none
    return .for_ s init cond post (← stmt? ctx body)
  | .switch s e cs => do
    let e ← value? bound ctx e
    return .switch s e (← clauses? ctx cs)
  | .return_ s e => do return .return_ s (← valueOption? bound ctx e)
  | .throw_ s type e => do return .throw_ s type (← value? bound ctx e)
  | .try_ s body cs last => do
    let body ← stmt? ctx body
    let cs ← catches? ctx cs
    let last ← match last with
      | some l => some <$> stmt? ctx l
      | none => pure none
    return .try_ s body cs last
  | .break_ s => return .break_ s
  | .continue_ s => return .continue_ s
  | .func f => return .func f
  | .class_ c => return .class_ c
  | .bare e => return .bare e
  | .printStmt s b => return .printStmt s b

/-- Records the sigils of statements. -/
def stmts? (ctx : Context) : List Stmt → Searching (List Stmt)
  | [] => return []
  | s :: ss => do
    let s ← stmt? ctx s
    return s :: (← stmts? ctx ss)

/-- Records the sigils of the clauses of a switch. -/
def clauses? (ctx : Context) : List Clause → Searching (List Clause)
  | [] => return []
  | .case_ s v body :: cs => do
    let v ← value? bound ctx v
    let body ← stmts? ctx body
    return .case_ s v body :: (← clauses? ctx cs)
  | .default_ s body :: cs => do
    let body ← stmts? ctx body
    return .default_ s body :: (← clauses? ctx cs)

/-- Records the sigils of handlers; the exception is an object. -/
def catches? (ctx : Context) : List Catch → Searching (List Catch)
  | [] => return []
  | ⟨s, type, name, body⟩ :: cs => do
    modify fun fs => fs.declare ctx name (some (.object ""))
    let body ← stmt? ctx body
    return ⟨s, type, name, body⟩ :: (← catches? ctx cs)

end

/-- Makes sure that a routine has a frame. -/
def enter? (routine : String) : Searching Unit :=
  modify fun fs => if fs.frames.has routine then fs else fs.setFrame routine Frame.empty

/-- Infers the initial values of fields and settles the static ones. -/
def fields? (ctx : Context) : List Field → Searching (List Field)
  | [] => return []
  | f :: rest => do
    let init ← valueOption? bound ctx f.init
    if f.isStatic then
      let s := (f.type.or (init.map Expr.sigil)).getD .int
      modify fun fs =>
        { fs with statics := fs.statics.put (SymbolName.staticField ctx.cls f.name) s }
    return { f with init := init } :: (← fields? ctx rest)

/-- Infers the body of a routine; `hasThis` when it has a receiver. -/
def routine? (ctx : Context) (hasThis : Bool) (params : List Param) (body : Stmt) : Searching Stmt := do
  enter? ctx.routine
  let hinted := (ctx.hints.params.get? ctx.routine).getD []
  let receiver := if hasThis then [("this", Sigil.object ctx.cls)] else []
  let own := receiver ++ paramSigils (if hasThis then hinted.drop 1 else hinted) params
  modify fun fs =>
    let f := fs.frame ctx.routine
    fs.setFrame ctx.routine
      { f with params := own.foldl (fun ps (name, s) => Assoc.put ps name s) f.params }
  stmt? bound ctx body

/-- Infers methods. -/
def methods? (ctx : Context) : List Method → Searching (List Method)
  | [] => return []
  | m :: ms => do
    let sym := if m.isStatic then SymbolName.staticMethod ctx.cls m.name
      else SymbolName.method ctx.cls m.name
    let body ← routine? bound { ctx with routine := sym } (!m.isStatic) m.params m.body
    return { m with body := body } :: (← methods? ctx ms)

/-- Infers constructors. -/
def ctors? (ctx : Context) : List Ctor → Searching (List Ctor)
  | [] => return []
  | k :: ks => do
    let sym := SymbolName.ctor ctx.cls k.params.length
    let body ← routine? bound { ctx with routine := sym } true k.params k.body
    return { k with body := body } :: (← ctors? ctx ks)

/-- Infers the initial values of the fields of all classes. -/
def classFields? (ctx : Context) : List Stmt → Searching (List Stmt)
  | [] => return []
  | .class_ c :: rest => do
    let fs ← fields? bound { ctx with cls := c.name } c.fields
    return .class_ { c with fields := fs } :: (← classFields? ctx rest)
  | s :: rest => return s :: (← classFields? ctx rest)

/-- Infers the top-level statements. -/
def topLevel? (ctx : Context) : List Stmt → Searching (List Stmt)
  | [] => return []
  | s :: rest => do
    let s ← if s.isDecl then pure s else stmt? bound ctx s
    return s :: (← topLevel? ctx rest)

/-- Infers the functions. -/
def funcs? (ctx : Context) : List Stmt → Searching (List Stmt)
  | [] => return []
  | .func f :: rest => do
    let body ← routine? bound { ctx with routine := SymbolName.func f.name } false f.params f.body
    return .func { f with body := body } :: (← funcs? ctx rest)
  | s :: rest => return s :: (← funcs? ctx rest)

/-- Infers the methods and constructors of all classes. -/
def classRoutines? (ctx : Context) : List Stmt → Searching (List Stmt)
  | [] => return []
  | .class_ c :: rest => do
    let ctx' := { ctx with cls := c.name }
    let ms ← methods? bound ctx' c.methods
    let ks ← ctors? bound ctx' c.ctors
    return .class_ { c with methods := ms, ctors := ks } :: (← classRoutines? ctx rest)
  | s :: rest => return s :: (← classRoutines? ctx rest)

/-- Infers all items of a program. -/
def items? (ctx : Context) (xs : List Stmt) : Searching (List Stmt) := do
  enter? SymbolName.mainRoutine
  let xs ← classFields? bound ctx xs
  let xs ← topLevel? bound ctx xs
  let xs ← funcs? bound ctx xs
  classRoutines? bound ctx xs

end Infer

/-- The representation of every expression of a program under the given hints, if no search meets more than so many
    classes. -/
def Program.infer? (p : Program) (bound : Nat) (hints : Hints) : Option Inference := do
  let classes := ClassTable.ofItems p.items
  let ctx : Infer.Context := ⟨hints, classes, SymbolName.mainRoutine, ""⟩
  let (xs, facts) ← (Infer.items? bound ctx p.items).run ⟨[], hints.globalTypes, []⟩
  return ⟨{ p with items := xs }, facts, ClassTable.ofItems xs⟩

end Lantern
