import Lantern.Stacked.Expr

/-!
# Code for statements over stacks

Loops and switches push onto the stack of loops and take away what they pushed. A guarded statement pushes a target of
exceptions and its last block, puts another target in the place of its own before the handlers, and cuts both stacks
back before its last block is laid out for the exceptions and the ends that leave it.
-/

namespace Lantern.Stacked

open Assembly Emit

/-- Prints an entry of a map, asking at run time whether it is a string. -/
def printEntry (env : Env) (base k : Value) : Stacking Unit := do
  let intL ← newLabel "pint"
  let doneL ← newLabel "pdone"
  base.code
  let m ← spill env
  after k key
  let k ← spill env
  call "lm_map_get" [m, k]
  let v ← spill env
  call "lm_map_value_is_string_key" [m, k]
  testResult
  jump .jz intL
  printf "fmt_str" [v]
  jump .jmp doneL
  place intL
  printf "fmt_int" [v]
  place doneL
  popTemps 3

/-- Prints an expression and a line ending. -/
def print (k : Knot) (env : Env) (e : Expr) : Stacking Unit := do
  match mapEntry? e with
  | some (base, x) => printEntry env (value k env base) (value k env x)
  | none => after (value k env e) (printValue env)
  printf "newline" []

/-- `break`, or `continue` if `goOn`: the innermost loop, or for `break` also switch, after the last
    blocks inside it. -/
def leave (k : Knot) (at_ : Span) (goOn : Bool) : Stacking Unit := do
  match (← look).loops.find? fun l => !(goOn && l.isSwitch) with
  | some l =>
    replay k l.depth
    jump .jmp (if goOn then l.next else l.exit)
  | none => warn at_ "'break' or 'continue' outside of a loop is ignored"

/-- Leaves the routine with a value, which waits in its slot while last blocks run. -/
def returnStmt (k : Knot) (env : Env) (e : Option Expr) : Stacking Unit := do
  match e with
  | some e => expr k env e
  | none => zero
  if !(← look).lasts.isEmpty then
    emit .mov [env.retSlot, rax]
    replay k 0
    emit .mov [rax, env.retSlot]
  jump .jmp env.retLabel

/-- Raises an exception. Objects without a type name are raised as they are; anything else becomes
    the message of a new exception. -/
def throwStmt (k : Knot) (env : Env) (type : String) (e : Expr) : Stacking Unit := do
  expr k env e
  if !type.isEmpty || !e.sigil.isObject then
    if !e.sigil.isStr then call "lm_to_string" [rax]
    let typeName ← str (if type.isEmpty then defaultExceptionType else type)
    call "lm_exception_new" [typeName, rax]
  emit .mov [rdx, rax]
  raise k env

/-- Assigns to an element or field. -/
def indexAssign (k : Knot) (env : Env) (at_ : Span) (base x e : Expr) : Stacking Unit :=
  match staticRef? env base x with
  | some (cls, field) =>
    match env.classes.staticField? cls field with
    | some sym => do
      valueFor k env e.sigil e
      emit .mov [.data sym, rax]
    | none => warn at_ ("Class '" ++ cls ++ "' has no static field '" ++ field ++ "'")
  | none => do
    expr k env base
    let b ← spill env
    if base.sigil.isKeyed then
      after (value k env x) key
      let i ← spill env
      valueFor k env base.sigil.elemSigil e
      call "lm_map_set" [b, i, rax, strFlag e.sigil.isStr]
    else
      expr k env x
      let i ← spill env
      valueFor k env base.sigil.elemSigil e
      call "lm_array_set" [b, i, rax]
    popTemps 2

/-- Compares the subject with the values of clauses in order and jumps to the first that is equal.
    The result is the label of each clause. -/
def compareClauses (k : Knot) (env : Env) (strSubject : Bool) (subject : Operand) :
    List Clause → Stacking (List String)
  | [] => return []
  | .default_ _ _ :: cs => do
    let l ← newLabel "defcase"
    return l :: (← compareClauses k env strSubject subject cs)
  | .case_ _ v _ :: cs => do
    let l ← newLabel "case"
    expr k env v
    if strSubject && v.sigil.isStr then
      call "strcmp" [subject, rax]
      emit .test [eax, eax]
    else emit .cmp [rax, subject]
    jump .jz l
    return l :: (← compareClauses k env strSubject subject cs)

/-- Leaves the loop for a label when its condition fails. -/
def loopTest (k : Knot) (env : Env) (endL : String) : Option Expr → Stacking Unit
  | some c => do
    expr k env c
    testResult
    jump .jz endL
  | none => pure ()

/-- Jumps to a label unless something is known. -/
def jumpUnless (known : Bool) (label : String) : Stacking Unit :=
  if !known then jump .jmp label else pure ()

mutual

/-- Generates a statement. -/
def stmt (k : Knot) (env : Env) (s : Stmt) : Stacking Unit := do
  note (some (.stmt s))
  match s with
  | .block _ body => stmts k env body
  | .print _ e => print k env e
  | .printStmt _ b =>
    unsupported b.span b.kind
    printf "fmt_int" [rax]
    printf "newline" []
  | .expr _ e => expr k env e
  | .bare e => warn e.span ("Unsupported statement " ++ e.kind.name ++ " is ignored")
  | .assign s name e =>
    valueFor k env (env.facts.var env.routine name) e
    store env s name
  | .varDecl s name type init =>
    match init with
    | some e => valueFor k env (env.facts.var env.routine name) e
    | none => defaultValue type
    store env s name
  | .indexAssign s b x e => indexAssign k env s b x e
  | .ifElse _ c a b =>
    let elseL ← newLabel "else"
    let endL ← newLabel "endif"
    expr k env c
    testResult
    jump .jz elseL
    stmt k env a
    jump .jmp endL
    place elseL
    match b with
    | some b => stmt k env b
    | none => pure ()
    place endL
  | .while_ _ c body =>
    let loop ← newLabel "loop"
    let next ← newLabel "cont"
    let endL ← newLabel "endloop"
    place loop
    place next
    expr k env c
    testResult
    jump .jz endL
    change (·.pushLoop endL next false)
    stmt k env body
    change (·.popLoop)
    jump .jmp loop
    place endL
  | .doWhile _ body c =>
    let loop ← newLabel "doloop"
    let next ← newLabel "docont"
    let endL ← newLabel "doend"
    place loop
    change (·.pushLoop endL next false)
    stmt k env body
    change (·.popLoop)
    place next
    expr k env c
    testResult
    jump .jnz loop
    place endL
  | .for_ _ init cond post body =>
    let loop ← newLabel "forloop"
    let next ← newLabel "forcont"
    let endL ← newLabel "forend"
    match init with
    | some i => stmt k env i
    | none => pure ()
    place loop
    loopTest k env endL cond
    change (·.pushLoop endL next false)
    stmt k env body
    change (·.popLoop)
    place next
    match post with
    | some p => stmt k env p
    | none => pure ()
    jump .jmp loop
    place endL
  | .switch _ e cs =>
    let endL ← newLabel "switchend"
    expr k env e
    let subject ← spill env
    let labels ← compareClauses k env e.sigil.isStr subject cs
    jump .jmp ((defaultLabel? cs labels).getD endL)
    change (·.pushLoop endL "" true)
    clauseBodies k env cs labels
    change (·.popLoop)
    place endL
    popTemps 1
  | .break_ s => leave k s false
  | .continue_ s => leave k s true
  | .return_ _ e => returnStmt k env e
  | .throw_ _ type e => throwStmt k env type e
  | .try_ _ body cs last =>
    let catchL ← newLabel "catch"
    let catchExit ← newLabel "catchexit"
    let rethrow ← newLabel "rethrow"
    let lastL ← newLabel "finally"
    let endL ← newLabel "endtry"
    let exc ← pushTemp env
    let outside ← look
    let outer := outside.unwind.length
    let depth := outside.lasts.length + last.toList.length
    change (·.pushTarget catchL depth)
    change (·.pushLast last outer)
    stmt k env body
    jump .jmp lastL
    change (·.setTarget catchExit depth)
    place catchL
    emit .mov [exc, rdx]
    let caughtAll ← handlers k env exc lastL cs
    jumpUnless caughtAll rethrow
    place catchExit
    emit .mov [exc, rdx]
    change (·.cutTargets outer)
    change (·.popLast last)
    place rethrow
    match last with
    | some l => stmt k env l
    | none => pure ()
    emit .mov [rdx, exc]
    raise k env
    place lastL
    match last with
    | some l => stmt k env l
    | none => pure ()
    place endL
    popTemps 1
  | .func f => warn f.span "Nested declaration is ignored"
  | .class_ c => warn c.span "Nested declaration is ignored"

/-- Generates statements in order. -/
def stmts (k : Knot) (env : Env) : List Stmt → Stacking Unit
  | [] => pure ()
  | s :: ss => do
    stmt k env s
    stmts k env ss

/-- Generates the bodies of clauses at their labels, one falling through to the next. -/
def clauseBodies (k : Knot) (env : Env) : List Clause → List String → Stacking Unit
  | .case_ _ _ body :: cs, l :: ls => do
    place l
    stmts k env body
    clauseBodies k env cs ls
  | .default_ _ body :: cs, l :: ls => do
    place l
    stmts k env body
    clauseBodies k env cs ls
  | _, _ => pure ()

/-- Generates handlers up to the first that handles everything; whether there was one. -/
def handlers (k : Knot) (env : Env) (exc : Operand) (lastL : String) : List Catch → Stacking Bool
  | [] => return false
  | ⟨s, type, name, body⟩ :: cs => do
    let next ← newLabel "nextcatch"
    testCatch exc type next
    emit .mov [rax, exc]
    store env s name
    stmt k env body
    jump .jmp lastL
    place next
    if type.isEmpty then return true
    handlers k env exc lastL cs

end

/-- Expressions and statements as what generation goes on to, at most so many jumps one inside another. -/
def knot (env : Env) : Nat → Knot
  | 0 => ⟨fun _ => throw .deep, fun _ => throw .deep⟩
  | depth + 1 => ⟨expr (knot env depth) env, stmt (knot env depth) env⟩

end Lantern.Stacked
