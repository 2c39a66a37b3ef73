import Lantern.Emit.Print

/-!
# Code for statements

Loops and switches share one stack of frames that `break` and `continue` search. A guarded statement
is laid out as

    body; jump to last
    catch: save the exception; compare types; handlers, each jumping to last
    catchexit: save the exception
    rethrow: last block; raise the exception to the outer target
    last: last block

and its last block is generated once more at every return, `break` and `continue` that leaves it.
-/

namespace Lantern.Emit

open Assembly

/-- `break`, or `continue` if `goOn`: the innermost loop, or for `break` also switch, after the last
    blocks inside it. -/
def leave (env : Env) (at_ : Span) (goOn : Bool) : Emitting Unit :=
  match env.loops.find? fun l => !(goOn && l.isSwitch) with
  | some l => do
    replay env l.depth
    jump .jmp (if goOn then l.next else l.exit)
  | none => warn at_ "'break' or 'continue' outside of a loop is ignored"

/-- Leaves the routine with a value, which waits in its slot while last blocks run. -/
def returnStmt (env : Env) (e : Option Expr) : Emitting Unit := do
  match e with
  | some e => expr env e
  | none => zero
  if !env.lasts.isEmpty then
    emit .mov [env.retSlot, rax]
    replay env 0
    emit .mov [rax, env.retSlot]
  jump .jmp env.retLabel

/-- Raises an exception. Objects without a type name are raised as they are; anything else becomes
    the message of a new exception. -/
def throwStmt (env : Env) (type : String) (e : Expr) : Emitting Unit := do
  expr env e
  if !type.isEmpty || !e.sigil.isObject then
    if !e.sigil.isStr then call "lm_to_string" [rax]
    let typeName ← str (if type.isEmpty then defaultExceptionType else type)
    call "lm_exception_new" [typeName, rax]
  emit .mov [rdx, rax]
  raise env

/-- Assigns to an element or field. -/
def indexAssign (env : Env) (at_ : Span) (base k e : Expr) : Emitting Unit :=
  match staticRef? env base k with
  | some (cls, field) =>
    match env.classes.staticField? cls field with
    | some sym => do
      valueFor env e.sigil e
      emit .mov [.data sym, rax]
    | none => warn at_ ("Class '" ++ cls ++ "' has no static field '" ++ field ++ "'")
  | none => do
    expr env base
    let b ← spill env
    if base.sigil.isKeyed then
      key (value env k)
      let k ← spill env
      valueFor env base.sigil.elemSigil e
      call "lm_map_set" [b, k, rax, strFlag e.sigil.isStr]
    else
      expr env k
      let k ← spill env
      valueFor env base.sigil.elemSigil e
      call "lm_array_set" [b, k, rax]
    popTemps 2

/-- Compares the subject with the values of clauses in order and jumps to the first that is equal.
    The result is the label of each clause. -/
def compareClauses (env : Env) (strSubject : Bool) (subject : Operand) :
    List Clause → Emitting (List String)
  | [] => return []
  | .default_ _ _ :: cs => do
    let l ← newLabel "defcase"
    return l :: (← compareClauses env strSubject subject cs)
  | .case_ _ v _ :: cs => do
    let l ← newLabel "case"
    expr env v
    if strSubject && v.sigil.isStr then
      call "strcmp" [subject, rax]
      emit .test [eax, eax]
    else emit .cmp [rax, subject]
    jump .jz l
    return l :: (← compareClauses env strSubject subject cs)

/-- The label of the default clause, if there is one. -/
def defaultLabel? : List Clause → List String → Option String
  | .default_ _ _ :: cs, l :: ls => (defaultLabel? cs ls).or (some l)
  | .case_ _ _ _ :: cs, _ :: ls => defaultLabel? cs ls
  | _, _ => none

/-- Tests a handler's type against the exception and goes to the next handler if it differs. -/
def testCatch (exc : Operand) (type next : String) : Emitting Unit := do
  unless type.isEmpty do
    call "lm_exception_type" [exc]
    call "strcmp" [rax, ← str type]
    emit .test [eax, eax]
    jump .jnz next

namespace Env

/-- Inside a loop or switch. -/
def inFrame (env : Env) (exit next : String) (isSwitch : Bool) : Env :=
  { env with loops := ⟨exit, next, isSwitch, env.lasts.length⟩ :: env.loops }

/-- Inside a guarded statement, whose exceptions go to a label. -/
def guarded (env : Env) (label : String) (last : Option LastBlock) : Env :=
  let lasts := last.toList ++ env.lasts
  { env with lasts := lasts, unwind := ⟨label, lasts.length⟩ :: env.unwind }

end Env

mutual

/-- Generates a statement. -/
def stmt (env : Env) : Stmt → Emitting Unit
  | .block _ body => stmts env body
  | .print _ e => print env e
  | .printStmt _ b => do
    unsupported b.span b.kind
    printf "fmt_int" [rax]
    printf "newline" []
  | .expr _ e => expr env e
  | .bare e => warn e.span ("Unsupported statement " ++ e.kind.name ++ " is ignored")
  | .assign s name e => do
    valueFor env (env.facts.var env.routine name) e
    store env s name
  | .varDecl s name type init => do
    match init with
    | some e => valueFor env (env.facts.var env.routine name) e
    | none => defaultValue type
    store env s name
  | .indexAssign s b k e => indexAssign env s b k e
  | .ifElse _ c a b => do
    let elseL ← newLabel "else"
    let endL ← newLabel "endif"
    expr env c
    testResult
    jump .jz elseL
    stmt env a
    jump .jmp endL
    place elseL
    match b with
    | some b => stmt env b
    | none => pure ()
    place endL
  | .while_ _ c body => do
    let loop ← newLabel "loop"
    let next ← newLabel "cont"
    let endL ← newLabel "endloop"
    place loop
    place next
    expr env c
    testResult
    jump .jz endL
    stmt (env.inFrame endL next false) body
    jump .jmp loop
    place endL
  | .doWhile _ body c => do
    let loop ← newLabel "doloop"
    let next ← newLabel "docont"
    let endL ← newLabel "doend"
    place loop
    stmt (env.inFrame endL next false) body
    place next
    expr env c
    testResult
    jump .jnz loop
    place endL
  | .for_ _ init cond post body => do
    let loop ← newLabel "forloop"
    let next ← newLabel "forcont"
    let endL ← newLabel "forend"
    match init with
    | some i => stmt env i
    | none => pure ()
    place loop
    match cond with
    | some c =>
      expr env c
      testResult
      jump .jz endL
    | none => pure ()
    stmt (env.inFrame endL next false) body
    place next
    match post with
    | some p => stmt env p
    | none => pure ()
    jump .jmp loop
    place endL
  | .switch _ e cs => do
    let endL ← newLabel "switchend"
    expr env e
    let subject ← spill env
    let labels ← compareClauses env e.sigil.isStr subject cs
    jump .jmp ((defaultLabel? cs labels).getD endL)
    clauseBodies (env.inFrame endL "" true) cs labels
    place endL
    popTemps 1
  | .break_ s => leave env s false
  | .continue_ s => leave env s true
  | .return_ _ e => returnStmt env e
  | .throw_ _ type e => throwStmt env type e
  | .try_ _ body cs last => do
    let catchL ← newLabel "catch"
    let catchExit ← newLabel "catchexit"
    let rethrow ← newLabel "rethrow"
    let lastL ← newLabel "finally"
    let endL ← newLabel "endtry"
    let exc ← pushTemp env
    let block : Option LastBlock := match last with
      | some l => some ⟨fun loops => stmt { env with loops := loops } l⟩
      | none => none
    stmt (env.guarded catchL block) body
    jump .jmp lastL
    place catchL
    emit .mov [exc, rdx]
    let caughtAll ← handlers (env.guarded catchExit block) exc lastL cs
    if !caughtAll then jump .jmp rethrow
    place catchExit
    emit .mov [exc, rdx]
    place rethrow
    match last with
    | some l => stmt env l
    | none => pure ()
    emit .mov [rdx, exc]
    raise env
    place lastL
    match last with
    | some l => stmt env l
    | none => pure ()
    place endL
    popTemps 1
  | .func f => warn f.span "Nested declaration is ignored"
  | .class_ c => warn c.span "Nested declaration is ignored"

/-- Generates statements in order. -/
def stmts (env : Env) : List Stmt → Emitting Unit
  | [] => pure ()
  | s :: ss => do
    stmt env s
    stmts env ss

/-- Generates the bodies of clauses at their labels, one falling through to the next. -/
def clauseBodies (env : Env) : List Clause → List String → Emitting Unit
  | .case_ _ _ body :: cs, l :: ls => do
    place l
    stmts env body
    clauseBodies env cs ls
  | .default_ _ body :: cs, l :: ls => do
    place l
    stmts env body
    clauseBodies env cs ls
  | _, _ => pure ()

/-- Generates handlers up to the first that handles everything; whether there was one. -/
def handlers (env : Env) (exc : Operand) (lastL : String) : List Catch → Emitting Bool
  | [] => return false
  | ⟨s, type, name, body⟩ :: cs => do
    let next ← newLabel "nextcatch"
    testCatch exc type next
    emit .mov [rax, exc]
    store env s name
    stmt env body
    jump .jmp lastL
    place next
    if type.isEmpty then return true
    handlers env exc lastL cs

end

end Lantern.Emit
