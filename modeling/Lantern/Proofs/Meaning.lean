import Lantern.Proofs.Machine

/-!
# The meaning of routines

What expressions on words and structured statements do, said without instructions: expressions are
evaluated from left to right, loops are rounds, and leaving a statement early is an exit that the
statements around it pass on or catch. Loops and calls draw on fuel, so that everything here ends; a
computation that runs out of it is cut. Strings are known by their addresses, and what only the
run-time library can do is asked of it.
-/

namespace Lantern.Meaning

/-- How a computation ends that does not come to its own end. -/
inductive Exit where
  | break_
  | continue_
  | return_ (value : Word)
  /-- An exception is on its way. -/
  | thrown (exception : Word)
  /-- A division has no result. -/
  | trap
  /-- The fuel is used up. -/
  | cut
  /-- Something is met that has no meaning here. -/
  | stray
  deriving DecidableEq

/-- Whether last blocks run before the exit goes on. -/
def Exit.isTransfer : Exit → Bool
  | .break_ | .continue_ | .return_ _ | .thrown _ => true
  | .trap | .cut | .stray => false

/-- What a computation reads and changes. -/
structure State (W : Type) where
  /-- Variables of the routine. -/
  locals : String → Word
  /-- Variables of the program. -/
  globals : String → Word
  /-- The state of the run-time library. -/
  world : W
  /-- What has been observed. -/
  trace : List Event

/-- A computation. -/
abbrev Act (W : Type) := ExceptT Exit (StateM (State W))

/-- What a computation ends with. -/
def Act.from {W α : Type} (x : Act W α) (st : State W) : Except Exit α × State W := x.run.run st

/-- What the computations of a routine refer to. -/
structure Scope (W : Type) where
  /-- The run-time library. -/
  host : Host W
  /-- The address of a string. -/
  literal : String → Word
  /-- The variables of the routine; all others are the program's. -/
  locals : List String
  /-- The classes of the program. -/
  classes : ClassTable
  /-- Calls a routine of the program. -/
  invoke : String → List Word → Act W Word
  /-- How often a loop may go round. -/
  fuel : Nat

section Steps

variable {W : Type} (sc : Scope W)

/-- Records an event. -/
def note (e : Event) : Act W Unit := modify fun st => { st with trace := st.trace ++ [e] }

/-- Asks the run-time library for a word. -/
def ask (name : String) (args : List Word) : Act W Word := do
  let st ← get
  let a := sc.host.answer st.world name args
  set { st with
    world := a.world
    trace := if name = "printf" then st.trace ++ [Event.print args] else st.trace }
  return a.rax

/-- The value of a variable. -/
def load (name : String) : Act W Word := do
  let st ← get
  return if name ∈ sc.locals then st.locals name else st.globals name

/-- The state after a variable is given a value. -/
def stored (name : String) (v : Word) (st : State W) : State W :=
  if name ∈ sc.locals then { st with locals := Function.update st.locals name v }
  else { st with globals := Function.update st.globals name v }

/-- Gives a variable a value. -/
def store (name : String) (v : Word) : Act W Unit := modify (stored sc name v)

end Steps

/-! ## Expressions -/

/-- A truth value as a word. -/
def truth (b : Bool) : Word := if b then 1 else 0

/-- A power by repeated multiplication. -/
def power (base : Word) : Nat → Word
  | 0 => 1
  | n + 1 => power base n * base

/-- An operator on words; there is no result of a division by zero, and none that is no word. -/
def operate (op : BinaryOp) (a b : Word) : Option Word :=
  match op with
  | .add => some (a + b)
  | .sub => some (a - b)
  | .mul => some (a * b)
  | .div => if b = 0 ∨ a = Int64.minValue ∧ b = -1 then none else some (a / b)
  | .rem => if b = 0 ∨ a = Int64.minValue ∧ b = -1 then none else some (a % b)
  | .pow => some (power a b.toInt.toNat)
  | .eq => some (truth (a == b))
  | .ne => some (truth (a != b))
  | .lt => some (truth (decide (a < b)))
  | .gt => some (truth (decide (b < a)))
  | .le => some (truth (decide (a ≤ b)))
  | .ge => some (truth (decide (b ≤ a)))
  | .and => some (truth (a != 0 && b != 0))
  | .or => some (truth (a != 0 || b != 0))

/-- The value of a word after a step. -/
def stepped : StepOp → Word → Word
  | .inc, v => v + 1
  | .dec, v => v - 1

section Expressions

variable {W : Type} (sc : Scope W)

/-- Whether two strings are equal. -/
def sameString (a b : Word) : Act W Bool := do
  let order ← ask sc "strcmp" [a, b]
  return lowHalf order == 0

/-- An operator on two values, which are both strings if `strs`. -/
def combine (op : BinaryOp) (strs : Bool) (a b : Word) : Act W Word :=
  match strs, op with
  | true, .add => ask sc "lm_str_concat" [a, b]
  | true, .eq => do return truth (← sameString sc a b)
  | true, .ne => do return truth (!(← sameString sc a b))
  | _, _ =>
    match operate op a b with
    | some v => return v
    | none => throw .trap

mutual

/-- The value of an expression. -/
def eval : Expr → Act W Word
  | .number _ v => return v
  | .bool _ v => return truth v
  | .str _ v => return sc.literal v
  | .ident _ name => load sc name
  | .binary _ op l r => do
    let a ← eval l
    match op with
    | .and => if a = 0 then return 0 else return truth ((← eval r) != 0)
    | .or => if a = 0 then return truth ((← eval r) != 0) else return 1
    | _ => combine sc op (l.sigil.isStr && r.sigil.isStr) a (← eval r)
  | .unary _ op e => do
    let v ← eval e
    match op with
    | .neg => return -v
    | .not => return truth (v == 0)
  | .ternary _ c a b => do
    if (← eval c) = 0 then eval b else eval a
  | .step _ op first (.ident _ name) => do
    let v ← load sc name
    store sc name (stepped op v)
    return if first then stepped op v else v
  | .call _ callee args => do sc.invoke (SymbolName.func callee) (← evals args)
  | .method _ (.ident _ cls) name args =>
    match sc.classes.staticMethod? cls name with
    | some routine => do sc.invoke routine (← evals args)
    | none => throw .stray
  | _ => throw .stray

/-- The values of expressions. -/
def evals : List Expr → Act W (List Word)
  | [] => return []
  | e :: es => do
    let v ← eval e
    return v :: (← evals es)

end

end Expressions

/-! ## Statements -/

section Control

variable {W : Type}

/-- A round of a loop; whether the loop may go on. -/
def round (body : Act W Unit) : Act W Bool :=
  tryCatch (do body; return true) fun
    | .break_ => return false
    | .continue_ => return true
    | e => throw e

/-- Goes round as long as a round allows it. -/
def rounds : Nat → Act W Bool → Act W Unit
  | 0, _ => throw .cut
  | n + 1, once => do if ← once then rounds n once

/-- Something that may be left by `break`. -/
def breakable (body : Act W Unit) : Act W Unit :=
  tryCatch body fun
    | .break_ => return ()
    | e => throw e

/-- Runs a last block however the rest is left, and then leaves it that way. -/
def ensuring (last body : Act W Unit) : Act W Unit := do
  let way ← tryCatch (do body; return none) fun e =>
    if e.isTransfer then return some e else throw e
  last
  match way with
  | none => return ()
  | some e => throw e

/-- The result of a routine's body: what is returned, or zero. -/
def outcome (body : Act W Unit) : Act W Word :=
  tryCatch (do body; return 0) fun
    | .return_ v => return v
    | e => throw e

end Control

section Statements

variable {W : Type} (sc : Scope W)

/-- What printing a value of the given sigil hands to the printing routine. -/
def printed? (v : Word) : Sigil → Option (List Word)
  | .int => some [sc.host.address "fmt_int", v]
  | .str => some [sc.host.address "fmt_str", v]
  | .bool => some [sc.host.address "fmt_str",
      sc.host.address (if v = 0 then "word_false" else "word_true")]
  | _ => none

/-- Prints a value and a line ending. -/
def print (v : Word) (sigil : Sigil) : Act W Unit :=
  match printed? sc v sigil with
  | none => throw .stray
  | some args => do
    discard (ask sc "printf" args)
    discard (ask sc "printf" [sc.host.address "newline"])

/-- The value of a variable that is declared without one. -/
def initial (type : Option Sigil) : Act W Word :=
  match type with
  | some (.list _) | some (.map _) => throw .stray
  | some .str => return sc.literal ""
  | _ => return 0

/-- The exception that throwing a value raises: a caught exception itself, or a new one. -/
def exception (type : String) (sigil : Sigil) (v : Word) : Act W Word := do
  if type.isEmpty && sigil.isObject then
    if (sc.host.typeOf (← get).world v).isSome then return v else throw .stray
  else
    let message ← if sigil.isStr then pure v else ask sc "lm_to_string" [v]
    ask sc "lm_exception_new"
      [sc.literal (if type.isEmpty then Emit.defaultExceptionType else type), message]

/-- Whether the value of a clause equals the subject of its switch. -/
def matches_ (strSubject : Bool) (subject : Word) (e : Expr) : Act W Bool := do
  let v ← eval sc e
  if strSubject && e.sigil.isStr then sameString sc subject v else return v == subject

/-- The first clause whose value equals the subject. -/
def select (strSubject : Bool) (subject : Word) : List Clause → Act W (Option Nat)
  | [] => return none
  | .default_ _ _ :: cs => do return (← select strSubject subject cs).map (· + 1)
  | .case_ _ e _ :: cs => do
    if ← matches_ sc strSubject subject e then return some 0
    else return (← select strSubject subject cs).map (· + 1)

/-- The default clause. -/
def defaultAt? : List Clause → Option Nat
  | [] => none
  | .default_ _ _ :: cs => ((defaultAt? cs).map (· + 1)).or (some 0)
  | .case_ _ _ _ :: cs => (defaultAt? cs).map (· + 1)

mutual

/-- What a statement does. -/
def exec : Stmt → Act W Unit
  | .block _ body => execs body
  | .print _ e => do print sc (← eval sc e) e.sigil
  | .expr _ e => discard (eval sc e)
  | .assign _ name e => do store sc name (← eval sc e)
  | .varDecl _ name type init => do
    store sc name (← match init with
      | some e => eval sc e
      | none => initial sc type)
  | .ifElse _ c a b => do
    if (← eval sc c) = 0 then
      match b with
      | some b => exec b
      | none => return ()
    else exec a
  | .while_ _ c body => rounds sc.fuel do
    if (← eval sc c) = 0 then return false else round (exec body)
  | .doWhile _ body c => rounds sc.fuel do
    if ← round (exec body) then return (← eval sc c) != 0 else return false
  | .for_ _ init cond post body => do
    match init with
    | some i => exec i
    | none => pure ()
    rounds sc.fuel do
      let go ← match cond with
        | some c => do pure ((← eval sc c) != 0)
        | none => pure true
      if go then
        if ← round (exec body) then
          match post with
          | some p => exec p
          | none => pure ()
          return true
        else return false
      else return false
  | .switch _ e cs => do
    let v ← eval sc e
    let found ← select sc e.sigil.isStr v cs
    match found.or (defaultAt? cs) with
    | some k => breakable (execFrom k cs)
    | none => return ()
  | .break_ _ => throw .break_
  | .continue_ _ => throw .continue_
  | .return_ _ e => do
    let v ← match e with
      | some e => eval sc e
      | none => pure 0
    throw (.return_ v)
  | .throw_ _ type e => do
    let v ← eval sc e
    throw (.thrown (← exception sc type e.sigil v))
  | .try_ _ body cs last =>
    let guarded := tryCatch (exec body) fun
      | .thrown h => handle h cs
      | e => throw e
    match last with
    | some l =>
      ensuring (do note (.last l); exec l) (do note (.enter body l); guarded)
    | none => guarded
  | _ => throw .stray

/-- Statements in order. -/
def execs : List Stmt → Act W Unit
  | [] => return ()
  | s :: ss => do
    exec s
    execs ss

/-- The bodies of clauses from the given one on. -/
def execFrom : Nat → List Clause → Act W Unit
  | _, [] => return ()
  | k + 1, _ :: cs => execFrom k cs
  | 0, .case_ _ _ body :: cs => do
    execs body
    execFrom 0 cs
  | 0, .default_ _ body :: cs => do
    execs body
    execFrom 0 cs

/-- The first handler whose type is empty or is the exception's. -/
def handle (h : Word) : List Catch → Act W Unit
  | [] => throw (.thrown h)
  | ⟨s, type, name, body⟩ :: cs => do
    if type.isEmpty || sc.host.typeOf (← get).world h == some type then
      store sc name h
      note (.handler ⟨s, type, name, body⟩)
      exec body
    else handle h cs

end

end Statements

/-! ## Routines -/

/-- A routine: the names of its parameters, with the receiver if it has one, and its body. -/
structure Definition where
  names : List String
  body : Stmt

/-- The variables of a routine, one for each name. -/
def Definition.locals (d : Definition) : List String :=
  (d.names ++ Emit.declaredNames d.body).foldl addNew []

/-- Gives parameters their values. -/
def bindParams (locals : String → Word) : List String → List Word → String → Word
  | name :: names, v :: vs => bindParams (Function.update locals name v) names vs
  | _, _ => locals

section Routines

variable {W : Type}

/-- Computes with variables of its own, of which nothing is left afterwards. -/
def framed {α : Type} (locals : W → String → Word) (x : Act W α) : Act W α :=
  ExceptT.mk fun st =>
    let (result, after) := x.from { st with locals := locals st.world }
    (result, { after with locals := st.locals })

/-- The variables of a routine at its start. -/
def Definition.start (d : Definition) (host : Host W) (args : List Word) (w : W) : String → Word :=
  bindParams (fun name => host.stale w (d.locals.idxOf name)) d.names args

/-- What calling a routine of the program does. Each call has less fuel than its caller. -/
def call (host : Host W) (literal : String → Word) (classes : ClassTable)
    (routine? : String → Option Definition) : Nat → String → List Word → Act W Word
  | 0, _, _ => throw .cut
  | n + 1, symbol, args =>
    match routine? symbol with
    | none => throw .stray
    | some d =>
      let sc : Scope W := ⟨host, literal, d.locals, classes,
        call host literal classes routine? n, n⟩
      framed (d.start host args) (outcome (exec sc d.body))

end Routines

end Lantern.Meaning
