import Lantern.Diagnostic
import Lantern.Text.CharClass
import Lantern.Token
import Lantern.Tree.Fold

/-!
# From tokens to the program tree

A descent over the tokens still to be read. Precedence from loosest to tightest: the ternary, `||`,
`&&`, equality, ordering, sums, products, prefix operators, `^` (to the right), and what follows an
operand. Every expression is folded as soon as it is complete. The functions that call each other
take a bound on the depth of their calls; `Program.parse` gives one that the number of tokens makes
sufficient.
-/

namespace Lantern.Parser

/-- Why parsing stopped. -/
inductive Stop where
  /-- The text is not a program. -/
  | reject (d : Diagnostic)
  /-- The bound on the depth of calls was reached. -/
  | bound
  deriving Repr, DecidableEq

/-- A step of parsing: it takes tokens off the front of those still to be read. -/
abbrev Parse := StateT (List Token) (Except Stop)

/-- Stops with an error. -/
def fail {α : Type} (at_ : Span) (message : String) : Parse α :=
  throw (.reject ⟨.error, at_, message⟩)

/-- The next token. -/
def peek : Parse Token := do
  match ← get with
  | [] => return ⟨.endOfFile, Span.nowhere⟩
  | t :: _ => return t

/-- Takes the next token. -/
def advance : Parse Unit := modify List.tail

/-- Whether the next token is the given lexeme. -/
def nextIs (l : Lexeme) : Parse Bool := do return (← peek).lexeme == l

/-- Whether the next token is the given punctuator. -/
def nextIsPunct (p : Punct) : Parse Bool := nextIs (.punct p)

/-- Whether the next token is the given keyword. -/
def nextIsWord (w : Keyword) : Parse Bool := nextIs (.keyword w)

/-- Whether no token is left. -/
def atEnd : Parse Bool := nextIs .endOfFile

/-- Takes the next token if it is the given lexeme. -/
def accept (l : Lexeme) : Parse Bool := do
  if ← nextIs l then
    advance
    return true
  return false

/-- Takes the next token if it is the given punctuator. -/
def acceptPunct (p : Punct) : Parse Bool := accept (.punct p)

/-- Takes the next token if it is the given keyword. -/
def acceptWord (w : Keyword) : Parse Bool := accept (.keyword w)

/-- Takes the given lexeme, or stops with the message. -/
def expect (l : Lexeme) (message : String) : Parse Unit := do
  unless ← accept l do fail (← peek).span message

/-- Takes the given punctuator, or stops with the message. -/
def expectPunct (p : Punct) (message : String) : Parse Unit := expect (.punct p) message

/-- Takes a name, or stops with the message. -/
def expectName (message : String) : Parse String := do
  let t ← peek
  match t.lexeme with
  | .ident name =>
    advance
    return name
  | _ => fail t.span message

/-- An expression of which nothing is known but its place. -/
def at_ (span : Span) : Info := ⟨span, none, none⟩

/-- The operator and precedence of a binary operator, `^` apart. -/
def binaryOp? : Lexeme → Option (BinaryOp × Nat)
  | .punct .star => some (.mul, 6)
  | .punct .slash => some (.div, 6)
  | .punct .percent => some (.rem, 6)
  | .punct .plus => some (.add, 5)
  | .punct .minus => some (.sub, 5)
  | .punct .lt => some (.lt, 4)
  | .punct .gt => some (.gt, 4)
  | .punct .le => some (.le, 4)
  | .punct .ge => some (.ge, 4)
  | .punct .eqEq => some (.eq, 3)
  | .punct .notEq => some (.ne, 3)
  | .punct .andAnd => some (.and, 2)
  | .punct .orOr => some (.or, 1)
  | _ => none

/-- The step a token stands for. -/
def stepOp? : Lexeme → Option StepOp
  | .punct .inc => some .inc
  | .punct .dec => some .dec
  | _ => none

mutual

/-- A whole expression, folded. -/
def expr : Nat → Parse Expr
  | 0 => throw .bound
  | n + 1 => do return (← ternary n).fold

/-- A choice, or anything that binds tighter. -/
def ternary : Nat → Parse Expr
  | 0 => throw .bound
  | n + 1 => do
    let cond ← binary n 1
    let t ← peek
    if ← acceptPunct .question then
      let onTrue ← expr n
      expectPunct .colon "Expected ':' for ternary operator."
      let onFalse ← ternary n
      return .ternary (at_ t.span) cond onTrue onFalse
    return cond

/-- Operands joined by binary operators of at least the given precedence. -/
def binary : Nat → Nat → Parse Expr
  | 0, _ => throw .bound
  | n + 1, least => do binaryRest n least (← unary n)

/-- The operators and operands that follow the operand `left`. -/
def binaryRest : Nat → Nat → Expr → Parse Expr
  | 0, _, _ => throw .bound
  | n + 1, least, left => do
    let t ← peek
    match binaryOp? t.lexeme with
    | none => return left
    | some (op, prec) =>
      if prec < least then return left
      else
        advance
        let right ← binary n (prec + 1)
        binaryRest n least (.binary (at_ t.span) op left right)

/-- An operand with prefix operators. -/
def unary : Nat → Parse Expr
  | 0 => throw .bound
  | n + 1 => do
    let t ← peek
    match t.lexeme with
    | .punct .not =>
      advance
      return .unary (at_ t.span) .not (← unary n)
    | .punct .minus =>
      advance
      return .unary (at_ t.span) .neg (← unary n)
    | .punct .plus =>
      advance
      unary n
    | l =>
      match stepOp? l with
      | some op =>
        advance
        let operand ← unary n
        unless operand.isLValue do fail t.span "Prefix '++' or '--' requires an l-value."
        return .step (at_ t.span) op true operand
      | none => powerExpr n

/-- An operand and its exponent, if one follows. -/
def powerExpr : Nat → Parse Expr
  | 0 => throw .bound
  | n + 1 => do
    let base ← postfixExpr n
    let t ← peek
    if ← acceptPunct .caret then
      return .binary (at_ t.span) .pow base (← unary n)
    return base

/-- An operand with calls, members, indices and steps behind it. -/
def postfixExpr : Nat → Parse Expr
  | 0 => throw .bound
  | n + 1 => do postfixRest n (← primary n)

/-- The calls, members, indices and steps that follow the operand `e`. -/
def postfixRest : Nat → Expr → Parse Expr
  | 0, _ => throw .bound
  | n + 1, e => do
    let t ← peek
    match t.lexeme with
    | .punct .lparen =>
      advance
      match e with
      | .ident i name => postfixRest n (.call (at_ i.span) name (← args n))
      | _ => fail t.span "Only named functions can be called."
    | .punct .dot =>
      advance
      let name ← expectName "Expected member name after '.'."
      if ← acceptPunct .lparen then
        postfixRest n (.method (at_ t.span) e name (← args n))
      else
        match e with
        | .super _ => fail t.span "'super' members can only be called."
        | _ => postfixRest n (.member (at_ t.span) e name)
    | .punct .lbracket =>
      advance
      let key ← expr n
      expectPunct .rbracket "Expected ']' after index."
      postfixRest n (.index (at_ t.span) e key)
    | l =>
      match stepOp? l with
      | some op =>
        unless e.isLValue do fail t.span "Postfix '++' or '--' requires an l-value."
        advance
        postfixRest n (.step (at_ t.span) op false e)
      | none => return e

/-- Arguments up to and with the closing parenthesis. -/
def args : Nat → Parse (List Expr)
  | 0 => throw .bound
  | n + 1 => do
    let es ← exprsUntil n .rparen
    expectPunct .rparen "Expected ')' after arguments."
    return es

/-- Expressions between commas, up to the given closing punctuator; a last comma may stand before
    it. -/
def exprsUntil : Nat → Punct → Parse (List Expr)
  | 0, _ => throw .bound
  | n + 1, close => do
    if ← nextIsPunct close then return []
    let e ← expr n
    if ← acceptPunct .comma then return e :: (← exprsUntil n close)
    return [e]

/-- The entries of a map literal up to its closing brace. -/
def entriesUntil : Nat → Parse (List (Expr × Expr))
  | 0 => throw .bound
  | n + 1 => do
    if ← nextIsPunct .rbrace then return []
    let key ← expr n
    expectPunct .colon "Expected ':' between map key and value."
    let value ← expr n
    if ← acceptPunct .comma then return (key, value) :: (← entriesUntil n)
    return [(key, value)]

/-- A literal, a name, or something in brackets. -/
def primary : Nat → Parse Expr
  | 0 => throw .bound
  | n + 1 => do
    let t ← peek
    let i := at_ t.span
    match t.lexeme with
    | .number v =>
      advance
      return .number i v
    | .text s =>
      advance
      return .str i s
    | .keyword .true_ =>
      advance
      return .bool i true
    | .keyword .false_ =>
      advance
      return .bool i false
    | .ident name =>
      advance
      return .ident i name
    | .keyword .this_ =>
      advance
      return .ident i "this"
    | .keyword .super =>
      advance
      unless ← nextIsPunct .dot do fail t.span "'super' must be followed by a method call."
      return .super i
    | .keyword .new_ =>
      advance
      let cls ← expectName "Expected class name after 'new'."
      expectPunct .lparen "Expected '(' after class name."
      return .new_ i cls (← args n)
    | .punct .amp =>
      advance
      return .funcRef i (← expectName "Expected function name after '&'.")
    | .punct .lparen =>
      advance
      let e ← expr n
      expectPunct .rparen "Expected ')' after expression."
      return e
    | .punct .lbracket =>
      advance
      let es ← exprsUntil n .rbracket
      expectPunct .rbracket "Expected ']' after list elements."
      return .list i es
    | .punct .lbrace =>
      advance
      let es ← entriesUntil n
      expectPunct .rbrace "Expected '\x7d' after map entries."
      return .map i es
    | _ => fail t.span "Expected an expression."

end

/-- A copy of an expression that a compound assignment may evaluate twice: literals, names, and
    elements and members of such. The copy stands where the expression does, and nothing else is
    known about it. -/
def copy : Expr → Parse Expr
  | .number i v => return .number (at_ i.span) v
  | .str i s => return .str (at_ i.span) s
  | .bool i b => return .bool (at_ i.span) b
  | .ident i name => return .ident (at_ i.span) name
  | .index i base key => do return .index (at_ i.span) (← copy base) (← copy key)
  | .member i object name => do return .member (at_ i.span) (← copy object) name
  | e => fail e.span "Compound assignment target is too complex; assign through a variable."

/-- A copy of the target of a compound assignment, to be read by its value. What is no target at all
    is for the assignment to refuse. -/
def copyTarget (target : Expr) : Parse Expr :=
  if target.isLValue then copy target else return target

/-- The operator of an assignment; plain assignment has none. -/
def assignOp? : Lexeme → Option (Option BinaryOp)
  | .punct .assign => some none
  | .punct .plusAssign => some (some .add)
  | .punct .minusAssign => some (some .sub)
  | .punct .starAssign => some (some .mul)
  | .punct .slashAssign => some (some .div)
  | .punct .percentAssign => some (some .rem)
  | _ => none

/-- The assignment of `value` to `target`, whose operator stands at `span`. -/
def assignTo (span : Span) (target value : Expr) : Parse Stmt :=
  match target with
  | .ident _ name => return .assign span name value
  | .index _ base key => return .indexAssign span base key value
  | .member i object name => return .indexAssign span object (.str (at_ i.span) name) value
  | _ => fail span "Invalid target for assignment."

/-- An assignment or an expression, without what ends the statement. -/
def simple (n : Nat) : Parse Stmt := do
  let first ← peek
  let target ← expr n
  let t ← peek
  match assignOp? t.lexeme with
  | none => return .expr first.span target
  | some none =>
    advance
    assignTo t.span target (← expr n)
  | some (some op) =>
    advance
    let value ← expr n
    let read ← copyTarget target
    assignTo t.span target (.binary (at_ t.span) op read value)

/-- A written type. -/
def typeName : Parse Sigil := do
  let name ← expectName "Expected a type name."
  if ← acceptPunct .lt then
    let elem ← expectName "Expected an element type."
    expectPunct .gt "Expected '>' after element type."
    return Sigil.ofName (name ++ "<" ++ elem ++ ">")
  return Sigil.ofName name

/-- A type behind a colon, if one is written. -/
def optionalType : Parse (Option Sigil) := do
  if ← acceptPunct .colon then return some (← typeName)
  return none

/-- Parameters between commas up to the closing parenthesis. -/
def paramsUntil : Nat → Parse (List Param)
  | 0 => throw .bound
  | n + 1 => do
    if ← nextIsPunct .rparen then return []
    let name ← expectName "Expected parameter name."
    let type ← optionalType
    if ← acceptPunct .comma then return ⟨name, type⟩ :: (← paramsUntil n)
    return [⟨name, type⟩]

/-- A parameter list in parentheses. -/
def params (n : Nat) : Parse (List Param) := do
  expectPunct .lparen "Expected '(' before parameter list."
  let ps ← paramsUntil n
  expectPunct .rparen "Expected ')' after parameters."
  return ps

/-- An initial value behind `=`, if one is written. -/
def optionalInit (n : Nat) : Parse (Option Expr) := do
  if ← acceptPunct .assign then return some (← expr n)
  return none

/-- A variable declaration behind its keyword, which stands at `span`. -/
def varDecl (n : Nat) (span : Span) : Parse Stmt := do
  let name ← expectName "Expected variable name after 'var'."
  let type ← optionalType
  return .varDecl span name type (← optionalInit n)

/-- An expression in parentheses behind a keyword. -/
def condition (n : Nat) (before after : String) : Parse Expr := do
  expectPunct .lparen before
  let e ← expr n
  expectPunct .rparen after
  return e

/-- The type and value of a throw: a call of a capitalised name with one argument names the type. -/
def thrown : Expr → String × Expr
  | .call i name [arg] =>
    if (name.toList.head?.map Text.isUpperCase).getD false then (name, arg)
    else ("", .call i name [arg])
  | e => ("", e)

mutual

/-- A statement. -/
def stmt : Nat → Parse Stmt
  | 0 => throw .bound
  | n + 1 => do
    let t ← peek
    let s := t.span
    match t.lexeme with
    | .punct .lbrace => block n
    | .keyword .var_ =>
      advance
      let decl ← varDecl n s
      expectPunct .semi "Expected ';' after variable declaration."
      return decl
    | .keyword .print =>
      advance
      let e ← condition n "Expected '(' after 'print'." "Expected ')' after print argument."
      expectPunct .semi "Expected ';' after print statement."
      return .print s e
    | .keyword .if_ =>
      advance
      let cond ← condition n "Expected '(' after 'if'." "Expected ')' after if condition."
      let onTrue ← stmt n
      if ← acceptWord .else_ then return .ifElse s cond onTrue (some (← stmt n))
      return .ifElse s cond onTrue none
    | .keyword .while_ =>
      advance
      let cond ← condition n "Expected '(' after 'while'." "Expected ')' after while condition."
      return .while_ s cond (← stmt n)
    | .keyword .do_ =>
      advance
      let body ← stmt n
      expect (.keyword .while_) "Expected 'while' after do body."
      let cond ← condition n "Expected '(' after 'while'." "Expected ')' after do-while condition."
      expectPunct .semi "Expected ';' after do-while statement."
      return .doWhile s body cond
    | .keyword .for_ =>
      advance
      forStmt n s
    | .keyword .switch =>
      advance
      let subject ← condition n "Expected '(' after 'switch'."
        "Expected ')' after switch expression."
      expectPunct .lbrace "Expected '\x7b' to start switch body."
      let cs ← clauses n false
      expectPunct .rbrace "Expected '\x7d' after switch body."
      return .switch s subject cs
    | .keyword .break_ =>
      advance
      expectPunct .semi "Expected ';' after 'break'."
      return .break_ s
    | .keyword .continue_ =>
      advance
      expectPunct .semi "Expected ';' after 'continue'."
      return .continue_ s
    | .keyword .return_ =>
      advance
      let value ← if ← nextIsPunct .semi then pure none else some <$> expr n
      expectPunct .semi "Expected ';' after return statement."
      return .return_ s value
    | .keyword .throw_ =>
      advance
      let e ← expr n
      expectPunct .semi "Expected ';' after throw statement."
      let (type, value) := thrown e
      return .throw_ s type value
    | .keyword .try_ =>
      advance
      tryStmt n s
    | .punct .semi =>
      advance
      return .block s []
    | .keyword .func | .keyword .class_ =>
      fail s "Functions and classes can only be declared at the top level."
    | _ =>
      let st ← simple n
      expectPunct .semi "Expected ';' after statement."
      return st

/-- Statements in braces. -/
def block : Nat → Parse Stmt
  | 0 => throw .bound
  | n + 1 => do
    let t ← peek
    expectPunct .lbrace "Expected '\x7b' to start a block."
    let body ← stmtsUntil n false
    expectPunct .rbrace "Expected '\x7d' after block."
    return .block t.span body

/-- Statements up to a closing brace, a label of a switch if `labels`, or the end of the text. -/
def stmtsUntil : Nat → Bool → Parse (List Stmt)
  | 0, _ => throw .bound
  | n + 1, labels => do
    if ← nextIsPunct .rbrace then return []
    if ← atEnd then return []
    if labels then
      if ← nextIsWord .case_ then return []
      if ← nextIsWord .default_ then return []
    let s ← stmt n
    return s :: (← stmtsUntil n labels)

/-- A counted loop behind its keyword, which stands at `s`. -/
def forStmt : Nat → Span → Parse Stmt
  | 0, _ => throw .bound
  | n + 1, s => do
    expectPunct .lparen "Expected '(' after 'for'."
    let first ← peek
    let init ←
      if ← nextIsPunct .semi then pure none
      else if ← acceptWord .var_ then some <$> varDecl n first.span
      else some <$> simple n
    expectPunct .semi "Expected ';' after for initializer."
    let cond ← if ← nextIsPunct .semi then pure none else some <$> expr n
    expectPunct .semi "Expected ';' after for condition."
    let post ← if ← nextIsPunct .rparen then pure none else some <$> simple n
    expectPunct .rparen "Expected ')' after for clauses."
    return .for_ s init cond post (← stmt n)

/-- The clauses of a switch up to its closing brace; `seen` when one of them is the default. -/
def clauses : Nat → Bool → Parse (List Clause)
  | 0, _ => throw .bound
  | n + 1, seen => do
    if ← nextIsPunct .rbrace then return []
    if ← atEnd then return []
    let t ← peek
    match t.lexeme with
    | .keyword .case_ =>
      advance
      let value ← expr n
      expectPunct .colon "Expected ':' after case label."
      let body ← stmtsUntil n true
      return .case_ t.span value body :: (← clauses n seen)
    | .keyword .default_ =>
      advance
      if seen then fail t.span "Multiple 'default' labels in one switch."
      expectPunct .colon "Expected ':' after case label."
      let body ← stmtsUntil n true
      return .default_ t.span body :: (← clauses n true)
    | _ => fail t.span "Expected 'case' or 'default' in switch body."

/-- A guarded block behind its keyword, which stands at `s`. -/
def tryStmt : Nat → Span → Parse Stmt
  | 0, _ => throw .bound
  | n + 1, s => do
    let body ← block n
    let cs ← catches n
    let last ← if ← acceptWord .finally_ then some <$> block n else pure none
    if cs.isEmpty && last.isNone then
      fail s "'try' requires at least one 'catch' or a 'finally' block."
    return .try_ s body cs last

/-- The handlers that follow a guarded block. -/
def catches : Nat → Parse (List Catch)
  | 0 => throw .bound
  | n + 1 => do
    let t ← peek
    if ← acceptWord .catch_ then
      expectPunct .lparen "Expected '(' after 'catch'."
      let first ← expectName "Expected exception variable name in catch clause."
      let (type, name) ← match (← peek).lexeme with
        | .ident second =>
          advance
          pure (first, second)
        | _ => pure ("", first)
      expectPunct .rparen "Expected ')' after catch clause."
      let body ← block n
      return ⟨t.span, type, name, body⟩ :: (← catches n)
    return []

end

/-- A function behind its keyword, which stands at `span`. -/
def funcDecl (n : Nat) (span : Span) : Parse Stmt := do
  let name ← expectName "Expected function name after 'func'."
  let ps ← params n
  let result ← optionalType
  return .func ⟨span, name, ps, result, ← block n⟩

/-- The members of a class by kind. -/
structure Members where
  /-- Fields in order. -/
  fields : List Field
  /-- Methods in order. -/
  methods : List Method
  /-- Constructors in order. -/
  ctors : List Ctor

/-- The members of a class up to its closing brace. -/
def membersUntil : Nat → Parse Members
  | 0 => throw .bound
  | n + 1 => do
    if ← nextIsPunct .rbrace then return ⟨[], [], []⟩
    if ← atEnd then return ⟨[], [], []⟩
    let first ← peek
    let isStatic ← acceptWord .static_
    let isOverride ← if isStatic then pure false else acceptWord .override
    let t ← peek
    match t.lexeme with
    | .keyword .var_ =>
      advance
      if isOverride then fail first.span "Fields cannot be marked 'override'."
      let name ← expectName "Expected field name after 'var'."
      let type ← optionalType
      let init ← optionalInit n
      expectPunct .semi "Expected ';' after field declaration."
      let rest ← membersUntil n
      return { rest with fields := ⟨first.span, name, type, init, isStatic⟩ :: rest.fields }
    | .keyword .func =>
      advance
      let name ← expectName "Expected method name after 'func'."
      let ps ← params n
      let result ← optionalType
      let body ← block n
      let rest ← membersUntil n
      return { rest with
        methods := ⟨first.span, name, ps, result, body, isStatic, isOverride⟩ :: rest.methods }
    | .keyword .constructor_ =>
      advance
      if isStatic || isOverride then
        fail first.span "Constructors cannot be 'static' or 'override'."
      let ps ← params n
      let body ← block n
      let rest ← membersUntil n
      return { rest with ctors := ⟨first.span, ps, body⟩ :: rest.ctors }
    | _ => fail t.span "Expected a field, method or constructor in class body."

/-- A class behind its keyword, which stands at `span`. -/
def classDecl (n : Nat) (span : Span) : Parse Stmt := do
  let name ← expectName "Expected class name after 'class'."
  let base ←
    if ← acceptWord .extends_ then expectName "Expected base class name after 'extends'."
    else pure ""
  expectPunct .lbrace "Expected '\x7b' to start class body."
  let ms ← membersUntil n
  expectPunct .rbrace "Expected '\x7d' after class body."
  return .class_ ⟨span, name, base, ms.fields, ms.methods, ms.ctors⟩

/-- The items of a program up to the end of the text. -/
def items : Nat → Parse (List Stmt)
  | 0 => throw .bound
  | n + 1 => do
    let t ← peek
    match t.lexeme with
    | .endOfFile => return []
    | .punct .semi =>
      advance
      items n
    | .keyword .func =>
      advance
      let f ← funcDecl n t.span
      return f :: (← items n)
    | .keyword .class_ =>
      advance
      let c ← classDecl n t.span
      return c :: (← items n)
    | _ =>
      let s ← stmt n
      return s :: (← items n)

/-- A whole program. -/
def program (n : Nat) : Parse Program := do
  let t ← peek
  return ⟨t.span, ← items n⟩

/-- A depth of calls that parsing `tokens` never exceeds: between taking one token and the next, no
    more than this many calls are nested. -/
def depthBound (tokens : List Token) : Nat := 16 * (tokens.length + 2)

end Lantern.Parser

namespace Lantern

/-- The program that tokens spell, or the error in them. -/
def Program.parse (tokens : List Token) : Except Parser.Stop Program :=
  (Parser.program (Parser.depthBound tokens) tokens).map Prod.fst

/-- Parsing among the other checks of a compilation. -/
def Program.ofTokens (tokens : List Token) : Checked Program :=
  match Program.parse tokens with
  | .ok p => pure p
  | .error (.reject d) => throw d
  | .error .bound => Checked.fail Span.nowhere "Program is nested too deeply."

end Lantern
