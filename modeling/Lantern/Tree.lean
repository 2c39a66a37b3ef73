import Lantern.Sigil
import Lantern.Span

/-!
# The program tree

Expressions, statements and declarations. Every expression carries what later passes find out about
it: the checker may resolve the type of a member or method, and inference records a sigil for each
expression. Two statements are never read from source text: `Stmt.bare` and `Stmt.printStmt` stand
for an expression where a statement belongs and for a statement where an expression belongs.
-/

namespace Lantern

/-- An operator with two operands. -/
inductive BinaryOp where
  | add | sub | mul | div | rem | pow | eq | ne | lt | gt | ge | le | and | or
  deriving Repr, DecidableEq, BEq

namespace BinaryOp

/-- The operator as written. -/
def spelling : BinaryOp → String
  | add => "+"
  | sub => "-"
  | mul => "*"
  | div => "/"
  | rem => "%"
  | pow => "^"
  | eq => "=="
  | ne => "!="
  | lt => "<"
  | gt => ">"
  | ge => ">="
  | le => "<="
  | and => "&&"
  | or => "||"

/-- Whether the result is a truth value: comparisons and the logical connectives. -/
def isLogical : BinaryOp → Bool
  | eq | ne | lt | gt | ge | le | and | or => true
  | _ => false

end BinaryOp

/-- An operator with one operand. -/
inductive UnaryOp where
  | neg | not
  deriving Repr, DecidableEq, BEq

/-- The operator as written. -/
def UnaryOp.spelling : UnaryOp → String
  | .neg => "-"
  | .not => "!"

/-- A step of a variable by one. -/
inductive StepOp where
  | inc | dec
  deriving Repr, DecidableEq, BEq

/-- The operator as written. -/
def StepOp.spelling : StepOp → String
  | .inc => "++"
  | .dec => "--"

/-- What is known about an expression. -/
structure Info where
  /-- Where it stands. -/
  span : Span
  /-- The type the checker resolved for a member or a method call. -/
  resolved : Option Sigil := none
  /-- The sigil inference recorded. -/
  sigil : Option Sigil := none
  deriving Repr, DecidableEq, BEq, Inhabited

/-- An expression. -/
inductive Expr where
  /-- An integer. -/
  | number (info : Info) (value : Int64)
  /-- A truth value. -/
  | bool (info : Info) (value : Bool)
  /-- A string. -/
  | str (info : Info) (value : String)
  /-- A name. -/
  | ident (info : Info) (name : String)
  /-- Two operands and an operator. -/
  | binary (info : Info) (op : BinaryOp) (left right : Expr)
  /-- One operand and an operator. -/
  | unary (info : Info) (op : UnaryOp) (operand : Expr)
  /-- A choice between two values. -/
  | ternary (info : Info) (cond onTrue onFalse : Expr)
  /-- A list literal. -/
  | list (info : Info) (elems : List Expr)
  /-- A map literal by its keys and values. -/
  | map (info : Info) (entries : List (Expr × Expr))
  /-- An element of a collection. -/
  | index (info : Info) (base key : Expr)
  /-- A field of an object or class. -/
  | member (info : Info) (object : Expr) (name : String)
  /-- A call by name. -/
  | call (info : Info) (callee : String) (args : List Expr)
  /-- A call of a method. -/
  | method (info : Info) (receiver : Expr) (name : String) (args : List Expr)
  /-- A new object. -/
  | new_ (info : Info) (cls : String) (args : List Expr)
  /-- The receiver of a call of an inherited method. -/
  | super (info : Info)
  /-- A step by one; `first` when the result is the value after the step. -/
  | step (info : Info) (op : StepOp) (first : Bool) (target : Expr)
  /-- The address of a function. -/
  | funcRef (info : Info) (name : String)
  deriving Inhabited

namespace Expr

/-- What is known about the expression. -/
def info : Expr → Info
  | number i _ | bool i _ | str i _ | ident i _ | binary i _ _ _ | unary i _ _ | ternary i _ _ _
  | list i _ | map i _ | index i _ _ | member i _ _ | call i _ _ | method i _ _ _ | new_ i _ _
  | super i | step i _ _ _ | funcRef i _ => i

/-- Where the expression stands. -/
def span (e : Expr) : Span := e.info.span

/-- The sigil inference recorded, `int` if it recorded none. -/
def sigil (e : Expr) : Sigil := e.info.sigil.getD .int

/-- Whether the expression may be assigned to or stepped. -/
def isLValue : Expr → Bool
  | ident .. | index .. | member .. => true
  | _ => false

/-- The name a bare name consists of. -/
def identName? : Expr → Option String
  | ident _ name => some name
  | _ => none

/-- The value of a string literal. -/
def strValue? : Expr → Option String
  | str _ value => some value
  | _ => none

end Expr

/-- A parameter of a routine. -/
structure Param where
  /-- Its name. -/
  name : String
  /-- Its type, if one is written. -/
  type : Option Sigil
  deriving Repr, DecidableEq, BEq

/-- A field of a class. -/
structure Field where
  /-- Where it is declared. -/
  span : Span
  /-- Its name. -/
  name : String
  /-- Its type, if one is written. -/
  type : Option Sigil
  /-- Its initial value, if one is written. -/
  init : Option Expr
  /-- Whether the class holds it rather than each object. -/
  isStatic : Bool

mutual

/-- A statement. -/
inductive Stmt where
  /-- Prints a value. -/
  | print (span : Span) (value : Expr)
  /-- Prints a statement, which has no value. -/
  | printStmt (span : Span) (body : Stmt)
  /-- Evaluates an expression for its effects. -/
  | expr (span : Span) (value : Expr)
  /-- An expression where a statement belongs. -/
  | bare (value : Expr)
  /-- Assigns to a variable. -/
  | assign (span : Span) (name : String) (value : Expr)
  /-- Assigns to an element or a field; a field is an element by its name. -/
  | indexAssign (span : Span) (base key value : Expr)
  /-- Declares a variable. -/
  | varDecl (span : Span) (name : String) (type : Option Sigil) (init : Option Expr)
  /-- Statements in order, with a scope of their own. -/
  | block (span : Span) (body : List Stmt)
  /-- Chooses between two statements. -/
  | ifElse (span : Span) (cond : Expr) (onTrue : Stmt) (onFalse : Option Stmt)
  /-- Repeats while a condition holds. -/
  | while_ (span : Span) (cond : Expr) (body : Stmt)
  /-- Repeats until a condition fails, testing afterwards. -/
  | doWhile (span : Span) (body : Stmt) (cond : Expr)
  /-- A counted loop; each of its clauses may be missing. -/
  | for_ (span : Span) (init : Option Stmt) (cond : Option Expr) (post : Option Stmt) (body : Stmt)
  /-- Enters the first clause whose value equals the subject. -/
  | switch (span : Span) (subject : Expr) (clauses : List Clause)
  /-- Leaves the innermost loop or switch. -/
  | break_ (span : Span)
  /-- Goes on with the next round of the innermost loop. -/
  | continue_ (span : Span)
  /-- Leaves the routine. -/
  | return_ (span : Span) (value : Option Expr)
  /-- Raises an exception; an empty type is the default one. -/
  | throw_ (span : Span) (type : String) (value : Expr)
  /-- Guards a statement against exceptions. -/
  | try_ (span : Span) (body : Stmt) (catches : List Catch) (last : Option Stmt)
  /-- Declares a function. -/
  | func (decl : FuncDecl)
  /-- Declares a class. -/
  | class_ (decl : ClassDecl)

/-- A labelled part of a switch. -/
inductive Clause where
  /-- Entered when the subject equals the value. -/
  | case_ (span : Span) (value : Expr) (body : List Stmt)
  /-- Entered when no other clause is. -/
  | default_ (span : Span) (body : List Stmt)

/-- A handler of exceptions. -/
structure Catch where
  /-- Where it stands. -/
  span : Span
  /-- The exception type it handles; empty handles all. -/
  type : String
  /-- The variable that holds the exception. -/
  name : String
  /-- What to do. -/
  body : Stmt

/-- A function. -/
structure FuncDecl where
  /-- Where it is declared. -/
  span : Span
  /-- Its name. -/
  name : String
  /-- Its parameters. -/
  params : List Param
  /-- Its result type, if one is written. -/
  result : Option Sigil
  /-- What it does. -/
  body : Stmt

/-- A method of a class. -/
structure Method where
  /-- Where it is declared. -/
  span : Span
  /-- Its name. -/
  name : String
  /-- Its parameters. -/
  params : List Param
  /-- Its result type, if one is written. -/
  result : Option Sigil
  /-- What it does. -/
  body : Stmt
  /-- Whether it belongs to the class rather than to each object. -/
  isStatic : Bool
  /-- Whether it says that it replaces an inherited method. -/
  isOverride : Bool

/-- A constructor of a class. -/
structure Ctor where
  /-- Where it is declared. -/
  span : Span
  /-- Its parameters. -/
  params : List Param
  /-- What it does. -/
  body : Stmt

/-- A class. -/
structure ClassDecl where
  /-- Where it is declared. -/
  span : Span
  /-- Its name. -/
  name : String
  /-- The class it extends; empty is none. -/
  base : String
  /-- Its fields in order. -/
  fields : List Field
  /-- Its methods in order. -/
  methods : List Method
  /-- Its constructors in order. -/
  ctors : List Ctor

end

instance : Inhabited Stmt := ⟨.break_ Span.nowhere⟩

namespace Stmt

/-- Where the statement stands. -/
def span : Stmt → Span
  | print s _ | printStmt s _ | expr s _ | assign s _ _ | indexAssign s _ _ _ | varDecl s _ _ _
  | block s _ | ifElse s _ _ _ | while_ s _ _ | doWhile s _ _ | for_ s _ _ _ _ | switch s _ _
  | break_ s | continue_ s | return_ s _ | throw_ s _ _ | try_ s _ _ _ => s
  | bare e => e.span
  | func decl => decl.span
  | class_ decl => decl.span

/-- Whether the statement declares a function or a class. -/
def isDecl : Stmt → Bool
  | func .. | class_ .. => true
  | _ => false

/-- Whether control never goes on behind the statement. -/
def isTransfer : Stmt → Bool
  | break_ .. | continue_ .. | return_ .. | throw_ .. => true
  | _ => false

end Stmt

/-- A whole program: its declarations and top-level statements in order. -/
structure Program where
  /-- Where the text starts. -/
  span : Span
  /-- Declarations and statements. -/
  items : List Stmt

end Lantern
