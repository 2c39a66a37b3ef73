import Lantern.Text.Blank
import Lantern.Text.Quoted
import Lantern.Tree

/-!
# Outlines

A program tree seen as nodes of named kinds with children, for listings and for walks over all
nodes. The order of a node's children depends on the layout: a listing shows the entries of a map
pair by pair and constructors before methods; a walk takes all keys before all values and methods
before constructors.
-/

namespace Lantern

/-- The kind of a node. -/
inductive NodeKind where
  | number | bool | str | ident | binaryOp | unaryOp | ternary | listLit | mapLit | index
  | memberAccess | funcCall | methodCall | new_ | super | incDec | funcRef
  | print | exprStmt | assign | indexAssign | varDecl | block | if_ | while_ | doWhile | for_
  | switch | case_ | default_ | break_ | continue_ | return_ | throw_ | try_ | catch_
  | funcDecl | classDecl | fieldDecl | methodDecl | ctorDecl
  deriving Repr, DecidableEq, BEq

namespace NodeKind

/-- Every kind, expressions first. -/
def all : List NodeKind :=
  [number, bool, str, ident, binaryOp, unaryOp, ternary, listLit, mapLit, index, memberAccess,
   funcCall, methodCall, new_, super, incDec, funcRef, print, exprStmt, assign, indexAssign,
   varDecl, block, if_, while_, doWhile, for_, switch, case_, default_, break_, continue_, return_,
   throw_, try_, catch_, funcDecl, classDecl, fieldDecl, methodDecl, ctorDecl]

/-- The name of a kind. -/
def name : NodeKind → String
  | number => "Number"
  | bool => "Bool"
  | str => "String"
  | ident => "Ident"
  | binaryOp => "BinaryOp"
  | unaryOp => "UnaryOp"
  | ternary => "Ternary"
  | listLit => "ListLit"
  | mapLit => "MapLit"
  | index => "Index"
  | memberAccess => "MemberAccess"
  | funcCall => "FuncCall"
  | methodCall => "MethodCall"
  | new_ => "New"
  | super => "Super"
  | incDec => "IncDec"
  | funcRef => "FuncRef"
  | print => "Print"
  | exprStmt => "ExprStmt"
  | assign => "Assign"
  | indexAssign => "IndexAssign"
  | varDecl => "VarDecl"
  | block => "Block"
  | if_ => "If"
  | while_ => "While"
  | doWhile => "DoWhile"
  | for_ => "For"
  | switch => "Switch"
  | case_ => "Case"
  | default_ => "Default"
  | break_ => "Break"
  | continue_ => "Continue"
  | return_ => "Return"
  | throw_ => "Throw"
  | try_ => "Try"
  | catch_ => "Catch"
  | funcDecl => "FuncDecl"
  | classDecl => "ClassDecl"
  | fieldDecl => "FieldDecl"
  | methodDecl => "MethodDecl"
  | ctorDecl => "CtorDecl"

/-- Whether nodes of the kind are expressions. -/
def isExpr (k : NodeKind) : Bool := all.idxOf k < all.idxOf print

end NodeKind

/-- The kind of an expression. -/
def Expr.kind : Expr → NodeKind
  | .number .. => .number
  | .bool .. => .bool
  | .str .. => .str
  | .ident .. => .ident
  | .binary .. => .binaryOp
  | .unary .. => .unaryOp
  | .ternary .. => .ternary
  | .list .. => .listLit
  | .map .. => .mapLit
  | .index .. => .index
  | .member .. => .memberAccess
  | .call .. => .funcCall
  | .method .. => .methodCall
  | .new_ .. => .new_
  | .super .. => .super
  | .step .. => .incDec
  | .funcRef .. => .funcRef

/-- The kind of a statement. -/
def Stmt.kind : Stmt → NodeKind
  | .print .. | .printStmt .. => .print
  | .expr .. => .exprStmt
  | .bare e => e.kind
  | .assign .. => .assign
  | .indexAssign .. => .indexAssign
  | .varDecl .. => .varDecl
  | .block .. => .block
  | .ifElse .. => .if_
  | .while_ .. => .while_
  | .doWhile .. => .doWhile
  | .for_ .. => .for_
  | .switch .. => .switch
  | .break_ .. => .break_
  | .continue_ .. => .continue_
  | .return_ .. => .return_
  | .throw_ .. => .throw_
  | .try_ .. => .try_
  | .func .. => .funcDecl
  | .class_ .. => .classDecl

/-- A node with what is known about it, its detail in a listing, and the nodes below it. -/
inductive Outline where
  | node (kind : NodeKind) (info : Info) (detail : String) (below : List Outline)

/-- In which order the children of a node come. -/
inductive Layout where
  /-- As a listing shows them. -/
  | listing
  /-- As a walk meets them. -/
  | walk
  deriving Repr, DecidableEq, BEq

namespace Layout

/-- The entries of a map literal, flattened. -/
def entries {α : Type} (layout : Layout) (es : List (α × α)) : List α :=
  match layout with
  | listing => es.flatMap fun (k, v) => [k, v]
  | walk => es.map Prod.fst ++ es.map Prod.snd

/-- The members of a class, in order. -/
def members {α : Type} (layout : Layout) (fields methods ctors : List α) : List α :=
  match layout with
  | listing => fields ++ ctors ++ methods
  | walk => fields ++ methods ++ ctors

end Layout

mutual

/-- The outline of an expression. -/
def Expr.outline (layout : Layout) : Expr → Outline
  | .number i v => .node .number i (toString v.toInt) []
  | .bool i v => .node .bool i (if v then "true" else "false") []
  | .str i v => .node .str i (Text.quoted v) []
  | .ident i name => .node .ident i name []
  | .binary i op l r => .node .binaryOp i op.spelling [l.outline layout, r.outline layout]
  | .unary i op e => .node .unaryOp i op.spelling [e.outline layout]
  | .ternary i c a b => .node .ternary i "" [c.outline layout, a.outline layout, b.outline layout]
  | .list i es => .node .listLit i "" (outlineExprs layout es)
  | .map i es => .node .mapLit i "" (layout.entries (outlineEntries layout es))
  | .index i b k => .node .index i "" [b.outline layout, k.outline layout]
  | .member i o name => .node .memberAccess i ("." ++ name) [o.outline layout]
  | .call i callee args => .node .funcCall i callee (outlineExprs layout args)
  | .method i r name args =>
    .node .methodCall i ("." ++ name) (r.outline layout :: outlineExprs layout args)
  | .new_ i cls args => .node .new_ i cls (outlineExprs layout args)
  | .super i => .node .super i "" []
  | .step i op first t =>
    .node .incDec i ((if first then "prefix " else "postfix ") ++ op.spelling) [t.outline layout]
  | .funcRef i name => .node .funcRef i ("&" ++ name) []

/-- The outlines of expressions. -/
def outlineExprs (layout : Layout) : List Expr → List Outline
  | [] => []
  | e :: es => e.outline layout :: outlineExprs layout es

/-- The outlines of the entries of a map literal. -/
def outlineEntries (layout : Layout) : List (Expr × Expr) → List (Outline × Outline)
  | [] => []
  | (k, v) :: es => (k.outline layout, v.outline layout) :: outlineEntries layout es

end

/-- A written type behind a colon. -/
def typeDetail : Option Sigil → String
  | none => ""
  | some s => ": " ++ s.name

/-- A parameter list as written. -/
def paramsDetail (params : List Param) : String :=
  "(" ++ ", ".intercalate (params.map fun p => p.name ++ typeDetail p.type) ++ ")"

/-- The outline of a field. -/
def Field.outline (layout : Layout) (f : Field) : Outline :=
  .node .fieldDecl ⟨f.span, none, none⟩
    ((if f.isStatic then "static " else "") ++ f.name ++ typeDetail f.type)
    (f.init.toList.map (Expr.outline layout))

/-- What a listing shows of a method. -/
def Method.detail (isStatic isOverride : Bool) (name : String) (params : List Param)
    (result : Option Sigil) : String :=
  (if isStatic then "static " else "") ++ (if isOverride then "override " else "") ++ name ++
    paramsDetail params ++ typeDetail result

mutual

/-- The outline of a statement. -/
def Stmt.outline (layout : Layout) : Stmt → Outline
  | .print s e => .node .print ⟨s, none, none⟩ "" [e.outline layout]
  | .printStmt s b => .node .print ⟨s, none, none⟩ "" [b.outline layout]
  | .expr s e => .node .exprStmt ⟨s, none, none⟩ "" [e.outline layout]
  | .bare e => e.outline layout
  | .assign s name e => .node .assign ⟨s, none, none⟩ name [e.outline layout]
  | .indexAssign s b k e =>
    .node .indexAssign ⟨s, none, none⟩ "" [b.outline layout, k.outline layout, e.outline layout]
  | .varDecl s name type init =>
    .node .varDecl ⟨s, none, none⟩ (name ++ typeDetail type)
      (init.toList.map (Expr.outline layout))
  | .block s body => .node .block ⟨s, none, none⟩ "" (outlineStmts layout body)
  | .ifElse s c a b =>
    .node .if_ ⟨s, none, none⟩ "" (c.outline layout :: a.outline layout ::
      (match b with
      | some b => [b.outline layout]
      | none => []))
  | .while_ s c b => .node .while_ ⟨s, none, none⟩ "" [c.outline layout, b.outline layout]
  | .doWhile s b c => .node .doWhile ⟨s, none, none⟩ "" [b.outline layout, c.outline layout]
  | .for_ s init cond post body =>
    .node .for_ ⟨s, none, none⟩ ""
      ((match init with
        | some i => [i.outline layout]
        | none => []) ++
        cond.toList.map (Expr.outline layout) ++
        (match post with
        | some p => [p.outline layout]
        | none => []) ++
        [body.outline layout])
  | .switch s e clauses =>
    .node .switch ⟨s, none, none⟩ "" (e.outline layout :: outlineClauses layout clauses)
  | .break_ s => .node .break_ ⟨s, none, none⟩ "" []
  | .continue_ s => .node .continue_ ⟨s, none, none⟩ "" []
  | .return_ s e => .node .return_ ⟨s, none, none⟩ "" (e.toList.map (Expr.outline layout))
  | .throw_ s type e => .node .throw_ ⟨s, none, none⟩ type [e.outline layout]
  | .try_ s body catches last =>
    .node .try_ ⟨s, none, none⟩ "" (body.outline layout :: outlineCatches layout catches ++
      (match last with
      | some l => [l.outline layout]
      | none => []))
  | .func ⟨s, name, params, result, body⟩ =>
    .node .funcDecl ⟨s, none, none⟩ (name ++ paramsDetail params ++ typeDetail result)
      [body.outline layout]
  | .class_ ⟨s, name, base, fields, methods, ctors⟩ =>
    .node .classDecl ⟨s, none, none⟩ (if base.isEmpty then name else name ++ " extends " ++ base)
      (layout.members (fields.map (Field.outline layout)) (outlineMethods layout methods)
        (outlineCtors layout ctors))

/-- The outlines of statements. -/
def outlineStmts (layout : Layout) : List Stmt → List Outline
  | [] => []
  | s :: ss => s.outline layout :: outlineStmts layout ss

/-- The outlines of the clauses of a switch. -/
def outlineClauses (layout : Layout) : List Clause → List Outline
  | [] => []
  | .case_ s v body :: cs =>
    .node .case_ ⟨s, none, none⟩ "" (v.outline layout :: outlineStmts layout body) ::
      outlineClauses layout cs
  | .default_ s body :: cs =>
    .node .default_ ⟨s, none, none⟩ "" (outlineStmts layout body) :: outlineClauses layout cs

/-- The outlines of exception handlers. -/
def outlineCatches (layout : Layout) : List Catch → List Outline
  | [] => []
  | ⟨s, type, name, body⟩ :: cs =>
    .node .catch_ ⟨s, none, none⟩ (Text.trim (type ++ " " ++ name)) [body.outline layout] ::
      outlineCatches layout cs

/-- The outlines of methods. -/
def outlineMethods (layout : Layout) : List Method → List Outline
  | [] => []
  | ⟨s, name, params, result, body, isStatic, isOverride⟩ :: ms =>
    .node .methodDecl ⟨s, none, none⟩ (Method.detail isStatic isOverride name params result)
      [body.outline layout] :: outlineMethods layout ms

/-- The outlines of constructors. -/
def outlineCtors (layout : Layout) : List Ctor → List Outline
  | [] => []
  | ⟨s, params, body⟩ :: cs =>
    .node .ctorDecl ⟨s, none, none⟩ (paramsDetail params) [body.outline layout] ::
      outlineCtors layout cs

end

/-- The outline of a program: a block of its items. -/
def Program.outline (layout : Layout) (p : Program) : Outline :=
  .node .block ⟨p.span, none, none⟩ "" (outlineStmts layout p.items)

namespace Outline

mutual

/-- The lines of a listing, the node at the given depth. -/
def lines (depth : Nat) : Outline → List String
  | node kind info detail below =>
    (Text.repeated (2 * depth) ' ' ++ kind.name ++
      (if detail.isEmpty then "" else " " ++ detail) ++
      (match info.resolved with
      | some s => " : " ++ s.name
      | none => "")) :: linesOf (depth + 1) below

/-- The lines of several nodes. -/
def linesOf (depth : Nat) : List Outline → List String
  | [] => []
  | o :: os => o.lines depth ++ linesOf depth os

end

mutual

/-- Every node's kind and info, each before those below it. -/
def preorder : Outline → List (NodeKind × Info)
  | node kind info _ below => (kind, info) :: preorderOf below

/-- Every node of several outlines. -/
def preorderOf : List Outline → List (NodeKind × Info)
  | [] => []
  | o :: os => o.preorder ++ preorderOf os

end

end Outline

/-- The listing of a program, a line for each node. -/
def Program.listing (p : Program) : List String := (p.outline .listing).lines 0

/-- Every node of a program with what is known about it, in the order of a walk. -/
def Program.nodes (p : Program) : List (NodeKind × Info) := (p.outline .walk).preorder

end Lantern
