import Lantern.Emit.Layout
import Lantern.Hints

/-!
# Names and literals of a program

Gathered before any code is generated: the words of the data section, and the literal pool in the
order in which a walk over the program meets its strings.
-/

namespace Lantern.Emit

/-- The exception type of a throw that names none. -/
def defaultExceptionType : String := "Exception"

mutual

/-- The names a statement declares or assigns to, at any depth. -/
def assignedNames : Stmt → List String
  | .varDecl _ name _ _ => [name]
  | .assign _ name _ => [name]
  | .printStmt _ b => assignedNames b
  | .block _ body => assignedNamesOf body
  | .ifElse _ _ a b => assignedNames a ++ (match b with
    | some b => assignedNames b
    | none => [])
  | .while_ _ _ body => assignedNames body
  | .doWhile _ body _ => assignedNames body
  | .for_ _ init _ post body =>
    (match init with
    | some i => assignedNames i
    | none => []) ++
    (match post with
    | some p => assignedNames p
    | none => []) ++ assignedNames body
  | .switch _ _ cs => assignedInClauses cs
  | .try_ _ body cs last =>
    assignedNames body ++ assignedInCatches cs ++ (match last with
    | some l => assignedNames l
    | none => [])
  | .func ⟨_, _, _, _, body⟩ => assignedNames body
  | .class_ ⟨_, _, _, _, methods, ctors⟩ => assignedInMethods methods ++ assignedInCtors ctors
  | .print .. | .expr .. | .bare .. | .indexAssign .. | .break_ .. | .continue_ .. | .return_ ..
  | .throw_ .. => []

/-- The names statements declare or assign to. -/
def assignedNamesOf : List Stmt → List String
  | [] => []
  | s :: ss => assignedNames s ++ assignedNamesOf ss

/-- The names the clauses of a switch declare or assign to. -/
def assignedInClauses : List Clause → List String
  | [] => []
  | .case_ _ _ body :: cs => assignedNamesOf body ++ assignedInClauses cs
  | .default_ _ body :: cs => assignedNamesOf body ++ assignedInClauses cs

/-- The names handlers declare or assign to. -/
def assignedInCatches : List Catch → List String
  | [] => []
  | ⟨_, _, name, body⟩ :: cs => name :: assignedNames body ++ assignedInCatches cs

/-- The names methods declare or assign to. -/
def assignedInMethods : List Method → List String
  | [] => []
  | ⟨_, _, _, _, body, _, _⟩ :: ms => assignedNames body ++ assignedInMethods ms

/-- The names constructors declare or assign to. -/
def assignedInCtors : List Ctor → List String
  | [] => []
  | ⟨_, _, body⟩ :: ks => assignedNames body ++ assignedInCtors ks

end

/-- The words of a program's data section: its globals, whether declared or only assigned to at the
    top level, then the method table and static fields of each class. -/
def globalWords (hints : Hints) (classes : ClassTable) (items : List Stmt) : List String :=
  let names := hints.globals ++ assignedNamesOf (items.filter (!·.isDecl))
  (names.map SymbolName.globalVar ++ classes.flatMap fun c =>
    SymbolName.methodTable c.name :: (c.fields.filter Field.isStatic).map fun f =>
      SymbolName.staticField c.name f.name).foldl addNew []

/-- Where a walk over the program stands: the classes and data words of the program, and the name of
    the class around; empty if there is none. -/
structure Surroundings where
  /-- The classes of the program. -/
  classes : ClassTable
  /-- The words of its data section. -/
  words : List String
  /-- The class around. -/
  cls : String

namespace Surroundings

/-- Whether an expression is a bare name of a class. -/
def isClassRef (w : Surroundings) : Expr → Bool
  | .ident _ name => !w.words.contains (SymbolName.globalVar name) && w.classes.has name
  | _ => false

/-- The strings a method call needs besides those of its operands. -/
def methodStrings (w : Surroundings) (receiver : Expr) (name : String) : List String :=
  match receiver with
  | .super _ => if w.cls.isEmpty then [] else [SymbolName.superKey w.cls name]
  | _ => if w.isClassRef receiver then [] else [SymbolName.methodTableKey, name]

/-- The strings a class needs besides those of its members. -/
def classStrings (w : Surroundings) (cls : String) : List String :=
  SymbolName.methodTableKey :: (w.classes.flatFields cls).map Field.name ++
    (w.classes.flatMethods cls).map MethodEntry.key ++
    (w.classes.superEntries cls).map MethodEntry.key

end Surroundings

/-- The string that a declaration without a value starts with. -/
def defaultStrings (type : Option Sigil) (init : Option Expr) : List String :=
  if init.isNone && (type.map Sigil.isStr).getD false then [""] else []

mutual

/-- The strings of an expression, in the order of a walk. -/
def exprStrings (w : Surroundings) : Expr → List String
  | .str _ v => [v]
  | .binary _ _ l r => exprStrings w l ++ exprStrings w r
  | .unary _ _ e => exprStrings w e
  | .ternary _ c a b => exprStrings w c ++ exprStrings w a ++ exprStrings w b
  | .list _ es => exprsStrings w es
  | .map _ es => entriesStrings w es
  | .index _ b k => exprStrings w b ++ exprStrings w k
  | .member _ o name => name :: exprStrings w o
  | .call _ _ args => exprsStrings w args
  | .method _ r name args => w.methodStrings r name ++ exprStrings w r ++ exprsStrings w args
  | .new_ _ _ args => exprsStrings w args
  | .step _ _ _ t => exprStrings w t
  | .number .. | .bool .. | .ident .. | .super .. | .funcRef .. => []

/-- The strings of expressions. -/
def exprsStrings (w : Surroundings) : List Expr → List String
  | [] => []
  | e :: es => exprStrings w e ++ exprsStrings w es

/-- The strings of the entries of a map literal. -/
def entriesStrings (w : Surroundings) : List (Expr × Expr) → List String
  | [] => []
  | (k, v) :: es => exprStrings w k ++ exprStrings w v ++ entriesStrings w es

end

/-- The strings of an expression that may be missing. -/
def optionStrings (w : Surroundings) (e : Option Expr) : List String :=
  e.toList.flatMap (exprStrings w)

/-- The strings of a field. -/
def fieldStrings (w : Surroundings) (f : Field) : List String :=
  defaultStrings f.type f.init ++ optionStrings w f.init

mutual

/-- The strings of a statement, in the order of a walk. -/
def stmtStrings (w : Surroundings) : Stmt → List String
  | .print _ e => exprStrings w e
  | .printStmt _ b => stmtStrings w b
  | .expr _ e => exprStrings w e
  | .bare e => exprStrings w e
  | .assign _ _ e => exprStrings w e
  | .indexAssign _ b k e => exprStrings w b ++ exprStrings w k ++ exprStrings w e
  | .varDecl _ _ type init => defaultStrings type init ++ optionStrings w init
  | .block _ body => stmtsStrings w body
  | .ifElse _ c a b => exprStrings w c ++ stmtStrings w a ++ (match b with
    | some b => stmtStrings w b
    | none => [])
  | .while_ _ c body => exprStrings w c ++ stmtStrings w body
  | .doWhile _ body c => stmtStrings w body ++ exprStrings w c
  | .for_ _ init cond post body =>
    (match init with
    | some i => stmtStrings w i
    | none => []) ++ optionStrings w cond ++
    (match post with
    | some p => stmtStrings w p
    | none => []) ++ stmtStrings w body
  | .switch _ e cs => exprStrings w e ++ clausesStrings w cs
  | .break_ _ | .continue_ _ => []
  | .return_ _ e => optionStrings w e
  | .throw_ _ type e =>
    (if !type.isEmpty then [type]
     else if e.sigil.isObject then []
     else [defaultExceptionType]) ++ exprStrings w e
  | .try_ _ body cs last =>
    stmtStrings w body ++ catchesStrings w cs ++ (match last with
    | some l => stmtStrings w l
    | none => [])
  | .func ⟨_, _, _, _, body⟩ => stmtStrings w body
  | .class_ ⟨_, name, _, fields, methods, ctors⟩ =>
    w.classStrings name ++ fields.flatMap (fieldStrings { w with cls := name }) ++
      methodsStrings { w with cls := name } methods ++ ctorsStrings { w with cls := name } ctors

/-- The strings of statements. -/
def stmtsStrings (w : Surroundings) : List Stmt → List String
  | [] => []
  | s :: ss => stmtStrings w s ++ stmtsStrings w ss

/-- The strings of the clauses of a switch. -/
def clausesStrings (w : Surroundings) : List Clause → List String
  | [] => []
  | .case_ _ v body :: cs => exprStrings w v ++ stmtsStrings w body ++ clausesStrings w cs
  | .default_ _ body :: cs => stmtsStrings w body ++ clausesStrings w cs

/-- The strings of handlers. -/
def catchesStrings (w : Surroundings) : List Catch → List String
  | [] => []
  | ⟨_, type, _, body⟩ :: cs =>
    (if type.isEmpty then [] else [type]) ++ stmtStrings w body ++ catchesStrings w cs

/-- The strings of methods. -/
def methodsStrings (w : Surroundings) : List Method → List String
  | [] => []
  | ⟨_, _, _, _, body, _, _⟩ :: ms => stmtStrings w body ++ methodsStrings w ms

/-- The strings of constructors. -/
def ctorsStrings (w : Surroundings) : List Ctor → List String
  | [] => []
  | ⟨_, _, body⟩ :: ks => stmtStrings w body ++ ctorsStrings w ks

end

/-- The literal pool of a program: its distinct strings in the order of first use. -/
def literalPool (classes : ClassTable) (words : List String) (items : List Stmt) : List String :=
  (stmtsStrings ⟨classes, words, ""⟩ items).foldl addNew []

mutual

/-- The names declared inside the body of a routine, in order. -/
def declaredNames : Stmt → List String
  | .varDecl _ name _ _ => [name]
  | .block _ body => declaredNamesOf body
  | .ifElse _ _ a b => declaredNames a ++ (match b with
    | some b => declaredNames b
    | none => [])
  | .while_ _ _ body => declaredNames body
  | .doWhile _ body _ => declaredNames body
  | .for_ _ init _ _ body =>
    (match init with
    | some i => declaredNames i
    | none => []) ++ declaredNames body
  | .switch _ _ cs => declaredInClauses cs
  | .try_ _ body cs last =>
    declaredNames body ++ declaredInCatches cs ++ (match last with
    | some l => declaredNames l
    | none => [])
  | _ => []

/-- The names declared in statements. -/
def declaredNamesOf : List Stmt → List String
  | [] => []
  | s :: ss => declaredNames s ++ declaredNamesOf ss

/-- The names declared in the clauses of a switch. -/
def declaredInClauses : List Clause → List String
  | [] => []
  | .case_ _ _ body :: cs => declaredNamesOf body ++ declaredInClauses cs
  | .default_ _ body :: cs => declaredNamesOf body ++ declaredInClauses cs

/-- The names declared in handlers. -/
def declaredInCatches : List Catch → List String
  | [] => []
  | ⟨_, _, name, body⟩ :: cs => name :: declaredNames body ++ declaredInCatches cs

end

end Lantern.Emit
