import Mathlib
import Lantern.Emit.Names
import Lantern.Library
import Lantern.Proofs.Declared

/-!
# What names stand for

A name stands for the variable of the innermost scope that holds it, for a global variable, or for a
class; a call may also go to a function of the program or the library. A tree resolves where each of its
names stands for something, and `break` and `continue` have something to leave.
-/

namespace Lantern

/-- The names declared in the scopes around a place in a routine, innermost scope first. -/
abbrev Scopes := List (List String)

/-- What names may stand for besides the variables of scopes. -/
structure Setting where
  /-- The classes of the program. -/
  classes : ClassTable
  /-- Names of its functions. -/
  funcs : List String
  /-- Names of its global variables. -/
  globals : List String
  /-- Whether the place is inside a routine, so that declared variables are not global. -/
  inRoutine : Bool
  /-- Whether there is a receiver. -/
  receiver : Bool
  /-- Whether a loop or switch is around. -/
  breaks : Bool
  /-- Whether a loop is around. -/
  continues : Bool

namespace Setting

/-- Inside the body of a loop. -/
def inLoop (C : Setting) : Setting := { C with breaks := true, continues := true }

/-- Inside a switch. -/
def inSwitch (C : Setting) : Setting := { C with breaks := true }

/-- A name stands for a variable. -/
def Knows (C : Setting) (V : Scopes) (name : String) : Prop :=
  (C.receiver ∧ name = "this") ∨ name ∈ V.flatten ∨ name ∈ C.globals

/-- A call by name has something to call. -/
def Calls (C : Setting) (V : Scopes) (name : String) (count : Nat) : Prop :=
  C.Knows V name ∨ match LibFunc.ofName? name with
    | some f => count = f.arity
    | none => name ∈ C.funcs

/-- The method called on a class is one of its static methods. -/
def Sends (C : Setting) (V : Scopes) (receiver : Expr) (name : String) : Prop :=
  match receiver with
  | .ident _ cls => C.Knows V cls ∨ (C.classes.staticMethod? cls name).isSome
  | _ => True

theorem sends_iff {C : Setting} {V : Scopes} {receiver : Expr} {name : String} :
    C.Sends V receiver name ↔ ∀ i cls, receiver = .ident i cls →
      C.Knows V cls ∨ (C.classes.staticMethod? cls name).isSome := by
  cases receiver <;> simp [Sends]

end Setting

/-! ## Trees -/

mutual

/-- Every name of an expression stands for something. -/
def Expr.Resolves (C : Setting) (V : Scopes) : Expr → Prop
  | .number .. | .bool .. | .str .. => True
  | .ident _ name => C.Knows V name ∨ C.classes.has name
  | .binary _ _ l r => l.Resolves C V ∧ r.Resolves C V
  | .unary _ _ e => e.Resolves C V
  | .ternary _ c a b => c.Resolves C V ∧ a.Resolves C V ∧ b.Resolves C V
  | .list _ es => allResolve C V es
  | .map _ es => entriesResolve C V es
  | .index _ b k => b.Resolves C V ∧ k.Resolves C V
  | .member _ o _ => o.Resolves C V
  | .call _ callee args => C.Calls V callee args.length ∧ allResolve C V args
  | .method _ r name args => C.Sends V r name ∧ r.Resolves C V ∧ allResolve C V args
  | .new_ _ _ args => allResolve C V args
  | .super _ => C.receiver
  | .step _ _ _ t => t.isLValue ∧ t.Resolves C V
  | .funcRef _ name => name ∈ C.funcs

/-- Every name of some expressions stands for something. -/
def allResolve (C : Setting) (V : Scopes) : List Expr → Prop
  | [] => True
  | e :: es => e.Resolves C V ∧ allResolve C V es

/-- Every name of the entries of a map literal stands for something. -/
def entriesResolve (C : Setting) (V : Scopes) : List (Expr × Expr) → Prop
  | [] => True
  | (k, v) :: es => k.Resolves C V ∧ v.Resolves C V ∧ entriesResolve C V es

end

theorem entriesResolve_iff {C : Setting} {V : Scopes} {es : List (Expr × Expr)} :
    entriesResolve C V es ↔ (∀ e ∈ es, e.1.Resolves C V) ∧ ∀ e ∈ es, e.2.Resolves C V := by
  induction es with
  | nil => simp [entriesResolve]
  | cons e es ih =>
      rw [entriesResolve, ih, List.forall_mem_cons, List.forall_mem_cons]
      tauto

/-- What is assigned to exists as far as can be told: what expressions yield has the elements and fields
    that are asked for, and a class has the static field. -/
structure Setting.Targets (C : Setting) (V : Scopes) (base key : Expr) : Prop where
  first : base.Resolves C V
  second : key.Resolves C V
  static : ∀ i j cls field, base = .ident i cls → key = .str j field →
    C.Knows V cls ∨ (C.classes.staticField? cls field).isSome

/-- The names a statement declares in the scope it stands in, latest first. -/
def Stmt.declares : Stmt → List String
  | .varDecl _ name _ _ => [name]
  | .ifElse _ _ a b => (match b with
    | some b => b.declares
    | none => []) ++ a.declares
  | .while_ _ _ body | .doWhile _ body _ => body.declares
  | .try_ _ body _ last => (match last with
    | some l => l.declares
    | none => []) ++ body.declares
  | _ => []

namespace Scopes

/-- More names in the innermost scope. -/
def add (names : List String) (V : Scopes) : Scopes := V.modifyHead (names ++ ·)

/-- The scopes behind a statement, which is in a routine or not. Outside of routines variables are
    global. -/
def behind (V : Scopes) (inRoutine : Bool) (s : Stmt) : Scopes :=
  if inRoutine then V.add s.declares else V

/-- The scopes behind a statement that may be missing. -/
def behindOption (V : Scopes) (inRoutine : Bool) : Option Stmt → Scopes
  | some s => V.behind inRoutine s
  | none => V

/-- The scopes behind statements. -/
def behindAll (V : Scopes) (inRoutine : Bool) (ss : List Stmt) : Scopes :=
  ss.foldl (fun V s => V.behind inRoutine s) V

variable {V : Scopes} {inRoutine : Bool}

theorem add_add (V : Scopes) (names more : List String) : (V.add names).add more = V.add (more ++ names) := by
  cases V <;> simp [add]

theorem behind_eq {s : Stmt} (none_ : s.declares = []) : V.behind inRoutine s = V := by
  rw [behind, none_]
  cases V <;> simp [add]

theorem behindOption_eq {o : Option Stmt} (simple : ∀ s ∈ o, s.isSimple) : V.behindOption inRoutine o = V := by
  cases o with
  | none => rfl
  | some s =>
      have simple := simple s rfl
      refine behind_eq ?_
      cases s <;> first | rfl | cases simple

theorem behind_behind {a b s : Stmt} (both : s.declares = b.declares ++ a.declares) :
    (V.behind inRoutine a).behind inRoutine b = V.behind inRoutine s := by
  cases inRoutine
  · rfl
  · show (V.add a.declares).add b.declares = V.add s.declares
    rw [add_add, both]

theorem exists_behind (names : List String) (V : Scopes) (inRoutine : Bool) (s : Stmt) :
    ∃ more, behind (names :: V) inRoutine s = more :: V := by
  cases inRoutine <;> exact ⟨_, rfl⟩

theorem exists_behindOption (names : List String) (V : Scopes) (inRoutine : Bool) (o : Option Stmt) :
    ∃ more, behindOption (names :: V) inRoutine o = more :: V := by
  cases o with
  | none => exact ⟨names, rfl⟩
  | some s => exact exists_behind names V inRoutine s

theorem exists_behindAll (names : List String) (V : Scopes) (inRoutine : Bool) (ss : List Stmt) :
    ∃ more, behindAll (names :: V) inRoutine ss = more :: V := by
  induction ss generalizing names with
  | nil => exact ⟨names, rfl⟩
  | cons s ss ih =>
      obtain ⟨more, eq⟩ := exists_behind names V inRoutine s
      obtain ⟨more', eq'⟩ := ih more
      exact ⟨more', (congrArg (behindAll · inRoutine ss) eq).trans eq'⟩

/-- The scopes behind clauses. -/
def behindClauses (V : Scopes) (inRoutine : Bool) : List Clause → Scopes
  | [] => V
  | .case_ _ _ body :: cs | .default_ _ body :: cs => behindClauses (V.behindAll inRoutine body) inRoutine cs

theorem exists_behindClauses (names : List String) (V : Scopes) (inRoutine : Bool) (cs : List Clause) :
    ∃ more, behindClauses (names :: V) inRoutine cs = more :: V := by
  induction cs generalizing names with
  | nil => exact ⟨names, rfl⟩
  | cons c cs ih =>
      cases c with
      | case_ s v body | default_ s body =>
          obtain ⟨more, eq⟩ := exists_behindAll names V inRoutine body
          obtain ⟨more', eq'⟩ := ih more
          exact ⟨more', (congrArg (behindClauses · inRoutine cs) eq).trans eq'⟩

theorem behindAll_ne_nil (nonempty : V ≠ []) (ss : List Stmt) : V.behindAll inRoutine ss ≠ [] := by
  obtain ⟨names, V, rfl⟩ := List.exists_cons_of_ne_nil nonempty
  obtain ⟨more, eq⟩ := exists_behindAll names V inRoutine ss
  simp [eq]

theorem behind_ne_nil (nonempty : V ≠ []) (s : Stmt) : V.behind inRoutine s ≠ [] := by
  obtain ⟨names, V, rfl⟩ := List.exists_cons_of_ne_nil nonempty
  obtain ⟨more, eq⟩ := exists_behind names V inRoutine s
  simp [eq]

end Scopes

mutual

/-- Every name of a statement stands for something, and it leaves only what is around it. -/
def Stmt.Resolves (C : Setting) (V : Scopes) : Stmt → Prop
  | .print _ e | .expr _ e | .throw_ _ _ e => e.Resolves C V
  | .assign _ name e => e.Resolves C V ∧ C.Knows V name
  | .indexAssign _ b k e => C.Targets V b k ∧ e.Resolves C V
  | .varDecl _ _ _ init => ∀ e ∈ init, e.Resolves C V
  | .return_ _ value => ∀ e ∈ value, e.Resolves C V
  | .block _ body => stmtsResolve C ([] :: V) body
  | .ifElse _ c a b => c.Resolves C V ∧ a.Resolves C V ∧ (match b with
    | some b => b.Resolves C (V.behind C.inRoutine a)
    | none => True)
  | .while_ _ c body => c.Resolves C V ∧ body.Resolves C.inLoop V
  | .doWhile _ body c => body.Resolves C.inLoop V ∧ c.Resolves C (V.behind C.inRoutine body)
  | .for_ _ init cond post body =>
    let inside := Scopes.behindOption ([] :: V) C.inRoutine init
    (match init with
    | some i => i.Resolves C ([] :: V)
    | none => True) ∧ (∀ e ∈ cond, e.Resolves C inside) ∧ (match post with
    | some p => p.isSimple ∧ p.Resolves C inside
    | none => True) ∧ body.Resolves C.inLoop inside
  | .switch _ e cs => e.Resolves C V ∧ clausesResolve C.inSwitch ([] :: V) cs
  | .break_ _ => C.breaks
  | .continue_ _ => C.continues
  | .try_ _ body cs last => body.Resolves C V ∧ catchesResolve C (V.behind C.inRoutine body) cs ∧ (match last with
    | some l => l.Resolves C (V.behind C.inRoutine body)
    | none => True)
  | .func _ | .class_ _ | .bare _ | .printStmt .. => False

/-- Every name of some statements stands for something. -/
def stmtsResolve (C : Setting) (V : Scopes) : List Stmt → Prop
  | [] => True
  | s :: ss => s.Resolves C V ∧ stmtsResolve C (V.behind C.inRoutine s) ss

/-- Every name of the clauses of a switch stands for something. -/
def clausesResolve (C : Setting) (V : Scopes) : List Clause → Prop
  | [] => True
  | .case_ _ v body :: cs =>
    v.Resolves C V ∧ stmtsResolve C V body ∧ clausesResolve C (V.behindAll C.inRoutine body) cs
  | .default_ _ body :: cs => stmtsResolve C V body ∧ clausesResolve C (V.behindAll C.inRoutine body) cs

/-- Every name of some handlers stands for something. -/
def catchesResolve (C : Setting) (V : Scopes) : List Catch → Prop
  | [] => True
  | ⟨_, _, name, body⟩ :: cs => body.Resolves C ([name] :: V) ∧ catchesResolve C V cs

end

theorem Stmt.resolves_for_iff {C : Setting} {V : Scopes} {s : Span} {init post : Option Stmt}
    {cond : Option Expr} {body : Stmt} : (Stmt.for_ s init cond post body).Resolves C V ↔
      (∀ i ∈ init, i.Resolves C ([] :: V)) ∧
      (∀ e ∈ cond, e.Resolves C (Scopes.behindOption ([] :: V) C.inRoutine init)) ∧
      (∀ p ∈ post, p.isSimple ∧ p.Resolves C (Scopes.behindOption ([] :: V) C.inRoutine init)) ∧
      body.Resolves C.inLoop (Scopes.behindOption ([] :: V) C.inRoutine init) := by
  cases init <;> cases post <;> simp [Stmt.Resolves]

/-! ## Records do not matter -/

theorem Stmt.isSimple_erase (s : Stmt) : s.erase.isSimple = s.isSimple := by
  cases s with
  | func f => cases f; rfl
  | class_ c => cases c; rfl
  | ifElse => rw [Stmt.erase_ifElse]; rfl
  | for_ => rw [Stmt.erase_for]; rfl
  | try_ => rw [Stmt.erase_try]; rfl
  | _ => rfl

theorem Setting.sends_erase (C : Setting) (V : Scopes) (r : Expr) (name : String) :
    C.Sends V r.erase name ↔ C.Sends V r name := by cases r <;> exact Iff.rfl

mutual

theorem Expr.resolves_erase (C : Setting) (V : Scopes) (e : Expr) :
    e.erase.Resolves C V ↔ e.Resolves C V := by
  cases e with
  | number | bool | str | ident | super | funcRef => exact Iff.rfl
  | binary i op l r =>
      simp only [Expr.erase, Expr.Resolves, Expr.resolves_erase C V l, Expr.resolves_erase C V r]
  | unary i op e => simp only [Expr.erase, Expr.Resolves, Expr.resolves_erase C V e]
  | ternary i c a b =>
      simp only [Expr.erase, Expr.Resolves, Expr.resolves_erase C V c, Expr.resolves_erase C V a,
        Expr.resolves_erase C V b]
  | list i es => simp only [Expr.erase, Expr.Resolves, allResolve_erase C V es]
  | map i es => simp only [Expr.erase, Expr.Resolves, entriesResolve_erase C V es]
  | index i b k =>
      simp only [Expr.erase, Expr.Resolves, Expr.resolves_erase C V b, Expr.resolves_erase C V k]
  | member i o name => simp only [Expr.erase, Expr.Resolves, Expr.resolves_erase C V o]
  | call i callee args =>
      have count : (eraseExprs args).length = args.length := by rw [eraseExprs_eq, List.length_map]
      simp only [Expr.erase, Expr.Resolves, allResolve_erase C V args, count]
  | method i r name args =>
      simp only [Expr.erase, Expr.Resolves, C.sends_erase, Expr.resolves_erase C V r,
        allResolve_erase C V args]
  | new_ i cls args => simp only [Expr.erase, Expr.Resolves, allResolve_erase C V args]
  | step i op first t =>
      simp only [Expr.erase, Expr.Resolves, Expr.isLValue_erase, Expr.resolves_erase C V t]

theorem allResolve_erase (C : Setting) (V : Scopes) (es : List Expr) :
    allResolve C V (eraseExprs es) ↔ allResolve C V es := by
  match es with
  | [] => exact Iff.rfl
  | e :: es => simp only [eraseExprs, allResolve, Expr.resolves_erase C V e, allResolve_erase C V es]

theorem entriesResolve_erase (C : Setting) (V : Scopes) (es : List (Expr × Expr)) :
    entriesResolve C V (eraseEntries es) ↔ entriesResolve C V es := by
  match es with
  | [] => exact Iff.rfl
  | (k, v) :: es =>
      simp only [eraseEntries, entriesResolve, Expr.resolves_erase C V k, Expr.resolves_erase C V v,
        entriesResolve_erase C V es]

end

theorem Expr.resolves_eraseOption (C : Setting) (V : Scopes) (o : Option Expr) :
    (∀ e ∈ o.map Expr.erase, e.Resolves C V) ↔ ∀ e ∈ o, e.Resolves C V := by
  cases o with
  | none => simp
  | some e => simp [Expr.resolves_erase]

theorem Setting.targets_erase (C : Setting) (V : Scopes) (base key : Expr) :
    C.Targets V base.erase key.erase ↔ C.Targets V base key := by
  constructor
  · rintro ⟨first, second, static⟩
    refine ⟨(Expr.resolves_erase C V base).mp first, (Expr.resolves_erase C V key).mp second, ?_⟩
    rintro i j cls field rfl rfl
    exact static _ _ cls field rfl rfl
  · rintro ⟨first, second, static⟩
    refine ⟨(Expr.resolves_erase C V base).mpr first, (Expr.resolves_erase C V key).mpr second, ?_⟩
    intro i j cls field isName isText
    cases base <;> cases isName
    cases key <;> cases isText
    exact static _ _ cls field rfl rfl

theorem Stmt.declares_erase (s : Stmt) : s.erase.declares = s.declares := by
  cases s with
  | ifElse s c a b =>
      cases b with
      | none => simp only [Stmt.erase, declares, Stmt.declares_erase a]
      | some b => simp only [Stmt.erase, declares, Stmt.declares_erase a, Stmt.declares_erase b]
  | while_ s c body | doWhile s body c => simp only [Stmt.erase, declares, Stmt.declares_erase body]
  | try_ s body cs last =>
      cases last with
      | none => simp only [Stmt.erase, declares, Stmt.declares_erase body]
      | some l => simp only [Stmt.erase, declares, Stmt.declares_erase body, Stmt.declares_erase l]
  | for_ s init cond post body => rw [Stmt.erase_for]; rfl
  | func f => cases f; rfl
  | class_ c => cases c; rfl
  | _ => rfl

namespace Scopes

theorem behind_erase (V : Scopes) (inRoutine : Bool) (s : Stmt) :
    V.behind inRoutine s.erase = V.behind inRoutine s := by
  rw [behind, behind, Stmt.declares_erase]

theorem behindAll_erase (V : Scopes) (inRoutine : Bool) (ss : List Stmt) :
    V.behindAll inRoutine (eraseStmts ss) = V.behindAll inRoutine ss := by
  induction ss generalizing V with
  | nil => rfl
  | cons s ss ih =>
      show (V.behind inRoutine s.erase).behindAll inRoutine (eraseStmts ss) =
        (V.behind inRoutine s).behindAll inRoutine ss
      rw [behind_erase, ih]

end Scopes

mutual

theorem Stmt.resolves_erase (C : Setting) (V : Scopes) (s : Stmt) :
    s.erase.Resolves C V ↔ s.Resolves C V := by
  cases s with
  | print s e | expr s e | throw_ s type e =>
      simp only [Stmt.erase, Stmt.Resolves, Expr.resolves_erase]
  | assign s name e => simp only [Stmt.erase, Stmt.Resolves, Expr.resolves_erase]
  | indexAssign s b k e => simp only [Stmt.erase, Stmt.Resolves, C.targets_erase, Expr.resolves_erase]
  | varDecl s name type init => simp only [Stmt.erase, Stmt.Resolves, Expr.resolves_eraseOption]
  | return_ s value => simp only [Stmt.erase, Stmt.Resolves, Expr.resolves_eraseOption]
  | block s body => simp only [Stmt.erase, Stmt.Resolves, stmtsResolve_erase C _ body]
  | ifElse s c a b =>
      cases b with
      | none => simp only [Stmt.erase, Stmt.Resolves, Expr.resolves_erase, Stmt.resolves_erase C _ a]
      | some b =>
          simp only [Stmt.erase, Stmt.Resolves, Expr.resolves_erase, Stmt.resolves_erase C _ a,
            Scopes.behind_erase, Stmt.resolves_erase C _ b]
  | while_ s c body =>
      simp only [Stmt.erase, Stmt.Resolves, Expr.resolves_erase, Stmt.resolves_erase _ _ body]
  | doWhile s body c =>
      simp only [Stmt.erase, Stmt.Resolves, Expr.resolves_erase, Scopes.behind_erase,
        Stmt.resolves_erase _ _ body]
  | for_ s init cond post body =>
      cases init with
      | none =>
          cases post with
          | none =>
              simp only [Stmt.erase, Stmt.Resolves, Scopes.behindOption, Expr.resolves_eraseOption,
                Stmt.resolves_erase _ _ body]
          | some p =>
              simp only [Stmt.erase, Stmt.Resolves, Scopes.behindOption, Expr.resolves_eraseOption,
                Stmt.isSimple_erase, Stmt.resolves_erase _ _ p, Stmt.resolves_erase _ _ body]
      | some i =>
          cases post with
          | none =>
              simp only [Stmt.erase, Stmt.Resolves, Scopes.behindOption, Expr.resolves_eraseOption,
                Scopes.behind_erase, Stmt.resolves_erase _ _ i, Stmt.resolves_erase _ _ body]
          | some p =>
              simp only [Stmt.erase, Stmt.Resolves, Scopes.behindOption, Expr.resolves_eraseOption,
                Scopes.behind_erase, Stmt.isSimple_erase, Stmt.resolves_erase _ _ i,
                Stmt.resolves_erase _ _ p, Stmt.resolves_erase _ _ body]
  | switch s e cs => simp only [Stmt.erase, Stmt.Resolves, Expr.resolves_erase, clausesResolve_erase _ _ cs]
  | break_ | continue_ => exact Iff.rfl
  | try_ s body cs last =>
      cases last with
      | none =>
          simp only [Stmt.erase, Stmt.Resolves, Scopes.behind_erase, Stmt.resolves_erase C _ body,
            catchesResolve_erase C _ cs]
      | some l =>
          simp only [Stmt.erase, Stmt.Resolves, Scopes.behind_erase, Stmt.resolves_erase C _ body,
            catchesResolve_erase C _ cs, Stmt.resolves_erase C _ l]
  | func f => cases f; exact Iff.rfl
  | class_ c => cases c; exact Iff.rfl
  | bare | printStmt => exact Iff.rfl

theorem stmtsResolve_erase (C : Setting) (V : Scopes) (ss : List Stmt) :
    stmtsResolve C V (eraseStmts ss) ↔ stmtsResolve C V ss := by
  match ss with
  | [] => exact Iff.rfl
  | s :: ss =>
      simp only [eraseStmts, stmtsResolve, Scopes.behind_erase, Stmt.resolves_erase C V s,
        stmtsResolve_erase C _ ss]

theorem clausesResolve_erase (C : Setting) (V : Scopes) (cs : List Clause) :
    clausesResolve C V (eraseClauses cs) ↔ clausesResolve C V cs := by
  match cs with
  | [] => exact Iff.rfl
  | .case_ s v body :: cs =>
      simp only [eraseClauses, clausesResolve, Scopes.behindAll_erase, Expr.resolves_erase,
        stmtsResolve_erase C V body, clausesResolve_erase C _ cs]
  | .default_ s body :: cs =>
      simp only [eraseClauses, clausesResolve, Scopes.behindAll_erase, stmtsResolve_erase C V body,
        clausesResolve_erase C _ cs]

theorem catchesResolve_erase (C : Setting) (V : Scopes) (cs : List Catch) :
    catchesResolve C V (eraseCatches cs) ↔ catchesResolve C V cs := by
  match cs with
  | [] => exact Iff.rfl
  | ⟨s, type, name, body⟩ :: cs =>
      simp only [eraseCatches, catchesResolve, Stmt.resolves_erase C _ body, catchesResolve_erase C V cs]

end

/-! ## Items of programs -/

namespace Setting

/-- Inside a routine, which has a receiver or not. -/
def inside (C : Setting) (receiver : Bool) : Setting := { C with inRoutine := true, receiver := receiver }

/-- Outside of routines. -/
def outside (C : Setting) : Setting :=
  { C with inRoutine := false, receiver := false, breaks := false, continues := false }

end Setting

/-- The names declared where the body of a routine starts. -/
def Scopes.entry (receiver : Bool) (params : List Param) : Scopes :=
  [(params.map Param.name).reverse ++ if receiver then ["this"] else []]

/-- Every name of the members of a class stands for something. Initial values of fields stand in no
    routine. -/
structure ClassDecl.Resolves (C : Setting) (c : ClassDecl) : Prop where
  fields : ∀ f ∈ c.fields, ∀ e ∈ f.init, e.Resolves C []
  methods : ∀ m ∈ c.methods,
    m.body.Resolves (C.inside !m.isStatic) (Scopes.entry (!m.isStatic) m.params)
  ctors : ∀ k ∈ c.ctors, k.body.Resolves (C.inside true) (Scopes.entry true k.params)

/-- Every name of an item of a program stands for something. -/
def Stmt.ItemResolves (C : Setting) : Stmt → Prop
  | .func f => f.body.Resolves (C.inside false) (Scopes.entry false f.params)
  | .class_ c => c.Resolves C
  | s => s.Resolves C []

theorem ClassDecl.resolves_erase {C : Setting} {c : ClassDecl} : c.erase.Resolves C ↔ c.Resolves C := by
  constructor
  · rintro ⟨fields, methods, ctors⟩
    refine ⟨fun f mem => ?_, fun m mem => ?_, fun k mem => ?_⟩
    · exact (Expr.resolves_eraseOption C [] f.init).mp (fields f.erase (List.mem_map_of_mem mem))
    · exact (Stmt.resolves_erase _ _ m.body).mp (methods m.erase (List.mem_map_of_mem mem))
    · exact (Stmt.resolves_erase _ _ k.body).mp (ctors k.erase (List.mem_map_of_mem mem))
  · rintro ⟨fields, methods, ctors⟩
    constructor <;> refine List.forall_mem_map.mpr fun x mem => ?_
    · exact (Expr.resolves_eraseOption C [] x.init).mpr (fields x mem)
    · exact (Stmt.resolves_erase _ _ x.body).mpr (methods x mem)
    · exact (Stmt.resolves_erase _ _ x.body).mpr (ctors x mem)

theorem Stmt.isDecl_erase (s : Stmt) : s.erase.isDecl = s.isDecl := by
  cases s with
  | func f => cases f; rfl
  | class_ c => cases c; rfl
  | ifElse => rw [Stmt.erase_ifElse]; rfl
  | for_ => rw [Stmt.erase_for]; rfl
  | try_ => rw [Stmt.erase_try]; rfl
  | _ => rfl

theorem Stmt.itemResolves_iff {C : Setting} {s : Stmt} (plain : s.isDecl = false) :
    s.ItemResolves C ↔ s.Resolves C [] := by
  cases s <;> first | exact Iff.rfl | cases plain

theorem Stmt.itemResolves_erase {C : Setting} {s : Stmt} : s.erase.ItemResolves C ↔ s.ItemResolves C := by
  cases plain : s.isDecl with
  | false => rw [itemResolves_iff plain, itemResolves_iff (s.isDecl_erase.trans plain), Stmt.resolves_erase]
  | true =>
      cases s with
      | func f => cases f; exact Stmt.resolves_erase _ _ _
      | class_ c => rw [Stmt.erase_class]; exact ClassDecl.resolves_erase
      | _ => cases plain

/-- Records do not matter to what the names of a program stand for. -/
theorem itemResolves_of_erase {C : Setting} {ss ss' : List Stmt} (same : eraseStmts ss' = eraseStmts ss)
    (resolves : ∀ s ∈ ss, s.ItemResolves C) : ∀ s ∈ ss', s.ItemResolves C := by
  intro s mem
  have erased : s.erase ∈ ss.map Stmt.erase := by
    rw [← eraseStmts_eq, ← same, eraseStmts_eq]
    exact List.mem_map_of_mem mem
  obtain ⟨s', own, eq⟩ := List.mem_map.mp erased
  rw [← Stmt.itemResolves_erase, ← eq, Stmt.itemResolves_erase]
  exact resolves s' own

end Lantern
