import Lantern.Proofs.Checking

/-!
# The course of checking

Whether a step of checking stops, what it gives and which state it leaves behind depends on the state it starts in
and not on what has been said before. Steps that follow each other may change a state as far as each of them may:
checking an expression changes nothing, and checking a whole program only adds to the globals and leaves the
declared results as they are.
-/

namespace Lantern.Check

variable {α β : Type}

/-- What a step gives from a state, and the state behind it, unless it stops. -/
def result? (x : Checking α) (st : State) : Option (α × State) :=
  (StateT.run (ExceptT.run (x.run st)) #[]).1.toOption

/-- A relation between an earlier and a later state that holds over several steps if it holds over each. -/
class Course (R : State → State → Prop) : Prop where
  refl : ∀ st, R st st
  trans : ∀ {st st' st''}, R st st' → R st' st'' → R st st''

/-- A relation that scopes do not matter for, and under which globals may be added and get types. -/
class Growth (R : State → State → Prop) : Prop extends Course R where
  scopes : ∀ st scopes, R st { st with scopes := scopes }
  globals : ∀ st name, R st { st with hints := st.hints.addGlobal name }
  types : ∀ st name t, R st { st with hints := { st.hints with globalTypes := st.hints.globalTypes.put name t } }

/-- A step goes the same way whatever has been said before, and its states are related. -/
class Steady (R : State → State → Prop) (x : Checking α) : Prop where
  blind : ∀ st log, (StateT.run (ExceptT.run (x.run st)) log).1.toOption = result? x st
  related : ∀ st a st', result? x st = some (a, st') → R st st'

section Steady

variable {R : State → State → Prop} {x : Checking α} {f : α → Checking β}

theorem Steady.gives (steady : Steady R x) (st : State) : (x.run st).Gives fun r => R st r.2 := by
  intro log r eq
  apply steady.related st r.1 r.2
  rw [← steady.blind st log, eq]
  rfl

theorem run_bind (st : State) (log : Array Diagnostic) (first : Steady R x) (rest : ∀ a, Steady R (f a)) :
    (StateT.run (ExceptT.run ((x >>= f).run st)) log).1.toOption =
      (result? x st).bind fun r => result? (f r.1) r.2 := by
  rw [StateT.run_bind, Checked.run_bind, ← first.blind st log]
  cases StateT.run (ExceptT.run (x.run st)) log with
  | mk r log' =>
      cases r with
      | ok r => exact (rest r.1).blind r.2 log'
      | error d => rfl

theorem result?_bind (st : State) (first : Steady R x) (rest : ∀ a, Steady R (f a)) :
    result? (x >>= f) st = (result? x st).bind fun r => result? (f r.1) r.2 :=
  run_bind st #[] first rest

theorem Steady.seq [Course R] (first : Steady R x) (rest : ∀ a, Steady R (f a)) : Steady R (x >>= f) where
  blind st log := (run_bind st log first rest).trans (result?_bind st first rest).symm
  related st b st' given := by
    rw [result?_bind st first rest] at given
    obtain ⟨r, before, behind⟩ := Option.bind_eq_some_iff.mp given
    exact Course.trans (first.related st r.1 r.2 before) ((rest r.1).related r.2 b st' behind)

/-- A step that neither stops nor reads what has been said. -/
theorem steady_of_run (given : State → α × State)
    (run : ∀ st log, ∃ log', StateT.run (ExceptT.run (x.run st)) log = (.ok (given st), log'))
    (related : ∀ st, R st (given st).2) : Steady R x := by
  have ends (st : State) (log : Array Diagnostic) :
      (StateT.run (ExceptT.run (x.run st)) log).1.toOption = some (given st) := by
    obtain ⟨log', eq⟩ := run st log
    rw [eq]
    rfl
  constructor
  · intro st log
    exact (ends st log).trans (ends st #[]).symm
  · intro st a st' eq
    have same : given st = (a, st') := Option.some.inj ((ends st #[]).symm.trans eq)
    simpa only [same] using related st

theorem steady_modify {f : State → State} (related : ∀ st, R st (f st)) : Steady R (modify f : Checking Unit) :=
  steady_of_run (fun st => ((), f st)) (fun _ log => ⟨log, rfl⟩) related

theorem steady_of_failing
    (run : ∀ st log, ∃ d log', StateT.run (ExceptT.run (x.run st)) log = (.error d, log')) : Steady R x := by
  have stops (st : State) (log : Array Diagnostic) :
      (StateT.run (ExceptT.run (x.run st)) log).1.toOption = none := by
    obtain ⟨d, log', eq⟩ := run st log
    rw [eq]
    rfl
  constructor
  · intro st log
    exact (stops st log).trans (stops st #[]).symm
  · intro st a st' eq
    cases (stops st #[]).symm.trans eq

variable [Course R]

instance (a : α) : Steady R (pure a : Checking α) :=
  steady_of_run (fun st => (a, st)) (fun _ log => ⟨log, rfl⟩) fun st => Course.refl st

instance (x : Checking α) (f : α → Checking β) [first : Steady R x] [rest : ∀ a, Steady R (f a)] :
    Steady R (x >>= f) :=
  first.seq rest

instance (f : α → β) (x : Checking α) [Steady R x] : Steady R (f <$> x) := by
  rw [← bind_pure_comp]
  infer_instance

instance (c : Prop) [Decidable c] (x y : Checking α) [Steady R x] [Steady R y] : Steady R (if c then x else y) := by
  split <;> infer_instance

instance : Steady R (get : Checking State) :=
  steady_of_run (fun st => (st, st)) (fun _ log => ⟨log, rfl⟩) fun st => Course.refl st

instance (at_ : Span) (message : String) : Steady R (fail at_ message : Checking α) :=
  steady_of_failing fun _ log => ⟨_, log, rfl⟩

instance (priority := 3000) (at_ : Span) (message : String) (f : α → Checking β) : Steady R (fail at_ message >>= f) :=
  steady_of_failing fun _ log => ⟨_, log, rfl⟩

instance (kind : Warning) (at_ : Span) (message : String) : Steady R (warn kind at_ message) :=
  steady_of_run (fun st => ((), st)) (fun _ log => ⟨log.push _, rfl⟩) fun st => Course.refl st

/-! ### Looking at scopes -/

instance (name : String) : Steady R (find? name) := by unfold find?; infer_instance

instance (name : String) : Steady R (isKnown name) := by unfold isKnown; infer_instance

instance (name : String) : Steady R (isLocal name) := by unfold isLocal; infer_instance

instance : Steady R atGlobalScope := by unfold atGlobalScope; infer_instance

/-! ### Expressions -/

variable (ctx : Context) (at_ : Span)

instance (want got : Option Sigil) (what : String) : Steady R (checkAssignable at_ want got what) := by
  unfold checkAssignable
  split
  · split <;> infer_instance
  · infer_instance

instance (name : String) : Steady R (identType ctx at_ name) := by
  have inner : Steady R (do
      match ← find? name with
      | some type => return type
      | none =>
        if ctx.classes.has name then return some (.object name)
        if (ctx.func? name).isSome then
          fail at_ ("Function '" ++ name ++ "' used as a value; take its address with '&" ++ name ++
            "'")
        fail at_ ("Undefined variable '" ++ name ++ "'") : Checking (Option Sigil)) := by
    refine .seq inferInstance fun found => ?_
    split <;> infer_instance
  unfold identType
  split
  · split
    · infer_instance
    · infer_instance
  · exact inner

instance (op : BinaryOp) (l r : Option Sigil) : Steady R (binaryType at_ op l r) := by
  unfold binaryType
  dsimp only
  split
  · infer_instance
  · split
    · split <;> infer_instance
    · infer_instance

instance (e : Expr) : Steady R (isClassRef e) := by
  unfold isClassRef
  split <;> infer_instance

instance (object : Expr) (type : Option Sigil) (name : String) : Steady R (memberType ctx at_ object type name) := by
  unfold memberType
  split
  · infer_instance
  · refine .seq inferInstance fun classRef => ?_
    split
    · infer_instance
    · dsimp only
      split
      · infer_instance
      · split <;> infer_instance

instance (m : Method) (count : Nat) : Steady R (callMethod at_ m count) := by unfold callMethod; infer_instance

instance (receiver : Expr) (type : Option Sigil) (name : String) (count : Nat) :
    Steady R (methodType ctx at_ receiver type name count) := by
  unfold methodType
  split
  · infer_instance
  · dsimp only
    refine .seq inferInstance fun classRef => ?_
    split
    · split <;> infer_instance
    · split <;> infer_instance

instance (ps : List Param) (args : List (Expr × Option Sigil)) : Steady R (checkArgs ps args) := by
  induction ps generalizing args with
  | nil => unfold checkArgs; infer_instance
  | cons p ps ih =>
      cases args with
      | nil => unfold checkArgs; infer_instance
      | cons a rest => unfold checkArgs; infer_instance

instance (name : String) (args : List (Expr × Option Sigil)) : Steady R (callType ctx at_ name args) := by
  unfold callType
  refine .seq inferInstance fun known => ?_
  split
  · infer_instance
  · split
    · infer_instance
    · split <;> infer_instance

instance (cls : String) (count : Nat) : Steady R (newType ctx at_ cls count) := by
  unfold newType
  split <;> infer_instance

instance (key : Expr) (type : Option Sigil) : Steady R (checkKey key type) := by
  unfold checkKey
  split
  · split <;> infer_instance
  · infer_instance

mutual

instance steady_expr (e : Expr) : Steady R (expr ctx e) := by
  cases e with
  | number | bool | str => unfold expr; infer_instance
  | ident i name | super i | funcRef i name => unfold expr; infer_instance
  | binary i op l r =>
      have := steady_expr l
      have := steady_expr r
      unfold expr
      infer_instance
  | unary i op e | member i e name =>
      have := steady_expr e
      unfold expr
      infer_instance
  | ternary i c a b =>
      have := steady_expr c
      have := steady_expr a
      have := steady_expr b
      unfold expr
      infer_instance
  | list i es | call i callee es | new_ i cls es =>
      have := steady_exprs es
      unfold expr
      infer_instance
  | map i es =>
      have := steady_keys es
      have := steady_values es
      unfold expr
      infer_instance
  | index i b k =>
      have := steady_expr b
      have := steady_expr k
      unfold expr
      infer_instance
  | method i r name args =>
      have := steady_expr r
      have := steady_exprs args
      unfold expr
      infer_instance
  | step i op first t =>
      have := steady_expr t
      unfold expr
      infer_instance

instance steady_exprs (es : List Expr) : Steady R (exprs ctx es) := by
  cases es with
  | nil => unfold exprs; infer_instance
  | cons e es =>
      have := steady_expr e
      have := steady_exprs es
      unfold exprs
      infer_instance

instance steady_keys (es : List (Expr × Expr)) : Steady R (keys ctx es) := by
  match es with
  | [] => unfold keys; infer_instance
  | (k, v) :: es =>
      have := steady_expr k
      have := steady_keys es
      unfold keys
      infer_instance

instance steady_values (es : List (Expr × Expr)) : Steady R (values ctx es) := by
  match es with
  | [] => unfold values; infer_instance
  | (k, v) :: es =>
      have := steady_expr v
      have := steady_values es
      unfold values
      infer_instance

end

instance (e : Expr) : Steady R (exprOnly ctx e) := by unfold exprOnly; infer_instance

instance (o : Option Expr) : Steady R (exprOption ctx o) := by
  unfold exprOption
  split <;> infer_instance

/-! ### Parts of statements that only look -/

instance (base key : Expr) : Steady R (target ctx base key) := by
  have inner : Steady R (do
      let base ← exprOnly ctx base
      let key ← exprOnly ctx key
      return (base, key) : Checking (Expr × Expr)) := inferInstance
  unfold target
  dsimp only
  split
  · refine .seq inferInstance fun known => ?_
    split
    · exact inner
    · split
      · split
        · split <;> infer_instance
        · infer_instance
      · exact inner
  · exact inner

instance (subject : Option Sigil) (value : Expr) : Steady R (clauseValue ctx subject value) := by
  have inner : Steady R (do
      let (value, type) ← expr ctx value
      if let (some s, some t) := (subject, type) then
        if s.isStr != t.isStr then
          warn .type value.span ("Case value of type '" ++ t.name ++
            "' compared with switch subject of type '" ++ s.name ++ "'")
      return value : Checking Expr) := by
    refine .seq inferInstance fun r => ?_
    dsimp only
    split <;> infer_instance
  unfold clauseValue
  split <;> first | exact inner | exact .seq inferInstance fun _ => inner

instance (got : Option Sigil) : Steady R (checkReturn ctx at_ got) := by unfold checkReturn; infer_instance

instance (fs : List Field) : Steady R (fields ctx fs) := by
  induction fs with
  | nil => unfold fields; infer_instance
  | cons f fs ih => unfold fields; infer_instance

end Steady

section Growth

variable {R : State → State → Prop} [Growth R]

/-! ### Changing scopes -/

instance (name : String) (type : Option Sigil) : Steady R (setType name type) :=
  steady_modify fun st => Growth.scopes st _

instance (name : String) (type : Option Sigil) : Steady R (declare name type) := by
  apply steady_modify
  intro st
  split
  · exact Course.refl st
  · split
    · exact Course.refl st
    · exact Growth.scopes st _
    · exact Growth.scopes st _

instance (x : Checking α) [Steady R x] : Steady R (inScope x) := by
  have enter : Steady R (modify fun st => { st with scopes := [] :: st.scopes } : Checking Unit) :=
    steady_modify fun st => Growth.scopes st _
  have leave : Steady R (modify fun st => { st with scopes := st.scopes.tail } : Checking Unit) :=
    steady_modify fun st => Growth.scopes st _
  unfold inScope
  infer_instance

/-! ### Globals -/

instance (classes : ClassTable) (name : String) (type : Option Sigil) (at_ : Span) :
    Steady R (declareGlobal classes name type at_) := by
  have add : Steady R (modify fun st => { st with hints := st.hints.addGlobal name } : Checking Unit) :=
    steady_modify fun st => Growth.globals st name
  have last : Steady R (modify fun st => { st with scopes := addToLast name st.scopes } : Checking Unit) :=
    steady_modify fun st => Growth.scopes st _
  have typed : Steady R (do
      if let some t := type then
        if let some none ← find? name then
          setType name type
          modify fun st => { st with
            hints := { st.hints with globalTypes := st.hints.globalTypes.put name t } } : Checking Unit) := by
    split
    · next t =>
        have put : Steady R (modify fun st => { st with
            hints := { st.hints with globalTypes := st.hints.globalTypes.put name t } } : Checking Unit) :=
          steady_modify fun st => Growth.types st name t
        refine .seq inferInstance fun known => ?_
        split <;> infer_instance
    · infer_instance
  unfold declareGlobal
  dsimp only
  split
  · infer_instance
  · refine add.seq fun _ => ?_
    refine .seq inferInstance fun known => ?_
    split
    · exact typed
    · exact last.seq fun _ => typed

mutual

theorem steady_gatherGlobals (classes : ClassTable) (s : Stmt) : Steady R (gatherGlobals classes s) := by
  cases s with
  | varDecl s name type init => unfold gatherGlobals; infer_instance
  | block s body => unfold gatherGlobals; exact steady_gatherGlobalsOf classes body
  | ifElse s c a b =>
      unfold gatherGlobals
      refine (steady_gatherGlobals classes a).seq fun _ => ?_
      cases b with
      | none => infer_instance
      | some b => exact steady_gatherGlobals classes b
  | while_ s c body | doWhile s body c => unfold gatherGlobals; exact steady_gatherGlobals classes body
  | for_ s init cond post body =>
      have := steady_gatherGlobals classes body
      unfold gatherGlobals
      cases init with
      | none => infer_instance
      | some i =>
          have := steady_gatherGlobals classes i
          infer_instance
  | switch s e cs => unfold gatherGlobals; exact steady_gatherClauseGlobals classes cs
  | try_ s body cs last =>
      have := steady_gatherGlobals classes body
      have := steady_gatherCatchGlobals classes cs
      unfold gatherGlobals
      cases last with
      | none => infer_instance
      | some l =>
          have := steady_gatherGlobals classes l
          infer_instance
  | _ => unfold gatherGlobals; infer_instance

theorem steady_gatherGlobalsOf (classes : ClassTable) (ss : List Stmt) : Steady R (gatherGlobalsOf classes ss) := by
  cases ss with
  | nil => unfold gatherGlobalsOf; infer_instance
  | cons s ss =>
      have := steady_gatherGlobals classes s
      have := steady_gatherGlobalsOf classes ss
      unfold gatherGlobalsOf
      infer_instance

theorem steady_gatherClauseGlobals (classes : ClassTable) (cs : List Clause) :
    Steady R (gatherClauseGlobals classes cs) := by
  match cs with
  | [] => unfold gatherClauseGlobals; infer_instance
  | .case_ s v body :: cs | .default_ s body :: cs =>
      have := steady_gatherGlobalsOf classes body
      have := steady_gatherClauseGlobals classes cs
      unfold gatherClauseGlobals
      infer_instance

theorem steady_gatherCatchGlobals (classes : ClassTable) (cs : List Catch) :
    Steady R (gatherCatchGlobals classes cs) := by
  match cs with
  | [] => unfold gatherCatchGlobals; infer_instance
  | ⟨s, type, name, body⟩ :: cs =>
      have := steady_gatherGlobals classes body
      have := steady_gatherCatchGlobals classes cs
      unfold gatherCatchGlobals
      infer_instance

end

/-! ### Statements -/

variable (ctx : Context) (at_ : Span)

instance (name : String) (got : Option Sigil) : Steady R (assignment ctx at_ name got) := by
  unfold assignment
  refine .seq inferInstance fun found => ?_
  split <;> infer_instance

instance (name : String) (type got : Option Sigil) : Steady R (variableDecl ctx at_ name type got) := by
  unfold variableDecl
  refine .seq inferInstance fun _ => ?_
  dsimp only
  split
  · refine .seq inferInstance fun found => ?_
    split <;> infer_instance
  · infer_instance

mutual

theorem steady_stmt (ctx : Context) (s : Stmt) : Steady R (stmt ctx s) := by
  cases s with
  | block s body =>
      have := steady_stmts ctx false false body
      unfold stmt
      infer_instance
  | print | expr | varDecl | assign | indexAssign | break_ | continue_ | throw_ | func | class_ | bare | printStmt =>
      unfold stmt
      infer_instance
  | ifElse s c a b =>
      have := steady_stmt ctx a
      unfold stmt
      cases b with
      | none => infer_instance
      | some b =>
          have := steady_stmt ctx b
          infer_instance
  | while_ s c body | doWhile s body c =>
      have := steady_stmt ctx.inLoop body
      unfold stmt
      infer_instance
  | for_ s init cond post body =>
      have := steady_stmt ctx.inLoop body
      unfold stmt
      cases init with
      | none =>
          cases post with
          | none => infer_instance
          | some p =>
              have := steady_stmt ctx p
              infer_instance
      | some i =>
          have := steady_stmt ctx i
          cases post with
          | none => infer_instance
          | some p =>
              have := steady_stmt ctx p
              infer_instance
  | switch s e cs =>
      have (subject : Option Sigil) := steady_clauses ctx.inSwitch subject cs
      unfold stmt
      infer_instance
  | return_ s value => cases value <;> (unfold stmt; infer_instance)
  | try_ s body cs last =>
      have := steady_stmt ctx body
      have := steady_catches ctx cs
      unfold stmt
      cases last with
      | none => infer_instance
      | some l =>
          have := steady_stmt ctx l
          infer_instance

theorem steady_stmts (ctx : Context) (top left : Bool) (ss : List Stmt) : Steady R (stmts ctx top left ss) := by
  cases ss with
  | nil => unfold stmts; infer_instance
  | cons s ss =>
      have := steady_stmt ctx s
      have (left : Bool) := steady_stmts ctx top left ss
      unfold stmts
      infer_instance

theorem steady_clauses (ctx : Context) (subject : Option Sigil) (cs : List Clause) :
    Steady R (clauses ctx subject cs) := by
  match cs with
  | [] => unfold clauses; infer_instance
  | .case_ s v body :: cs | .default_ s body :: cs =>
      have := steady_stmts ctx false false body
      have := steady_clauses ctx subject cs
      unfold clauses
      infer_instance

theorem steady_catches (ctx : Context) (cs : List Catch) : Steady R (catches ctx cs) := by
  match cs with
  | [] => unfold catches; infer_instance
  | ⟨s, type, name, body⟩ :: cs =>
      have := steady_stmt ctx body
      have := steady_catches ctx cs
      unfold catches
      infer_instance

end

attribute [instance] steady_stmt steady_stmts steady_clauses steady_catches

/-! ### Routines and items -/

instance (ps : List Param) : Steady R (declareParams at_ ps) := by
  induction ps with
  | nil => unfold declareParams; infer_instance
  | cons p ps ih => unfold declareParams; infer_instance

instance (ps : List Param) (body : Stmt) : Steady R (routine ctx ps body) := by
  have : Steady R (stmt ctx body) := steady_stmt ctx body
  unfold routine
  infer_instance

instance (ms : List Method) : Steady R (methods ctx ms) := by
  induction ms with
  | nil => unfold methods; infer_instance
  | cons m ms ih => unfold methods; infer_instance

instance (ks : List Ctor) : Steady R (ctors ctx ks) := by
  induction ks with
  | nil => unfold ctors; infer_instance
  | cons k ks ih => unfold ctors; infer_instance

instance (f : FuncDecl) : Steady R (func ctx f) := by unfold func; infer_instance

instance (c : ClassDecl) : Steady R (class_ ctx c) := by unfold class_; infer_instance

instance (xs : List Stmt) : Steady R (decls ctx xs) := by
  induction xs with
  | nil => unfold decls; infer_instance
  | cons s xs ih => cases s <;> (unfold decls; infer_instance)

instance (d : Declarations) (xs : List Stmt) : Steady R (items d xs) := by
  have : Steady R (gatherGlobalsOf d.classes (xs.filter (!·.isDecl))) := steady_gatherGlobalsOf _ _
  have : Steady R (stmts (Context.outside d) true false xs) := steady_stmts _ _ _ _
  unfold items
  infer_instance

end Growth

/-! ### What steps keep -/

/-- The state is the same. -/
instance : Course (Eq : State → State → Prop) := ⟨fun _ => rfl, Eq.trans⟩

/-- The declared results are the same. -/
def SameResults (st st' : State) : Prop := st'.hints.results = st.hints.results

instance : Growth SameResults where
  refl _ := rfl
  trans first second := Eq.trans second first
  scopes _ _ := rfl
  globals _ _ := rfl
  types _ _ _ := rfl

/-- The globals are still globals. -/
def MoreGlobals (st st' : State) : Prop := st.hints.globals ⊆ st'.hints.globals

instance : Growth MoreGlobals where
  refl st := List.Subset.refl st.hints.globals
  trans := List.Subset.trans
  scopes st _ := List.Subset.refl st.hints.globals
  globals st name := (prefix_addNew st.hints.globals name).subset
  types st _ _ := List.Subset.refl st.hints.globals

end Lantern.Check
