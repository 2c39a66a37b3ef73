import Lantern.Proofs.Resolved

/-!
# Where variables are stored

The scopes of a routine tell which of its declarations a name goes to. Its frame has one slot for a name,
however often the name is declared, so what is stored is right up to declarations of one name: a variable
of the routine lies in the slot that all declarations of its name share, and a global variable in its word
unless the routine declares the name anywhere.
-/

namespace Lantern

open Assembly

/-! ## Declarations in scopes -/

/-- The declarations in the scopes around a place in a routine, innermost scope first and the latest
    declaration first in each. A declaration is a name with its number in the routine. -/
abbrev Sites := List (List (String × Nat))

/-- The declarations a statement adds to the scope it stands in, latest first; `next` is the number of the
    first declaration of the statement. -/
def Stmt.sites (next : Nat) : Stmt → List (String × Nat)
  | .varDecl _ name _ _ => [(name, next)]
  | .ifElse _ _ a b => (match b with
    | some b => b.sites (next + (Emit.declaredNames a).length)
    | none => []) ++ a.sites next
  | .while_ _ _ body | .doWhile _ body _ => body.sites next
  | .try_ _ body cs last => (match last with
    | some l => l.sites (next + (Emit.declaredNames body ++ Emit.declaredInCatches cs).length)
    | none => []) ++ body.sites next
  | _ => []

namespace Sites

/-- The declarations behind a statement. -/
def behind (V : Sites) (next : Nat) (s : Stmt) : Sites := V.modifyHead (s.sites next ++ ·)

/-- The declarations behind a statement that may be missing. -/
def behindOption (V : Sites) (next : Nat) : Option Stmt → Sites
  | some s => V.behind next s
  | none => V

/-- The declarations behind statements. -/
def behindAll (V : Sites) (next : Nat) : List Stmt → Sites
  | [] => V
  | s :: ss => (V.behind next s).behindAll (next + (Emit.declaredNames s).length) ss

/-- The declaration a name goes to, if any: the latest in the innermost scope that has the name. -/
def find? (V : Sites) (name : String) : Option Nat := V.flatten.lookup name

end Sites

/-- A variable is read or stored to, under the declarations of the scopes around. -/
structure Use where
  /-- The name of the variable. -/
  name : String
  /-- The declarations around. -/
  sites : Sites
  deriving DecidableEq

/-- The number of the declaration that a use goes to; none if that is outside of the routine. -/
def Use.site? (u : Use) : Option Nat := u.sites.find? u.name

/-! ## Uses of variables -/

mutual

/-- The names that an expression looks up as variables. -/
def Expr.variables : Expr → List String
  | .number .. | .bool .. | .str .. | .funcRef .. => []
  | .ident _ name => [name]
  | .binary _ _ l r => l.variables ++ r.variables
  | .unary _ _ e => e.variables
  | .ternary _ c a b => c.variables ++ a.variables ++ b.variables
  | .list _ es => variablesOf es
  | .map _ es => variablesOfEntries es
  | .index _ b k => b.variables ++ k.variables
  | .member _ o _ => o.variables
  | .call _ callee args => callee :: variablesOf args
  | .method _ r _ args => r.variables ++ variablesOf args
  | .new_ _ _ args => variablesOf args
  | .super _ => ["this"]
  | .step _ _ _ t => t.variables

/-- The names that expressions look up as variables. -/
def variablesOf : List Expr → List String
  | [] => []
  | e :: es => e.variables ++ variablesOf es

/-- The names that the entries of a map literal look up as variables. -/
def variablesOfEntries : List (Expr × Expr) → List String
  | [] => []
  | (k, v) :: es => k.variables ++ v.variables ++ variablesOfEntries es

end

/-- The uses of variables in an expression. -/
def Expr.uses (V : Sites) (e : Expr) : List Use := e.variables.map (⟨·, V⟩)

/-- The uses of variables in an expression that may be missing. -/
def usesOption (V : Sites) (e : Option Expr) : List Use := e.toList.flatMap (Expr.uses V)

mutual

/-- The uses of variables in a statement of a routine. A declaration uses the variable it declares. -/
def Stmt.uses (next : Nat) (V : Sites) : Stmt → List Use
  | .print _ e | .expr _ e | .throw_ _ _ e => e.uses V
  | .assign _ name e => e.uses V ++ [⟨name, V⟩]
  | .indexAssign _ b k e => b.uses V ++ k.uses V ++ e.uses V
  | .varDecl _ name _ init => usesOption V init ++ [⟨name, [(name, next)] :: V⟩]
  | .return_ _ value => usesOption V value
  | .block _ body => usesOf next ([] :: V) body
  | .ifElse _ c a b => c.uses V ++ a.uses next V ++ (match b with
    | some b => b.uses (next + (Emit.declaredNames a).length) (V.behind next a)
    | none => [])
  | .while_ _ c body => c.uses V ++ body.uses next V
  | .doWhile _ body c => body.uses next V ++ c.uses (V.behind next body)
  | .for_ _ init cond post body =>
    let inside := Sites.behindOption ([] :: V) next init
    let later := next + (match init with
      | some i => Emit.declaredNames i
      | none => []).length
    (match init with
    | some i => i.uses next ([] :: V)
    | none => []) ++ usesOption inside cond ++ (match post with
    | some p => p.uses later inside
    | none => []) ++ body.uses later inside
  | .switch _ e cs => e.uses V ++ usesInClauses next ([] :: V) cs
  | .try_ _ body cs last =>
    body.uses next V ++
    usesInCatches (next + (Emit.declaredNames body).length) (V.behind next body) cs ++ (match last with
    | some l => l.uses (next + (Emit.declaredNames body ++ Emit.declaredInCatches cs).length)
        (V.behind next body)
    | none => [])
  | .break_ _ | .continue_ _ | .func _ | .class_ _ | .bare _ | .printStmt .. => []

/-- The uses of variables in statements. -/
def usesOf (next : Nat) (V : Sites) : List Stmt → List Use
  | [] => []
  | s :: ss => s.uses next V ++ usesOf (next + (Emit.declaredNames s).length) (V.behind next s) ss

/-- The uses of variables in the clauses of a switch. -/
def usesInClauses (next : Nat) (V : Sites) : List Clause → List Use
  | [] => []
  | .case_ _ v body :: cs => v.uses V ++ usesOf next V body ++
      usesInClauses (next + (Emit.declaredNamesOf body).length) (V.behindAll next body) cs
  | .default_ _ body :: cs => usesOf next V body ++
      usesInClauses (next + (Emit.declaredNamesOf body).length) (V.behindAll next body) cs

/-- The uses of variables in handlers. A handler uses the variable of its exception. -/
def usesInCatches (next : Nat) (V : Sites) : List Catch → List Use
  | [] => []
  | ⟨_, _, name, body⟩ :: cs =>
    ⟨name, [(name, next)] :: V⟩ :: body.uses (next + 1) ([(name, next)] :: V) ++
      usesInCatches (next + (name :: Emit.declaredNames body).length) V cs

end

namespace Meaning.Definition

/-- The names a routine declares: its parameters, with the receiver if it has one, and the variables of
    its body. -/
def declared (d : Definition) : List String := d.names ++ Emit.declaredNames d.body

/-- The uses of variables in a routine. -/
def uses (d : Definition) : List Use := d.body.uses d.names.length [d.names.zipIdx]

/-- The slot of a declaration. -/
def slot? (d : Definition) (site : Nat) : Option Nat := d.declared[site]?.map d.locals.idxOf

end Meaning.Definition

/-! ## Numbers of declarations -/

/-- Names are declared one after the other from a number on. -/
def Numbered (declared : List String) (next : Nat) (names : List String) : Prop :=
  names <+: declared.drop next

namespace Numbered

variable {declared names more : List String} {next : Nat} {name : String}

theorem left (numbered : Numbered declared next (names ++ more)) : Numbered declared next names :=
  (List.prefix_append names more).trans numbered

theorem right (numbered : Numbered declared next (names ++ more)) :
    Numbered declared (next + names.length) more := by
  obtain ⟨rest, eq⟩ := numbered
  refine ⟨rest, ?_⟩
  rw [← List.drop_drop, ← eq, List.append_assoc, List.drop_left]

theorem head (numbered : Numbered declared next (name :: more)) : declared[next]? = some name := by
  obtain ⟨rest, eq⟩ := numbered
  have first : (declared.drop next)[0]? = some name := by rw [← eq]; rfl
  simpa using first

end Numbered

/-! ## The sites of a statement -/

section Sites

variable {declared : List String}

/-- The declarations a statement adds to its scope are those the checker adds. -/
theorem Stmt.map_sites (s : Stmt) (next : Nat) : (s.sites next).map Prod.fst = s.declares := by
  cases s with
  | ifElse s c a b =>
      cases b with
      | none => simp only [Stmt.sites, Stmt.declares, List.map_append, List.map_nil, a.map_sites]
      | some b => simp only [Stmt.sites, Stmt.declares, List.map_append, a.map_sites, b.map_sites]
  | while_ s c body | doWhile s body c => exact body.map_sites next
  | try_ s body cs last =>
      cases last with
      | none => simp only [Stmt.sites, Stmt.declares, List.map_append, List.map_nil, body.map_sites]
      | some l => simp only [Stmt.sites, Stmt.declares, List.map_append, body.map_sites, l.map_sites]
  | _ => rfl

/-- The declarations a statement adds to its scope are numbered as in the routine. -/
theorem Stmt.sites_numbered (s : Stmt) {next : Nat} (numbered : Numbered declared next (Emit.declaredNames s)) :
    ∀ d ∈ s.sites next, declared[d.2]? = some d.1 := by
  cases s with
  | varDecl s name type init =>
      intro d mem
      rw [List.mem_singleton.mp mem]
      exact numbered.head
  | ifElse s c a b =>
      unfold Emit.declaredNames at numbered
      unfold Stmt.sites
      refine List.forall_mem_append.mpr ⟨?_, a.sites_numbered numbered.left⟩
      cases b with
      | none => exact List.forall_mem_nil _
      | some b => exact b.sites_numbered numbered.right
  | while_ s c body | doWhile s body c => exact body.sites_numbered numbered
  | try_ s body cs last =>
      unfold Emit.declaredNames at numbered
      unfold Stmt.sites
      refine List.forall_mem_append.mpr ⟨?_, body.sites_numbered numbered.left.left⟩
      cases last with
      | none => exact List.forall_mem_nil _
      | some l => exact l.sites_numbered numbered.right
  | _ => exact List.forall_mem_nil _

end Sites

/-! ## Declarations and what the checker knows -/

/-- A name stands for something outside of the routine. -/
def Setting.Names (C : Setting) (name : String) : Prop :=
  name ∈ C.globals ∨ C.classes.has name ∨ name ∈ C.funcs ∨ (LibFunc.ofName? name).isSome

/-- A use goes to a declaration of its name in the routine, or to something outside of it. -/
def Use.Sits (declared : List String) (C : Setting) (u : Use) : Prop :=
  match u.site? with
  | some site => declared[site]? = some u.name
  | none => C.Names u.name

/-- The declarations around a place in a routine are numbered as in the routine, and comprise the names
    the checker knows from scopes. -/
structure Sites.Fit (declared : List String) (C : Setting) (W : Scopes) (V : Sites) : Prop where
  nonempty : V ≠ []
  numbered : ∀ d ∈ V.flatten, declared[d.2]? = some d.1
  covers : ∀ name ∈ W.flatten, name ∈ V.flatten.map Prod.fst
  receiver : C.receiver → "this" ∈ V.flatten.map Prod.fst
  inRoutine : C.inRoutine

namespace Sites.Fit

variable {declared : List String} {C : Setting} {W : Scopes} {V : Sites} {next : Nat}

/-- A new scope with declarations of its own. -/
theorem scope (fit : V.Fit declared C W) {names : List String} {own : List (String × Nat)}
    (same : own.map Prod.fst = names) (numbered : ∀ d ∈ own, declared[d.2]? = some d.1) :
    Sites.Fit declared C (names :: W) (own :: V) where
  nonempty := List.cons_ne_nil _ _
  numbered := List.forall_mem_append.mpr ⟨numbered, fit.numbered⟩
  covers name known := by
    rw [List.flatten_cons, List.map_append, same]
    exact List.mem_append.mpr ((List.mem_append.mp known).imp_right (fit.covers name))
  receiver isMethod := by
    rw [List.flatten_cons, List.map_append]
    exact List.mem_append_right _ (fit.receiver isMethod)
  inRoutine := fit.inRoutine

/-- A new scope without declarations. -/
theorem block (fit : V.Fit declared C W) : Sites.Fit declared C ([] :: W) ([] :: V) :=
  fit.scope rfl (List.forall_mem_nil _)

/-- A new scope for the variable of a handler. -/
theorem handler (fit : V.Fit declared C W) {name : String} {more : List String}
    (numbered : Numbered declared next (name :: more)) :
    Sites.Fit declared C ([name] :: W) ([(name, next)] :: V) :=
  fit.scope rfl fun d mem => by
    rw [List.mem_singleton.mp mem]
    exact numbered.head

/-- More declarations in the innermost scope. -/
theorem add (fit : V.Fit declared C W) {names : List String} {own : List (String × Nat)}
    (same : own.map Prod.fst = names) (numbered : ∀ d ∈ own, declared[d.2]? = some d.1) :
    Sites.Fit declared C (W.add names) (V.modifyHead (own ++ ·)) := by
  obtain ⟨inner, V, rfl⟩ := List.exists_cons_of_ne_nil fit.nonempty
  have flat : (List.modifyHead (own ++ ·) (inner :: V)).flatten = own ++ (inner :: V).flatten := by simp
  refine ⟨List.cons_ne_nil _ _, ?_, fun name known => ?_, fun isMethod => ?_, fit.inRoutine⟩
  · rw [flat]
    exact List.forall_mem_append.mpr ⟨numbered, fit.numbered⟩
  · have either : name ∈ names ∨ name ∈ W.flatten := by
      cases W with
      | nil => exact .inr known
      | cons W Ws => simpa [Scopes.add, or_assoc] using known
    rw [flat, List.map_append, same]
    exact List.mem_append.mpr (either.imp_right (fit.covers name))
  · rw [flat, List.map_append]
    exact List.mem_append_right _ (fit.receiver isMethod)

theorem behind (fit : V.Fit declared C W) {s : Stmt} (numbered : Numbered declared next (Emit.declaredNames s)) :
    (V.behind next s).Fit declared C (W.behind C.inRoutine s) := by
  rw [fit.inRoutine]
  exact fit.add (s.map_sites next) (s.sites_numbered numbered)

theorem behindAll (fit : V.Fit declared C W) {ss : List Stmt}
    (numbered : Numbered declared next (Emit.declaredNamesOf ss)) :
    (V.behindAll next ss).Fit declared C (W.behindAll C.inRoutine ss) := by
  induction ss generalizing V W next with
  | nil => exact fit
  | cons s ss ih =>
      unfold Emit.declaredNamesOf at numbered
      exact ih (fit.behind numbered.left) numbered.right

/-- A name the checker finds goes to a declaration around or to something outside of the routine. -/
theorem sits (fit : V.Fit declared C W) {name : String} (known : C.Knows W name ∨ C.Names name) :
    Use.Sits declared C ⟨name, V⟩ := by
  unfold Use.Sits Use.site? Sites.find?
  split
  · next site found =>
      obtain ⟨before, after, eq, -⟩ := List.lookup_eq_some_iff.mp found
      exact fit.numbered (name, site) (eq ▸ List.mem_append_right _ List.mem_cons_self)
  · next none_ =>
      have absent : name ∉ V.flatten.map Prod.fst := fun mem => by
        obtain ⟨d, inside, rfl⟩ := List.mem_map.mp mem
        simpa using List.lookup_eq_none_iff.mp none_ d inside
      rcases known with (⟨isMethod, rfl⟩ | own | global) | elsewhere
      · exact (absent (fit.receiver isMethod)).elim
      · exact (absent (fit.covers name own)).elim
      · exact .inl global
      · exact elsewhere

theorem inLoop (fit : V.Fit declared C W) : V.Fit declared C.inLoop W := { fit with }

theorem inSwitch (fit : V.Fit declared C W) : V.Fit declared C.inSwitch W := { fit with }

end Sites.Fit

/-! ## Every use goes somewhere -/

section Trees

variable {declared : List String} {C : Setting} {W : Scopes} {V : Sites} {next : Nat}

theorem Setting.Calls.known {name : String} {count : Nat} (calls : C.Calls W name count) :
    C.Knows W name ∨ C.Names name := by
  refine calls.imp_right fun found => .inr (.inr ?_)
  cases lib : LibFunc.ofName? name with
  | none =>
      rw [lib] at found
      exact .inl found
  | some f => exact .inr rfl

mutual

theorem Expr.variables_known (e : Expr) (resolves : e.Resolves C W) :
    ∀ name ∈ e.variables, C.Knows W name ∨ C.Names name := by
  cases e with
  | number | bool | str | funcRef => exact List.forall_mem_nil _
  | ident i name => exact List.forall_mem_singleton.mpr (resolves.imp_right fun cls => .inr (.inl cls))
  | binary i op a b | index i a b =>
      obtain ⟨first, second⟩ := resolves
      exact List.forall_mem_append.mpr ⟨a.variables_known first, b.variables_known second⟩
  | unary i op e | member i e name => exact e.variables_known resolves
  | ternary i c a b =>
      obtain ⟨cond, yes, no⟩ := resolves
      exact List.forall_mem_append.mpr
        ⟨List.forall_mem_append.mpr ⟨c.variables_known cond, a.variables_known yes⟩, b.variables_known no⟩
  | list i es | new_ i cls es => exact variablesOf_known es resolves
  | map i es => exact variablesOfEntries_known es resolves
  | call i callee args =>
      obtain ⟨calls, operands⟩ := resolves
      exact List.forall_mem_cons.mpr ⟨calls.known, variablesOf_known args operands⟩
  | method i r name args =>
      obtain ⟨-, receiver, operands⟩ := resolves
      exact List.forall_mem_append.mpr ⟨r.variables_known receiver, variablesOf_known args operands⟩
  | super i => exact List.forall_mem_singleton.mpr (.inl (.inl ⟨resolves, rfl⟩))
  | step i op first t => exact t.variables_known resolves.2

theorem variablesOf_known (es : List Expr) (resolve : allResolve C W es) :
    ∀ name ∈ variablesOf es, C.Knows W name ∨ C.Names name := by
  match es with
  | [] => exact List.forall_mem_nil _
  | e :: es =>
      exact List.forall_mem_append.mpr ⟨e.variables_known resolve.1, variablesOf_known es resolve.2⟩

theorem variablesOfEntries_known (es : List (Expr × Expr)) (resolve : entriesResolve C W es) :
    ∀ name ∈ variablesOfEntries es, C.Knows W name ∨ C.Names name := by
  match es with
  | [] => exact List.forall_mem_nil _
  | (k, v) :: es =>
      obtain ⟨key, value, others⟩ := resolve
      exact List.forall_mem_append.mpr ⟨List.forall_mem_append.mpr
        ⟨k.variables_known key, v.variables_known value⟩, variablesOfEntries_known es others⟩

end

theorem Expr.uses_sit (fit : V.Fit declared C W) {e : Expr} (resolves : e.Resolves C W) :
    ∀ u ∈ e.uses V, u.Sits declared C :=
  List.forall_mem_map.mpr fun name mem => fit.sits (e.variables_known resolves name mem)

theorem usesOption_sit (fit : V.Fit declared C W) {o : Option Expr} (resolves : ∀ e ∈ o, e.Resolves C W) :
    ∀ u ∈ usesOption V o, u.Sits declared C := by
  cases o with
  | none => exact List.forall_mem_nil _
  | some e => simpa [usesOption] using Expr.uses_sit fit (resolves e rfl)

/-- A variable is used where it is declared. -/
theorem Use.sits_declared {name : String} {more : List String} (numbered : Numbered declared next (name :: more)) :
    Use.Sits declared C ⟨name, [(name, next)] :: V⟩ := by
  have own : Use.site? ⟨name, [(name, next)] :: V⟩ = some next := by simp [Use.site?, Sites.find?]
  unfold Use.Sits
  rw [own]
  exact numbered.head

mutual

theorem Stmt.uses_sit {C : Setting} {W : Scopes} {V : Sites} {next : Nat} (fit : V.Fit declared C W) (s : Stmt)
    (numbered : Numbered declared next (Emit.declaredNames s)) (resolves : s.Resolves C W) :
    ∀ u ∈ s.uses next V, u.Sits declared C := by
  cases s with
  | print s e | expr s e | throw_ s type e => exact Expr.uses_sit fit resolves
  | assign s name e =>
      obtain ⟨value, known⟩ := resolves
      exact List.forall_mem_append.mpr
        ⟨Expr.uses_sit fit value, List.forall_mem_singleton.mpr (fit.sits (.inl known))⟩
  | indexAssign s b k e =>
      obtain ⟨targets, value⟩ := resolves
      exact List.forall_mem_append.mpr ⟨List.forall_mem_append.mpr
        ⟨Expr.uses_sit fit targets.first, Expr.uses_sit fit targets.second⟩, Expr.uses_sit fit value⟩
  | varDecl s name type init =>
      exact List.forall_mem_append.mpr
        ⟨usesOption_sit fit resolves, List.forall_mem_singleton.mpr (Use.sits_declared numbered)⟩
  | return_ s value => exact usesOption_sit fit resolves
  | block s body => exact usesOf_sit fit.block body numbered resolves
  | ifElse s c a b =>
      unfold Emit.declaredNames at numbered
      unfold Stmt.Resolves at resolves
      obtain ⟨cond, yes, no⟩ := resolves
      unfold Stmt.uses
      refine List.forall_mem_append.mpr ⟨List.forall_mem_append.mpr
        ⟨Expr.uses_sit fit cond, Stmt.uses_sit fit a numbered.left yes⟩, ?_⟩
      cases b with
      | none => exact List.forall_mem_nil _
      | some b => exact Stmt.uses_sit (fit.behind numbered.left) b numbered.right no
  | while_ s c body =>
      exact List.forall_mem_append.mpr
        ⟨Expr.uses_sit fit resolves.1, Stmt.uses_sit fit.inLoop body numbered resolves.2⟩
  | doWhile s body c =>
      exact List.forall_mem_append.mpr ⟨Stmt.uses_sit fit.inLoop body numbered resolves.1,
        Expr.uses_sit (fit.behind numbered) resolves.2⟩
  | for_ s init cond post body =>
      unfold Emit.declaredNames at numbered
      obtain ⟨first, test, last, inner⟩ := Stmt.resolves_for_iff.mp resolves
      have inside : Sites.Fit declared C (Scopes.behindOption ([] :: W) C.inRoutine init)
          (Sites.behindOption ([] :: V) next init) := by
        cases init with
        | none => exact fit.block
        | some i => exact fit.block.behind numbered.left
      unfold Stmt.uses
      refine List.forall_mem_append.mpr ⟨List.forall_mem_append.mpr ⟨List.forall_mem_append.mpr
        ⟨?_, usesOption_sit inside test⟩, ?_⟩, Stmt.uses_sit inside.inLoop body numbered.right inner⟩
      · cases init with
        | none => exact List.forall_mem_nil _
        | some i => exact Stmt.uses_sit fit.block i numbered.left (first i rfl)
      · cases post with
        | none => exact List.forall_mem_nil _
        | some p =>
            obtain ⟨simple, own⟩ := last p rfl
            refine Stmt.uses_sit inside p ?_ own
            rw [Emit.declaredNames_of_simple simple]
            exact List.nil_prefix
  | switch s e cs =>
      exact List.forall_mem_append.mpr
        ⟨Expr.uses_sit fit resolves.1, usesInClauses_sit fit.inSwitch.block cs numbered resolves.2⟩
  | try_ s body cs last =>
      unfold Emit.declaredNames at numbered
      unfold Stmt.Resolves at resolves
      obtain ⟨guarded, handled, ending⟩ := resolves
      have behind := fit.behind numbered.left.left
      unfold Stmt.uses
      refine List.forall_mem_append.mpr ⟨List.forall_mem_append.mpr
        ⟨Stmt.uses_sit fit body numbered.left.left guarded,
          usesInCatches_sit behind cs numbered.left.right handled⟩, ?_⟩
      cases last with
      | none => exact List.forall_mem_nil _
      | some l => exact Stmt.uses_sit behind l numbered.right ending
  | break_ | continue_ => exact List.forall_mem_nil _
  | func | class_ | bare | printStmt => exact resolves.elim

theorem usesOf_sit {C : Setting} {W : Scopes} {V : Sites} {next : Nat} (fit : V.Fit declared C W)
    (ss : List Stmt) (numbered : Numbered declared next (Emit.declaredNamesOf ss))
    (resolve : stmtsResolve C W ss) : ∀ u ∈ usesOf next V ss, u.Sits declared C := by
  match ss with
  | [] => exact List.forall_mem_nil _
  | s :: ss =>
      unfold Emit.declaredNamesOf at numbered
      exact List.forall_mem_append.mpr ⟨Stmt.uses_sit fit s numbered.left resolve.1,
        usesOf_sit (fit.behind numbered.left) ss numbered.right resolve.2⟩

theorem usesInClauses_sit {C : Setting} {W : Scopes} {V : Sites} {next : Nat} (fit : V.Fit declared C W)
    (cs : List Clause) (numbered : Numbered declared next (Emit.declaredInClauses cs))
    (resolve : clausesResolve C W cs) : ∀ u ∈ usesInClauses next V cs, u.Sits declared C := by
  match cs with
  | [] => exact List.forall_mem_nil _
  | .case_ s v body :: cs =>
      unfold Emit.declaredInClauses at numbered
      obtain ⟨value, inner, others⟩ := resolve
      exact List.forall_mem_append.mpr ⟨List.forall_mem_append.mpr
        ⟨Expr.uses_sit fit value, usesOf_sit fit body numbered.left inner⟩,
        usesInClauses_sit (fit.behindAll numbered.left) cs numbered.right others⟩
  | .default_ s body :: cs =>
      unfold Emit.declaredInClauses at numbered
      exact List.forall_mem_append.mpr ⟨usesOf_sit fit body numbered.left resolve.1,
        usesInClauses_sit (fit.behindAll numbered.left) cs numbered.right resolve.2⟩

theorem usesInCatches_sit {C : Setting} {W : Scopes} {V : Sites} {next : Nat} (fit : V.Fit declared C W)
    (cs : List Catch) (numbered : Numbered declared next (Emit.declaredInCatches cs))
    (resolve : catchesResolve C W cs) : ∀ u ∈ usesInCatches next V cs, u.Sits declared C := by
  match cs with
  | [] => exact List.forall_mem_nil _
  | ⟨s, type, name, body⟩ :: cs =>
      unfold Emit.declaredInCatches at numbered
      have own : Numbered declared next ([name] ++ Emit.declaredNames body) := numbered.left
      have inner : Numbered declared (next + 1) (Emit.declaredNames body) := own.right
      exact List.forall_mem_cons.mpr ⟨Use.sits_declared numbered,
        List.forall_mem_append.mpr ⟨Stmt.uses_sit (fit.handler numbered) body inner resolve.1,
          usesInCatches_sit fit cs numbered.right resolve.2⟩⟩

end

end Trees

/-! ## Slots and words -/

namespace Meaning.Definition

variable {d : Definition} {site other : Nat} {name : String}

theorem mem_locals_iff : name ∈ d.locals ↔ name ∈ d.declared := by
  simp [locals, declared, mem_foldl_addNew]

theorem mem_locals_of_declared (found : d.declared[site]? = some name) : name ∈ d.locals :=
  mem_locals_iff.mpr (List.mem_of_getElem? found)

/-- A declaration has its slot in common with the declarations of its name. -/
theorem slot?_eq_iff (found : d.declared[site]? = some name) :
    d.slot? other = d.slot? site ↔ d.declared[other]? = some name := by
  have own : d.slot? site = some (d.locals.idxOf name) := by rw [slot?, found]; rfl
  rw [own, slot?]
  constructor
  · intro same
    obtain ⟨name', found', slots⟩ := Option.map_eq_some_iff.mp same
    rw [found', List.idxOf_inj (mem_locals_of_declared found') |>.mp slots]
  · intro found'
    rw [found']
    rfl

end Meaning.Definition

namespace Emit

variable {s : Source} {env : Env} {site : Nat} {name : String}

/-- A name that is declared in a routine is stored in the slot of the declaration. -/
theorem Source.lookup?_declared (found : s.declared[site]? = some name) :
    (s.env env).lookup? name = (s.slot? site).map Operand.slot := by
  obtain ⟨i, index⟩ := Option.isSome_iff_exists.mp
    (List.isSome_idxOf?.mpr (Meaning.Definition.mem_locals_of_declared found))
  unfold Env.lookup? Meaning.Definition.slot?
  rw [show (s.env env).locals.idxOf? name = some i from index, found]
  simp [Meaning.idxOf_of_idxOf? index]

/-- A global variable is stored in its word where the routine does not declare the name. -/
theorem Source.lookup?_word (global : SymbolName.globalVar name ∈ env.words) :
    (s.env env).lookup? name = some (.data (SymbolName.globalVar name)) ↔ name ∉ s.declared := by
  unfold Env.lookup?
  rw [← Meaning.Definition.mem_locals_iff]
  cases index : (s.env env).locals.idxOf? name with
  | none =>
      have outside : name ∉ s.locals := List.idxOf?_eq_none_iff.mp index
      simp [outside, show SymbolName.globalVar name ∈ (s.env env).words from global]
  | some i =>
      have inside : name ∈ s.locals := List.isSome_idxOf?.mp (Option.isSome_of_eq_some index)
      simp [inside]

/-- The uses of variables in a routine whose names stand for something go somewhere. -/
theorem Source.uses_sit {C : Setting} (resolves : s.Resolves C) : ∀ u ∈ s.uses, u.Sits s.declared C := by
  obtain ⟨receiver, params, names, -, resolves⟩ := resolves
  have flat : [s.names.zipIdx].flatten.map Prod.fst = s.names := by simp
  have entry : Sites.Fit s.declared (C.inside receiver) (Scopes.entry receiver params) [s.names.zipIdx] := by
    refine ⟨List.cons_ne_nil _ _, fun d mem => ?_, fun name known => ?_, fun isMethod => ?_, rfl⟩
    · obtain ⟨inside, same⟩ := List.mem_zipIdx' (by simpa using mem)
      rw [Meaning.Definition.declared, List.getElem?_append_left inside, List.getElem?_eq_getElem inside, same]
    · rw [flat, names]
      simpa [Scopes.entry, or_comm] using known
    · rw [flat, names]
      simp [show receiver = true from isMethod]
  exact Stmt.uses_sit entry s.body ⟨[], by simp [Meaning.Definition.declared]⟩ resolves

end Emit

/-- In a checked program a use of a variable that goes to a declaration of its routine is stored in the slot
    of that declaration, which all declarations of the name in the routine have in common and no others. A
    use that goes outside of the routine to a global variable is stored in the word of that variable where
    the routine does not declare the name anywhere, and only there. -/
theorem Program.lookup?_use {file : Nat} {source : String} {p p' : Program} {hints : Hints}
    (accepted : Program.accept? file source = some (p, p', hints)) {s : Emit.Source}
    (mem : s ∈ Emit.sources (p'.infer hints).classes (p'.infer hints).program.items) {u : Use}
    (use : u ∈ s.uses) :
    let place? := (s.env ((p'.infer hints).env hints)).lookup? u.name
    match u.site? with
    | some site => s.declared[site]? = some u.name ∧ place? = (s.slot? site).map Operand.slot ∧
        ∀ other, s.slot? other = s.slot? site ↔ s.declared[other]? = some u.name
    | none => (p.setting hints).Names u.name ∧ (u.name ∈ hints.globals →
        (place? = some (.data (SymbolName.globalVar u.name)) ↔ u.name ∉ s.declared)) := by
  obtain ⟨items, members⟩ := Program.resolves_infer accepted
  have sits := Emit.Source.uses_sit (Emit.Source.resolves_of_mem items members mem) u use
  unfold Use.Sits at sits
  split
  · next site found =>
      rw [found] at sits
      exact ⟨sits, Emit.Source.lookup?_declared sits, fun other => Meaning.Definition.slot?_eq_iff sits⟩
  · next none_ =>
      rw [none_] at sits
      refine ⟨sits, fun global => Emit.Source.lookup?_word ?_⟩
      exact mem_foldl_addNew.mpr (.inr (List.mem_append_left _
        (List.mem_map_of_mem (List.mem_append_left _ global))))

/-- A block that declares the name of a parameter again, and a global variable read before a block that
    declares its name. -/
def shadowing : String :=
  "var g = 1; func f(x) { { var x = 5; } return x; } func h() { print(g); { var g = 2; } }"

theorem Program.lookup?_use_shadowing : ∃ p p' hints s u,
    Program.accept? 0 shadowing = some (p, p', hints) ∧
    s ∈ Emit.sources (p'.infer hints).classes (p'.infer hints).program.items ∧
    u ∈ s.uses ∧ u.site? = some 1 ∧ ∀ other, s.slot? other = s.slot? 1 ↔ s.declared[other]? = some "x" := by
  have first : (Program.accept? 0 shadowing).map (fun r =>
      (Emit.sources (r.2.1.infer r.2.2).classes (r.2.1.infer r.2.2).program.items).head?.bind fun s =>
        s.uses.head?.map fun u => (u.name, u.site?)) = some (some ("x", some 1)) := by
    rewrite [show Program.accept? 0 shadowing = _ from Program.accept?_ofList 0 _]
    decide +kernel
  obtain ⟨⟨p, p', hints⟩, accepted, found⟩ := Option.map_eq_some_iff.mp first
  obtain ⟨s, head, found⟩ := Option.bind_eq_some_iff.mp found
  obtain ⟨u, use, found⟩ := Option.map_eq_some_iff.mp found
  obtain ⟨name, site⟩ := Prod.mk.inj found
  have stored := Program.lookup?_use accepted (List.mem_of_head? head) (List.mem_of_head? use)
  rw [site, name] at stored
  exact ⟨p, p', hints, s, u, accepted, List.mem_of_head? head, List.mem_of_head? use, site, stored.2.2⟩

/-- Scopes are not kept apart: the block stores to the slot of the parameter, and the global variable is read
    from a slot. -/
theorem Program.shares_slots : (Program.accept? 0 shadowing).map (fun r =>
    (Emit.sources (r.2.1.infer r.2.2).classes (r.2.1.infer r.2.2).program.items).map fun s =>
      s.uses.map fun u => (u.name, u.site?, (s.env ((r.2.1.infer r.2.2).env r.2.2)).lookup? u.name)) =
    some [[("x", some 1, some (.slot 0)), ("x", some 0, some (.slot 0))],
      [("g", none, some (.slot 0)), ("g", some 0, some (.slot 0))]] := by
  rewrite [show Program.accept? 0 shadowing = _ from Program.accept?_ofList 0 _]
  decide +kernel

end Lantern
