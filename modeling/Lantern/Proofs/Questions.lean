import Lantern.Proofs.Courses
import Lantern.Proofs.Fields
import Lantern.Proofs.Settling

/-!
# What the checker is asked

The checker finds the type of an expression in the state in which it comes to the expression, which is left
as it is. Where it cannot tell the type of an operand it says so, but of a sum it then says that it is an integer,
and of a literal that its elements are: it guesses. What it says otherwise is what inference records, as long as
both know the same about variables.
-/

namespace Lantern

deriving instance ReflBEq, LawfulBEq for Elem, Sigil

namespace Check

/-! ## Questions -/

/-- The state behind a step; the same if the step stops. -/
def after {α : Type} (x : Checking α) (st : State) : State := ((result? x st).map Prod.snd).getD st

/-- The type that is found for an expression. -/
def type? (ctx : Context) (st : State) (e : Expr) : Option Sigil := (result? (expr ctx e) st).bind fun r => r.1.2

/-- An expression in the place and state in which the checker comes to it. -/
structure Question where
  /-- The place. -/
  ctx : Context
  /-- The state. -/
  state : State
  /-- The expression. -/
  value : Expr

/-- The checker comes to an expression and everything below it. -/
def ask (ctx : Context) (st : State) (e : Expr) : List (Option Question) := e.visits.map fun x => some ⟨ctx, st, x⟩

/-- Whether the base of an assignment is the name of a class. Nobody asks for the types of such a base and its key. -/
def isStaticTarget (ctx : Context) (st : State) : Expr → Expr → Bool
  | .ident _ name, .str .. => (lookup? st.scopes name).isNone && ctx.classes.has name
  | _, _ => false

namespace State

/-- Inside a new scope. -/
def enter (st : State) : State := { st with scopes := [] :: st.scopes }

/-- Outside of the innermost scope. -/
def leave (st : State) : State := { st with scopes := st.scopes.tail }

end State

mutual

/-- The expressions of a statement, each as the checker comes to it. For one that it passes over there is nothing. -/
def asked (ctx : Context) (st : State) : Stmt → List (Option Question)
  | .print _ e | .expr _ e | .throw_ _ _ e | .assign _ _ e => ask ctx st e
  | .varDecl _ _ _ e | .return_ _ e => e.toList.flatMap (ask ctx st)
  | .indexAssign _ b k e =>
    (if isStaticTarget ctx st b k then (b.visits ++ k.visits).map fun _ => none else ask ctx st b ++ ask ctx st k) ++
      ask ctx st e
  | .block _ body => askedOf ctx st.enter body
  | .ifElse _ c a b => ask ctx st c ++ asked ctx st a ++ (match b with
    | some b => asked ctx (after (stmt ctx a) st) b
    | none => [])
  | .while_ _ c body => ask ctx st c ++ asked ctx.inLoop st body
  | .doWhile _ body c => asked ctx.inLoop st body ++ ask ctx (after (stmt ctx.inLoop body) st) c
  | .for_ _ init cond post body =>
    let begun := match init with
      | some i => after (stmt ctx i) st.enter
      | none => st.enter
    let stepped := match post with
      | some p => after (stmt ctx p) begun
      | none => begun
    (match init with
    | some i => asked ctx st.enter i
    | none => []) ++ cond.toList.flatMap (ask ctx begun) ++ (match post with
    | some p => asked ctx begun p
    | none => []) ++ asked ctx.inLoop stepped body
  | .switch _ e cs => ask ctx st e ++ askedInClauses ctx.inSwitch st.enter cs
  | .try_ _ body cs last => asked ctx st body ++ askedInCatches ctx (after (stmt ctx body) st) cs ++ (match last with
    | some l => asked ctx (after (catches ctx cs) (after (stmt ctx body) st)) l
    | none => [])
  | .break_ _ | .continue_ _ | .func _ | .class_ _ | .bare _ | .printStmt .. => []

/-- The expressions of statements. -/
def askedOf (ctx : Context) (st : State) : List Stmt → List (Option Question)
  | [] => []
  | s :: ss => asked ctx st s ++ askedOf ctx (after (stmt ctx s) st) ss

/-- The expressions of the clauses of a switch. -/
def askedInClauses (ctx : Context) (st : State) : List Clause → List (Option Question)
  | [] => []
  | .case_ _ v body :: cs =>
    ask ctx st v ++ askedOf ctx st body ++ askedInClauses ctx (after (stmts ctx false false body) st) cs
  | .default_ _ body :: cs => askedOf ctx st body ++ askedInClauses ctx (after (stmts ctx false false body) st) cs

/-- The expressions of handlers. -/
def askedInCatches (ctx : Context) (st : State) : List Catch → List (Option Question)
  | [] => []
  | ⟨_, _, name, body⟩ :: cs =>
    let inside := after (declare name (some (.object ""))) st.enter
    asked ctx inside body ++ askedInCatches ctx (after (stmt ctx body) inside).leave cs

end

/-! ## Guesses -/

/-- Among the types of what is joined to one value there is an unknown one, and every known one is that of strings:
    all may be strings, but the checker says that not all are. -/
def Unsure (types : List (Option Sigil)) : Prop := none ∈ types ∧ ∀ s, some s ∈ types → s.isStr

end Check

/-- The expressions that a sum or a literal joins to one value. -/
def Expr.joined : Expr → List Expr
  | .binary _ .add l r => [l, r]
  | .list _ es => es
  | .map _ es => es.map Prod.snd
  | _ => []

/-- The expressions that an expression takes its value from as it is. -/
def Expr.taken : Expr → List Expr
  | .ternary _ _ a b => [a, b]
  | .index _ b _ => [b]
  | _ => []

theorem Expr.mem_children {e x : Expr} (mem : x ∈ e.joined ++ e.taken) : x ∈ e.children := by
  cases e with
  | binary i op l r => cases op <;> simp_all [joined, taken, children]
  | _ => simp_all [joined, taken, children]

namespace Check

/-- The type that is found for an expression rests on a guess. -/
inductive Guesses (ctx : Context) (st : State) : Expr → Prop where
  | here {e : Expr} (unsure : Unsure (e.joined.map (type? ctx st))) : Guesses ctx st e
  | part {e x : Expr} (mem : x ∈ e.joined ++ e.taken) (guesses : Guesses ctx st x) : Guesses ctx st e

/-- What inference records for an expression is what the checker finds, where that is a type and no guess. -/
structure Question.Answered (q : Question) (e : Expr) : Prop where
  /-- It is the same expression. -/
  same : e.erase = q.value.erase
  /-- The checker goes on behind it. -/
  passed : (result? (expr q.ctx q.value) q.state).isSome
  /-- Both types are the same. -/
  agrees : ∀ s, type? q.ctx q.state q.value = some s → ¬Guesses q.ctx q.state q.value → e.info.sigil = some s

/-! ## What the checker makes of expressions -/

section Yields

variable {α β : Type} {x : Checking α} {f : α → Checking β} {st st' : State} {a : α} {b : β}

theorem Yields.result?_eq {R : State → State → Prop} [steady : Steady R x] (yields : Yields x st a st') :
    result? x st = some (a, st') := by
  obtain ⟨log, log', run⟩ := yields
  rw [← steady.blind st log, run]
  rfl

theorem Yields.related {R : State → State → Prop} [steady : Steady R x] (yields : Yields x st a st') : R st st' :=
  steady.related st a st' (yields.result?_eq (R := R))

theorem Yields.after_eq {R : State → State → Prop} [Steady R x] (yields : Yields x st a st') : after x st = st' := by
  rw [after, yields.result?_eq (R := R)]
  rfl

/-- A step that changes nothing hands the state on. -/
theorem Yields.of_seq [Steady Eq x] (yields : Yields (x >>= f) st b st') :
    ∃ a, Yields x st a st ∧ Yields (f a) st b st' := by
  obtain ⟨a, st₁, first, rest⟩ := yields.of_bind
  obtain rfl : st = st₁ := first.related
  exact ⟨a, first, rest⟩

theorem type?_eq {ctx : Context} {e e' : Expr} {t : Option Sigil} (yields : Yields (expr ctx e) st (e', t) st') :
    type? ctx st e = t := by
  rw [type?, yields.result?_eq (R := Eq)]
  rfl

end Yields

variable {ctx : Context} {st st' : State}

/-- What the checker makes of an expression and the type it finds, by what it makes of the parts. -/
inductive Checks (ctx : Context) (st : State) : Expr → Expr → Option Sigil → Prop where
  | number (i : Info) (v : Int64) : Checks ctx st (.number i v) (.number i v) (some .int)
  | bool (i : Info) (v : Bool) : Checks ctx st (.bool i v) (.bool i v) (some .bool)
  | str (i : Info) (v : String) : Checks ctx st (.str i v) (.str i v) (some .str)
  | ident {i : Info} {name : String} {t : Option Sigil} (found : Yields (identType ctx i.span name) st t st) :
      Checks ctx st (.ident i name) (.ident i name) t
  | binary {i : Info} {op : BinaryOp} {l l' r r' : Expr} {lt rt t : Option Sigil}
      (left : Yields (expr ctx l) st (l', lt) st) (right : Yields (expr ctx r) st (r', rt) st)
      (found : Yields (binaryType i.span op lt rt) st t st) : Checks ctx st (.binary i op l r) (.binary i op l' r') t
  | unary {i : Info} {op : UnaryOp} {e e' : Expr} {t : Option Sigil} (operand : Yields (expr ctx e) st (e', t) st) :
      Checks ctx st (.unary i op e) (.unary i op e') (some (if op == .not then .bool else .int))
  | ternary {i : Info} {c c' a a' b b' : Expr} {ct at_ bt : Option Sigil} (cond : Yields (expr ctx c) st (c', ct) st)
      (first : Yields (expr ctx a) st (a', at_) st) (second : Yields (expr ctx b) st (b', bt) st) :
      Checks ctx st (.ternary i c a b) (.ternary i c' a' b') (if at_ == bt then at_ else none)
  | list {i : Info} {es : List Expr} {rs : List (Expr × Option Sigil)}
      (each : List.Forall₂ (fun e r => Yields (expr ctx e) st r st) es rs) :
      Checks ctx st (.list i es) (.list i (rs.map Prod.fst)) (some (.list (literalElem (rs.map Prod.snd))))
  | map {i : Info} {es : List (Expr × Expr)} {ks : List Expr} {vs : List (Expr × Option Sigil)}
      (keys : List.Forall₂ (fun entry k => ∃ t, Yields (expr ctx entry.1) st (k, t) st) es ks)
      (values : List.Forall₂ (fun entry r => Yields (expr ctx entry.2) st r st) es vs) :
      Checks ctx st (.map i es) (.map i (ks.zip (vs.map Prod.fst))) (some (.map (literalElem (vs.map Prod.snd))))
  | index {i : Info} {b b' k k' : Expr} {bt kt : Option Sigil} (base : Yields (expr ctx b) st (b', bt) st)
      (key : Yields (expr ctx k) st (k', kt) st) : Checks ctx st (.index i b k) (.index i b' k')
        (bt.bind fun t => if t.isCollection then some t.elemSigil else none)
  | member {i : Info} {o o' : Expr} {ot t : Option Sigil} {name : String}
      (object : Yields (expr ctx o) st (o', ot) st) :
      Checks ctx st (.member i o name) (.member { i with resolved := t } o' name) t
  | call {i : Info} {callee : String} {args : List Expr} {rs : List (Expr × Option Sigil)} {t : Option Sigil}
      (each : List.Forall₂ (fun e r => Yields (expr ctx e) st r st) args rs)
      (found : Yields (callType ctx i.span callee rs) st t st) :
      Checks ctx st (.call i callee args) (.call i callee (rs.map Prod.fst)) t
  | method {i : Info} {r r' : Expr} {rt t : Option Sigil} {name : String} {args : List Expr}
      {rs : List (Expr × Option Sigil)} (receiver : Yields (expr ctx r) st (r', rt) st)
      (each : List.Forall₂ (fun e r => Yields (expr ctx e) st r st) args rs) :
      Checks ctx st (.method i r name args) (.method { i with resolved := t } r' name (rs.map Prod.fst)) t
  | new_ {i : Info} {cls : String} {args : List Expr} {rs : List (Expr × Option Sigil)} {t : Option Sigil}
      (each : List.Forall₂ (fun e r => Yields (expr ctx e) st r st) args rs)
      (found : Yields (newType ctx i.span cls rs.length) st t st) :
      Checks ctx st (.new_ i cls args) (.new_ i cls (rs.map Prod.fst)) t
  | super (i : Info) : Checks ctx st (.super i) (.super i) (some (.object ctx.base))
  | step {i : Info} {op : StepOp} {first : Bool} {e e' : Expr} {t : Option Sigil}
      (target : Yields (expr ctx e) st (e', t) st) :
      Checks ctx st (.step i op first e) (.step i op first e') (some .int)
  | funcRef (i : Info) (name : String) : Checks ctx st (.funcRef i name) (.funcRef i name) (some .int)

theorem Yields.of_exprs {es : List Expr} {rs : List (Expr × Option Sigil)} (yields : Yields (exprs ctx es) st rs st') :
    List.Forall₂ (fun e r => Yields (expr ctx e) st r st) es rs := by
  induction es generalizing rs st' with
  | nil =>
      unfold exprs at yields
      obtain ⟨rfl, -⟩ := yields.of_pure
      exact .nil
  | cons e es ih =>
      unfold exprs at yields
      obtain ⟨r, first, yields⟩ := yields.of_seq
      obtain ⟨rest, others, yields⟩ := yields.of_seq
      obtain ⟨rfl, -⟩ := yields.of_pure
      exact .cons first (ih others)

theorem Yields.of_keys {es : List (Expr × Expr)} {ks : List Expr} (yields : Yields (keys ctx es) st ks st') :
    List.Forall₂ (fun entry k => ∃ t, Yields (expr ctx entry.1) st (k, t) st) es ks := by
  induction es generalizing ks st' with
  | nil =>
      unfold keys at yields
      obtain ⟨rfl, -⟩ := yields.of_pure
      exact .nil
  | cons entry es ih =>
      unfold keys at yields
      obtain ⟨r, first, yields⟩ := yields.of_seq
      obtain ⟨_, -, yields⟩ := yields.of_seq
      obtain ⟨rest, others, yields⟩ := yields.of_seq
      obtain ⟨rfl, -⟩ := yields.of_pure
      exact .cons ⟨r.2, first⟩ (ih others)

theorem Yields.of_values {es : List (Expr × Expr)} {rs : List (Expr × Option Sigil)}
    (yields : Yields (values ctx es) st rs st') :
    List.Forall₂ (fun entry r => Yields (expr ctx entry.2) st r st) es rs := by
  induction es generalizing rs st' with
  | nil =>
      unfold values at yields
      obtain ⟨rfl, -⟩ := yields.of_pure
      exact .nil
  | cons entry es ih =>
      unfold values at yields
      obtain ⟨r, first, yields⟩ := yields.of_seq
      obtain ⟨rest, others, yields⟩ := yields.of_seq
      obtain ⟨rfl, -⟩ := yields.of_pure
      exact .cons first (ih others)

theorem Yields.checks {e e' : Expr} {t : Option Sigil} (yields : Yields (expr ctx e) st (e', t) st') :
    Checks ctx st e e' t := by
  cases e with
  | number i v | bool i v | str i v =>
      unfold expr at yields
      cases yields.of_pure.1
      constructor
  | ident i name =>
      unfold expr at yields
      obtain ⟨t, found, yields⟩ := yields.of_seq
      cases yields.of_pure.1
      exact .ident found
  | binary i op l r =>
      unfold expr at yields
      obtain ⟨⟨l', lt⟩, left, yields⟩ := yields.of_seq
      obtain ⟨⟨r', rt⟩, right, yields⟩ := yields.of_seq
      obtain ⟨t, found, yields⟩ := yields.of_seq
      cases yields.of_pure.1
      exact .binary left right found
  | unary i op e =>
      unfold expr at yields
      obtain ⟨⟨e', t⟩, operand, yields⟩ := yields.of_seq
      cases yields.of_pure.1
      exact .unary operand
  | ternary i c a b =>
      unfold expr at yields
      obtain ⟨⟨c', ct⟩, cond, yields⟩ := yields.of_seq
      obtain ⟨⟨a', at_⟩, first, yields⟩ := yields.of_seq
      obtain ⟨⟨b', bt⟩, second, yields⟩ := yields.of_seq
      cases yields.of_pure.1
      exact .ternary cond first second
  | list i es =>
      unfold expr at yields
      obtain ⟨rs, each, yields⟩ := yields.of_seq
      cases yields.of_pure.1
      exact .list each.of_exprs
  | map i es =>
      unfold expr at yields
      obtain ⟨ks, keys, yields⟩ := yields.of_seq
      obtain ⟨vs, values, yields⟩ := yields.of_seq
      cases yields.of_pure.1
      exact .map keys.of_keys values.of_values
  | index i b k =>
      unfold expr at yields
      obtain ⟨⟨b', bt⟩, base, yields⟩ := yields.of_seq
      obtain ⟨⟨k', kt⟩, key, yields⟩ := yields.of_seq
      cases yields.of_pure.1
      exact .index base key
  | member i o name =>
      unfold expr at yields
      obtain ⟨⟨o', ot⟩, object, yields⟩ := yields.of_seq
      obtain ⟨t, -, yields⟩ := yields.of_seq
      cases yields.of_pure.1
      exact .member object
  | call i callee args =>
      unfold expr at yields
      obtain ⟨rs, each, yields⟩ := yields.of_seq
      obtain ⟨t, found, yields⟩ := yields.of_seq
      cases yields.of_pure.1
      exact .call each.of_exprs found
  | method i r name args =>
      unfold expr at yields
      obtain ⟨⟨r', rt⟩, receiver, yields⟩ := yields.of_seq
      obtain ⟨rs, each, yields⟩ := yields.of_seq
      obtain ⟨t, -, yields⟩ := yields.of_seq
      cases yields.of_pure.1
      exact .method receiver each.of_exprs
  | new_ i cls args =>
      unfold expr at yields
      obtain ⟨rs, each, yields⟩ := yields.of_seq
      obtain ⟨t, found, yields⟩ := yields.of_seq
      cases yields.of_pure.1
      exact .new_ each.of_exprs found
  | super i =>
      unfold expr at yields
      dsimp only at yields
      split at yields
      · exact (not_yields_refused yields).elim
      · cases yields.of_pure.1
        exact .super i
  | step i op first e =>
      unfold expr at yields
      obtain ⟨⟨e', t⟩, target, yields⟩ := yields.of_seq
      cases yields.of_pure.1
      exact .step target
  | funcRef i name =>
      unfold expr at yields
      dsimp only at yields
      split at yields
      · exact (not_yields_refused yields).elim
      · cases yields.of_pure.1
        exact .funcRef i name

theorem Checks.children {e e' : Expr} {t : Option Sigil} (checks : Checks ctx st e e' t) :
    List.Forall₂ (fun x x' => ∃ t, Yields (expr ctx x) st (x', t) st) e.children e'.children := by
  have firsts {es : List Expr} {rs : List (Expr × Option Sigil)}
      (each : List.Forall₂ (fun e r => Yields (expr ctx e) st r st) es rs) :
      List.Forall₂ (fun x x' => ∃ t, Yields (expr ctx x) st (x', t) st) es (rs.map Prod.fst) :=
    List.forall₂_map_right_iff.mpr (each.imp fun x r yields => ⟨r.2, yields⟩)
  cases checks with
  | number | bool | str | ident | super | funcRef => exact .nil
  | unary part | member part | step part => exact .cons ⟨_, part⟩ .nil
  | binary first second | index first second => exact .cons ⟨_, first⟩ (.cons ⟨_, second⟩ .nil)
  | ternary cond first second => exact .cons ⟨_, cond⟩ (.cons ⟨_, first⟩ (.cons ⟨_, second⟩ .nil))
  | list each | call each | new_ each => exact firsts each
  | method receiver each => exact .cons ⟨_, receiver⟩ (firsts each)
  | @map i es ks vs keys values =>
      have lengths : ks.length = (vs.map Prod.fst).length := by
        rw [List.length_map, ← keys.length_eq, values.length_eq]
      rw [Expr.children, Expr.children, List.map_fst_zip lengths.le, List.map_snd_zip lengths.ge]
      apply List.rel_append
      · exact List.forall₂_map_left_iff.mpr keys
      · exact firsts (List.forall₂_map_left_iff.mpr values)

/-- A list made piece by piece is related to another made so if the pieces are. -/
theorem forall₂_flatMap {α α' β β' : Type} {R : α → α' → Prop} {S : β → β' → Prop} {f : α → List β} {g : α' → List β'}
    {xs : List α} {ys : List α'} (all : List.Forall₂ R xs ys)
    (each : ∀ x ∈ xs, ∀ y, R x y → List.Forall₂ S (f x) (g y)) : List.Forall₂ S (xs.flatMap f) (ys.flatMap g) := by
  induction all with
  | nil => exact .nil
  | @cons x y xs ys first _ ih =>
      obtain ⟨own, others⟩ := List.forall_mem_cons.mp each
      exact List.rel_append (own y first) (ih others)

theorem Yields.visits {e e' : Expr} {t : Option Sigil} (yields : Yields (expr ctx e) st (e', t) st') :
    List.Forall₂ (fun x x' => ∃ t, Yields (expr ctx x) st (x', t) st) e.visits e'.visits := by
  induction e using Expr.inductionOn generalizing e' t st' with
  | step e ih =>
      obtain rfl : st = st' := yields.related
      rw [Expr.visits_eq, Expr.visits_eq e']
      apply List.rel_append
      · apply forall₂_flatMap yields.checks.children
        rintro x mem x' ⟨t, part⟩
        exact ih x mem part
      · exact .cons ⟨t, yields⟩ .nil

/-! ## What inference makes of them -/

/-- Where the checker and inference stand in the same class and know the same classes and results. -/
structure Context.Matches (ctx : Context) (ctx' : Infer.Context) : Prop where
  cls : ctx'.cls = ctx.cls
  base : Infer.baseOf ctx' = ctx.base
  classes : ∀ name, ctx.classes.has name → ctx'.classes.has name
  results : ∀ name f, ctx.func? name = some f → ctx'.hints.results.get? (SymbolName.func name) = f.result

/-- Inference knows the variables of all scopes with their types, and takes no class for a variable. The receiver is no
    variable for inference. -/
structure Context.Agrees (ctx : Context) (st : State) (ctx' : Infer.Context) (fs : Infer.Facts) : Prop where
  known : ∀ name ≠ "this", ∀ t, lookup? st.scopes name = some t →
    t = some (fs.var ctx'.routine name) ∧ fs.isVariable ctx' name
  classes : ∀ name ≠ "this", ctx.classes.has name → fs.isVariable ctx' name = false

variable {ctx' : Infer.Context} {fs : Infer.Facts} {at_ : Span} {name : String} {s : Sigil}

theorem identSigil_eq (same : ctx.Matches ctx') (agrees : ctx.Agrees st ctx' fs)
    (yields : Yields (identType ctx at_ name) st (some s) st') : Infer.identSigil ctx' fs name = s := by
  unfold identType at yields
  dsimp only at yields
  split at yields
  · next isThis =>
      split at yields
      · exact (not_yields_refused yields).elim
      · next inside =>
          cases yields.of_pure.1
          have around : ctx.cls ≠ "" := by
            intro empty
            exact inside (by simp [empty])
          simp [Infer.identSigil, isThis, around, same.cls]
  · next other =>
      have other : name ≠ "this" := by simpa using other
      have noThis : (name == "this") = false := by simpa using other
      obtain ⟨found, looked, yields⟩ := yields.of_seq
      obtain ⟨rfl, -⟩ := looked.of_pure
      split at yields
      · next type known =>
          obtain ⟨typed, isVariable⟩ := agrees.known name other type known
          cases yields.of_pure.1.symm.trans typed
          simp [Infer.identSigil, noThis, isVariable]
      · split at yields
        · next isClass =>
            cases yields.of_pure.1
            simp [Infer.identSigil, noThis, agrees.classes name other isClass, same.classes name isClass]
        · split at yields
          · exact (not_yields_refused yields).elim
          · exact (not_yields_fail yields).elim

/-- What is recorded for operands or elements is what is found for them, where that is a type. -/
def SameTypes (types : List (Option Sigil)) (sigils : List Sigil) : Prop :=
  List.Forall₂ (fun t s => ∀ s', t = some s' → s = s') types sigils

theorem all_isStr_eq {types : List (Option Sigil)} {sigils : List Sigil} (same : SameTypes types sigils)
    (sure : ¬Unsure types) : types.all (fun t => (t.map Sigil.isStr).getD false) = sigils.all Sigil.isStr := by
  by_cases unknown : none ∈ types
  · obtain ⟨s, known, other⟩ : ∃ s, some s ∈ types ∧ ¬s.isStr := by
      by_contra strings
      push Not at strings
      exact sure ⟨unknown, strings⟩
    obtain ⟨i, hi, at_⟩ := List.mem_iff_getElem.mp known
    have recorded := (List.forall₂_iff_get.mp same).2 i hi ((List.forall₂_iff_get.mp same).1 ▸ hi) s at_
    have left : types.all (fun t => (t.map Sigil.isStr).getD false) = false :=
      List.all_eq_false.mpr ⟨none, unknown, by simp⟩
    have right : sigils.all Sigil.isStr = false :=
      List.all_eq_false.mpr ⟨s, recorded ▸ List.get_mem _ _, by simpa using other⟩
    rw [left, right]
  · induction same with
    | nil => rfl
    | @cons t s types sigils first rest ih =>
        obtain ⟨own, others⟩ := not_or.mp (mt List.mem_cons.mpr unknown)
        cases t with
        | none => exact absurd rfl own
        | some s' =>
            obtain rfl := first s' rfl
            have others := ih (fun unsure => others unsure.1) others
            simp [others]

theorem literalElem_eq {types : List (Option Sigil)} {sigils : List Sigil} (same : SameTypes types sigils)
    (sure : ¬Unsure types) : literalElem types = Infer.literalElem sigils := by
  have empty : types.isEmpty = sigils.isEmpty := by cases same <;> rfl
  rw [literalElem, Infer.literalElem, all_isStr_eq same sure, empty]

theorem Yields.of_binaryType {op : BinaryOp} {lt rt t : Option Sigil}
    (yields : Yields (binaryType at_ op lt rt) st t st') :
    t = some (if op.isLogical then .bool
      else if op == .add && [lt, rt].all (fun t => (t.map Sigil.isStr).getD false) then .str else .int) := by
  unfold binaryType at yields
  dsimp only at yields
  split at yields
  · next logical => rw [if_pos logical, ← yields.of_pure.1]
  · next arithmetic =>
      rw [if_neg arithmetic]
      split at yields
      · next isAdd =>
          rw [isAdd]
          split at yields
          · split at yields
            · next l r types both =>
                obtain ⟨rfl, rfl⟩ := Prod.mk.inj types
                rw [← yields.of_pure.1]
                simpa using both
            · next l r types notBoth =>
                obtain ⟨rfl, rfl⟩ := Prod.mk.inj types
                have whole : t = some .int := by
                  split at yields
                  · obtain ⟨_, -, yields⟩ := yields.of_seq
                    exact yields.of_pure.1.symm
                  · exact yields.of_pure.1.symm
                rw [whole]
                simpa using notBoth
          · next unknown =>
              rw [← yields.of_pure.1]
              cases lt with
              | none => rfl
              | some l =>
                  cases rt with
                  | none => simp
                  | some r => exact (unknown l r rfl).elim
      · next notAdd =>
          rw [← yields.of_pure.1]
          simp [notAdd]

theorem binarySigil_eq {op : BinaryOp} {lt rt : Option Sigil} {l r : Sigil}
    (sum : (op == .add) = true → ¬Unsure [lt, rt] ∧ SameTypes [lt, rt] [l, r])
    (yields : Yields (binaryType at_ op lt rt) st (some s) st') : Infer.binarySigil op l r = s := by
  have found := Option.some.inj yields.of_binaryType
  rw [found, Infer.binarySigil]
  by_cases isAdd : (op == .add) = true
  · obtain ⟨sure, same⟩ := sum isAdd
    simp [all_isStr_eq same sure, isAdd]
  · simp [isAdd]

/-- A call of known type is one of a function of the program with that result. -/
theorem Yields.of_callType {callee : String} {args : List (Expr × Option Sigil)}
    (yields : Yields (callType ctx at_ callee args) st (some s) st') :
    LibFunc.ofName? callee = none ∧ ∃ f, ctx.func? callee = some f ∧ f.result = some s := by
  unfold callType at yields
  obtain ⟨known, -, yields⟩ := yields.of_seq
  split at yields
  · cases yields.of_pure.1
  · split at yields
    · dsimp only at yields
      split at yields
      · exact (not_yields_refused yields).elim
      · cases yields.of_pure.1
    · next notLibrary =>
        refine ⟨notLibrary, ?_⟩
        split at yields
        · dsimp only at yields
          split at yields
          · exact (not_yields_refused yields).elim
          · exact (not_yields_fail yields).elim
        · next f found =>
            dsimp only at yields
            split at yields
            · exact (not_yields_refused yields).elim
            · obtain ⟨_, -, yields⟩ := yields.of_seq
              exact ⟨f, found, yields.of_pure.1⟩

theorem Yields.of_newType {cls : String} {count : Nat} (yields : Yields (newType ctx at_ cls count) st (some s) st') :
    s = .object cls := by
  unfold newType at yields
  split at yields
  · obtain ⟨_, -, yields⟩ := yields.of_seq
    cases yields.of_pure.1
  · dsimp only at yields
    split at yields
    · obtain ⟨_, -, yields⟩ := yields.of_seq
      cases yields.of_pure.1
      rfl
    · cases yields.of_pure.1
      rfl

/-- What inference records for an expression is the type that the checker finds, unless that is none or rests on a
    guess. -/
theorem sigil_eq (same : ctx.Matches ctx') (agrees : ctx.Agrees st ctx' fs) {e e' : Expr}
    (yields : Yields (expr ctx e) st (e', some s) st') (sure : ¬Guesses ctx st e) :
    (Infer.expr ctx' fs e').sigil = s := by
  induction e using Expr.inductionOn generalizing e' s st' with
  | step e ih =>
      have part {x x' : Expr} {s' : Sigil} (mem : x ∈ e.joined ++ e.taken)
          (found : Yields (expr ctx x) st (x', some s') st) : (Infer.expr ctx' fs x').sigil = s' :=
        ih x (Expr.mem_children mem) found fun guesses => sure (.part mem guesses)
      have sames {xs : List Expr} {rs : List (Expr × Option Sigil)} (within : xs ⊆ e.joined)
          (each : List.Forall₂ (fun e r => Yields (expr ctx e) st r st) xs rs) :
          SameTypes (rs.map Prod.snd) (rs.map fun r => (Infer.expr ctx' fs r.1).sigil) := by
        induction each with
        | nil => exact .nil
        | @cons x r xs rs first _ ih =>
            obtain ⟨own, others⟩ := List.cons_subset.mp within
            refine .cons (fun s' known => part (List.mem_append_left _ own) ?_) (ih others)
            rwa [← known]
      have joined {rs : List (Expr × Option Sigil)}
          (each : List.Forall₂ (fun e r => Yields (expr ctx e) st r st) e.joined rs) :
          ¬Unsure (rs.map Prod.snd) ∧
            SameTypes (rs.map Prod.snd) (rs.map fun r => (Infer.expr ctx' fs r.1).sigil) := by
        refine ⟨fun unsure => sure (.here ?_), sames (List.Subset.refl _) each⟩
        have types : e.joined.map (type? ctx st) = rs.map Prod.snd :=
          List.forall₂_eq_eq_eq ▸ List.forall₂_map_left_iff.mpr
            (List.forall₂_map_right_iff.mpr (each.imp fun x r yields => type?_eq yields))
        rwa [types]
      generalize known : some s = t at yields
      cases yields.checks with
      | number | bool | str | step | funcRef => cases known; rfl
      | ident found => subst known; exact identSigil_eq same agrees found
      | unary => cases known; rfl
      | @binary i op l l' r r' lt rt t left right found =>
          subst known
          apply binarySigil_eq (fun isAdd => ?_) found
          obtain rfl : op = .add := by cases op <;> first | rfl | cases isAdd
          exact joined (.cons left (.cons right .nil))
      | @ternary i c c' a a' b b' ct at_ bt cond first second =>
          obtain ⟨rfl, rfl⟩ : at_ = some s ∧ bt = some s := by
            split at known
            · next equal =>
                obtain rfl := eq_of_beq equal
                exact ⟨known.symm, known.symm⟩
            · cases known
          show (if (Infer.expr ctx' fs a').sigil == (Infer.expr ctx' fs b').sigil then (Infer.expr ctx' fs a').sigil
            else .int) = s
          rw [part (by simp [Expr.taken]) first, part (by simp [Expr.taken]) second, if_pos (beq_self_eq_true s)]
      | @list i es rs each =>
          cases known
          obtain ⟨sure, types⟩ := joined each
          rw [literalElem_eq types sure]
          show Sigil.list (Infer.literalElem ((Infer.exprs ctx' fs (rs.map Prod.fst)).map Expr.sigil)) = _
          rw [Infer.exprs_eq, List.map_map, List.map_map]
          rfl
      | @map i es ks vs keys values =>
          cases known
          obtain ⟨sure, types⟩ := joined (List.forall₂_map_left_iff.mpr values)
          rw [literalElem_eq types sure]
          show Sigil.map (Infer.literalElem ((Infer.entries ctx' fs (ks.zip (vs.map Prod.fst))).map fun entry =>
            entry.2.sigil)) = _
          have lengths : (vs.map Prod.fst).length ≤ ks.length := by
            rw [List.length_map, ← keys.length_eq, values.length_eq]
          have held : (ks.zip (vs.map Prod.fst)).map Prod.snd = vs.map Prod.fst := List.map_snd_zip lengths
          have sigils := congrArg (List.map fun x => (Infer.expr ctx' fs x).sigil) held
          rw [List.map_map, List.map_map] at sigils
          rw [Infer.entries_eq, List.map_map]
          exact congrArg (Sigil.map ∘ Infer.literalElem) sigils
      | @index i b b' k k' bt kt base key =>
          obtain ⟨t, rfl, element⟩ := Option.bind_eq_some_iff.mp known.symm
          show Infer.indexSigil (Infer.expr ctx' fs b').sigil = s
          rw [part (by simp [Expr.taken]) base]
          cases t with
          | list e | map e => exact Option.some.inj element
          | int | bool | str | object => cases element
      | member object => subst known; rfl
      | @call i callee args rs t each found =>
          subst known
          obtain ⟨notLibrary, f, declared, result⟩ := found.of_callType
          show Infer.callSigil ctx' fs callee _ = s
          rw [Infer.callSigil, notLibrary]
          simp [same.results callee f declared, result]
      | method receiver each => subst known; rfl
      | new_ each found => subst known; exact found.of_newType.symm
      | super i => cases known; exact congrArg Sigil.object same.base

theorem visits_expr (e : Expr) : (Infer.expr ctx' fs e).visits = e.visits.map (Infer.expr ctx' fs) := by
  induction e using Expr.inductionOn with
  | step e ih =>
      rw [Expr.visits_eq, Infer.children_expr, List.flatMap_map, Expr.visits_eq e, List.map_append, List.map_flatMap]
      exact congrArg (· ++ _) (List.flatMap_congr ih)

/-- If a question is asked, the expression that inference has seen answers it. -/
def Answers (q? : Option Question) (e : Expr) : Prop := ∀ q ∈ q?, q.Answered e

theorem Gives.of_yields {α : Type} {x : Checking α} {P : α → Prop} {a : α} (gives : Gives x P)
    (yields : Yields x st a st') : P a := by
  obtain ⟨log, log', run⟩ := yields
  exact gives st log (a, st') (congrArg Prod.fst run)

theorem answers_ask (same : ctx.Matches ctx') (agrees : ctx.Agrees st ctx' fs) {e e' : Expr} {t : Option Sigil}
    (yields : Yields (expr ctx e) st (e', t) st') :
    List.Forall₂ Answers (ask ctx st e) (Infer.expr ctx' fs e').visits := by
  rw [ask, visits_expr]
  apply List.forall₂_map_left_iff.mpr
  apply List.forall₂_map_right_iff.mpr
  apply yields.visits.imp
  rintro x x' ⟨t, part⟩ q ⟨⟩
  constructor
  case same => exact (Infer.erase_expr ctx' fs x').trans ((erase_expr ctx x).of_yields part)
  case passed => exact Option.isSome_iff_exists.mpr ⟨_, part.result?_eq (R := Eq)⟩
  case agrees =>
    intro s found sure
    obtain rfl : t = some s := (type?_eq part).symm.trans found
    have recorded := sigil_eq same agrees part sure
    rw [Infer.recorded_expr]
    rw [Expr.sigil, Infer.recorded_expr] at recorded
    exact congrArg some recorded

end Check

end Lantern
