import Lantern.Proofs.Checking

/-!
# Inference step by step

Inference walks a program in single steps: it makes a frame for a routine, settles a static field or a parameter,
records the sigil of one expression, or notes a declaration or an assignment. Which steps it takes, and in which
order, can be read off the program that comes out. Each record is made from what is recorded in the parts of the
expression and from what the steps before have found out about variables.
-/

namespace Lantern

/-! ## The order of expressions -/

/-- The expressions directly below an expression, as a walk meets them: all keys of a map literal before its values. -/
def Expr.children : Expr → List Expr
  | .number .. | .bool .. | .str .. | .ident .. | .super _ | .funcRef .. => []
  | .binary _ _ l r => [l, r]
  | .unary _ _ e => [e]
  | .ternary _ c a b => [c, a, b]
  | .list _ es => es
  | .map _ es => es.map Prod.fst ++ es.map Prod.snd
  | .index _ b k => [b, k]
  | .member _ o _ => [o]
  | .call _ _ args | .new_ _ _ args => args
  | .method _ r _ args => r :: args
  | .step _ _ _ t => [t]

theorem Expr.sizeOf_children {e e' : Expr} (mem : e' ∈ e.children) : sizeOf e' < sizeOf e := by
  cases e with
  | number | bool | str | ident | super | funcRef => cases mem
  | binary i op l r | index i l r =>
      simp only [children, List.mem_cons, List.not_mem_nil, or_false] at mem
      rcases mem with rfl | rfl <;> simp only [binary.sizeOf_spec, index.sizeOf_spec] <;> omega
  | unary i op e | member i e name | step i op first e =>
      cases List.mem_singleton.mp mem
      simp only [unary.sizeOf_spec, member.sizeOf_spec, step.sizeOf_spec]
      omega
  | ternary i c a b =>
      simp only [children, List.mem_cons, List.not_mem_nil, or_false] at mem
      rcases mem with rfl | rfl | rfl <;> simp <;> omega
  | list i es | call i callee es | new_ i cls es =>
      have := List.sizeOf_lt_of_mem (show e' ∈ es from mem)
      simp
      omega
  | map i es =>
      have held : ∃ entry ∈ es, e' = entry.1 ∨ e' = entry.2 := by
        rcases List.mem_append.mp mem with inside | inside
        · obtain ⟨entry, own, rfl⟩ := List.mem_map.mp inside
          exact ⟨entry, own, .inl rfl⟩
        · obtain ⟨entry, own, rfl⟩ := List.mem_map.mp inside
          exact ⟨entry, own, .inr rfl⟩
      obtain ⟨⟨k, v⟩, own, which⟩ := held
      have := List.sizeOf_lt_of_mem own
      simp only [Prod.mk.sizeOf_spec] at this
      rcases which with rfl | rfl <;> simp <;> omega
  | method i r name args =>
      rcases List.mem_cons.mp mem with rfl | inside
      · simp
        omega
      · have := List.sizeOf_lt_of_mem inside
        simp
        omega

/-- What holds of an expression if it holds of those directly below holds of every expression. -/
theorem Expr.inductionOn {P : Expr → Prop} (step : ∀ e : Expr, (∀ e' ∈ e.children, P e') → P e) (e : Expr) : P e :=
  step e fun e' mem =>
    have := Expr.sizeOf_children mem
    Expr.inductionOn step e'
termination_by sizeOf e

mutual

/-- The expressions of an expression in the order in which they are met, a whole after its parts. -/
def Expr.visits : Expr → List Expr
  | .number i v => [.number i v]
  | .bool i v => [.bool i v]
  | .str i v => [.str i v]
  | .ident i name => [.ident i name]
  | .binary i op l r => l.visits ++ r.visits ++ [.binary i op l r]
  | .unary i op e => e.visits ++ [.unary i op e]
  | .ternary i c a b => c.visits ++ a.visits ++ b.visits ++ [.ternary i c a b]
  | .list i es => visitsOf es ++ [.list i es]
  | .map i es => visitsOfKeys es ++ visitsOfValues es ++ [.map i es]
  | .index i b k => b.visits ++ k.visits ++ [.index i b k]
  | .member i o name => o.visits ++ [.member i o name]
  | .call i callee args => visitsOf args ++ [.call i callee args]
  | .method i r name args => r.visits ++ visitsOf args ++ [.method i r name args]
  | .new_ i cls args => visitsOf args ++ [.new_ i cls args]
  | .super i => [.super i]
  | .step i op first t => t.visits ++ [.step i op first t]
  | .funcRef i name => [.funcRef i name]

/-- The expressions of several expressions. -/
def visitsOf : List Expr → List Expr
  | [] => []
  | e :: es => e.visits ++ visitsOf es

/-- The expressions of the keys of a map literal. -/
def visitsOfKeys : List (Expr × Expr) → List Expr
  | [] => []
  | (k, _) :: es => k.visits ++ visitsOfKeys es

/-- The expressions of the values of a map literal. -/
def visitsOfValues : List (Expr × Expr) → List Expr
  | [] => []
  | (_, v) :: es => v.visits ++ visitsOfValues es

end

theorem visitsOf_eq (es : List Expr) : visitsOf es = es.flatMap Expr.visits := by
  induction es with
  | nil => rfl
  | cons e es ih => simp [visitsOf, ih]

theorem visitsOfKeys_eq (es : List (Expr × Expr)) : visitsOfKeys es = (es.map Prod.fst).flatMap Expr.visits := by
  induction es with
  | nil => rfl
  | cons e es ih => simp [visitsOfKeys, ih]

theorem visitsOfValues_eq (es : List (Expr × Expr)) : visitsOfValues es = (es.map Prod.snd).flatMap Expr.visits := by
  induction es with
  | nil => rfl
  | cons e es ih => simp [visitsOfValues, ih]

theorem Expr.visits_eq (e : Expr) : e.visits = e.children.flatMap visits ++ [e] := by
  cases e <;> simp [visits, children, visitsOf_eq, visitsOfKeys_eq, visitsOfValues_eq]

/-! ## Association lists and frames -/

namespace Assoc

variable {α : Type}

theorem get?_cons (x : String × α) (xs : Assoc α) (name : String) :
    get? (x :: xs) name = if x.1 = name then some x.2 else xs.get? name := by
  by_cases same : x.1 = name <;> simp [get?, same]

theorem get?_replace (xs : Assoc α) (name other : String) (value : α) :
    get? (xs.map fun x => if x.1 == name then (name, value) else x) other =
      if other = name then (xs.get? name).map (fun _ => value) else xs.get? other := by
  induction xs with
  | nil => simp [get?]
  | cons x xs ih =>
      rw [List.map_cons, get?_cons, get?_cons, get?_cons, ih]
      by_cases own : x.1 = name
      · by_cases same : other = name
        · simp [own, same]
        · simp [own, same, Ne.symm same]
      · by_cases same : other = name
        · simp [own, same]
        · simp [own, same]

theorem get?_append_single (xs : Assoc α) (name other : String) (value : α) :
    get? (xs ++ [(name, value)]) other = (xs.get? other).or (if other = name then some value else none) := by
  induction xs with
  | nil =>
      by_cases same : other = name
      · simp [get?, same]
      · simp [get?, same, Ne.symm same]
  | cons x xs ih =>
      rw [List.cons_append, get?_cons, get?_cons, ih]
      split <;> rfl

theorem get?_put (xs : Assoc α) (name other : String) (value : α) :
    (xs.put name value).get? other = if other = name then some value else xs.get? other := by
  have isSome := isSome_get? xs name
  unfold put
  split
  · next known =>
      obtain ⟨a, found⟩ := Option.isSome_iff_exists.mp (isSome.trans known)
      rw [get?_replace, found, Option.map_some]
  · next unknown =>
      have absent : xs.get? name = none := by simpa [unknown] using isSome
      rw [get?_append_single]
      by_cases same : other = name
      · simp [same, absent]
      · simp [same]

theorem get?_eq_none_iff (xs : Assoc α) (name : String) : xs.get? name = none ↔ xs.has name = false := by
  rw [← isSome_get?, Option.isSome_eq_false_iff, Option.isNone_iff_eq_none]

/-- A name keeps the value it has, or gets one. -/
theorem get?_settle (xs : Assoc α) (name other : String) (value : α) :
    (if xs.has name then xs else xs.put name value).get? other =
      (xs.get? other).or (if other = name then some value else none) := by
  rw [← isSome_get?]
  by_cases same : other = name
  · subst same
    cases found : xs.get? other <;> simp [found, get?_put]
  · split <;> simp [get?_put, same]

theorem put_put (xs : Assoc α) (name : String) (a b : α) : (xs.put name a).put name b = xs.put name b := by
  have again : (xs.put name a).has name := (has_put xs name name a).mpr (.inl rfl)
  rw [put, if_pos again]
  unfold put
  split
  · rw [List.map_map]
    refine List.map_congr_left fun x _ => ?_
    by_cases same : x.1 = name <;> simp [same]
  · next unknown =>
      have kept : xs.map (fun x => if x.1 == name then (name, b) else x) = xs := by
        refine (List.map_congr_left fun x mem => ?_).trans xs.map_id
        have other : x.1 ≠ name := fun same => unknown (List.any_eq_true.mpr ⟨x, mem, by simp [same]⟩)
        simp [other]
      rw [List.map_append, kept]
      simp

end Assoc

namespace Infer

variable {ctx : Context} {fs fs' fs'' : Facts} {e : Expr}

theorem Facts.frame_setFrame (fs : Facts) (routine other : String) (f : Frame) :
    (fs.setFrame routine f).frame other = if other = routine then f else fs.frame other := by
  rw [frame, setFrame, Assoc.get?_put]
  split <;> rfl

theorem Facts.setFrame_setFrame (fs : Facts) (routine : String) (f g : Frame) :
    (fs.setFrame routine f).setFrame routine g = fs.setFrame routine g := by
  simp only [setFrame, Assoc.put_put]

theorem exprs_eq (es : List Expr) : exprs ctx fs es = es.map (expr ctx fs) := by
  induction es with
  | nil => rfl
  | cons e es ih => simp [exprs, ih]

theorem entries_eq (es : List (Expr × Expr)) :
    entries ctx fs es = es.map fun entry => (expr ctx fs entry.1, expr ctx fs entry.2) := by
  induction es with
  | nil => rfl
  | cons e es ih => simp [entries, ih]

theorem children_expr (e : Expr) : (expr ctx fs e).children = e.children.map (expr ctx fs) := by
  cases e <;> simp [expr, Expr.children, exprs_eq, entries_eq, Function.comp_def]

/-! ## Steps -/

/-- The sigil of an expression by what is recorded in its parts and what is known about variables. -/
def rule (ctx : Context) (fs : Facts) : Expr → Sigil
  | .number .. | .step .. | .funcRef .. => .int
  | .bool .. => .bool
  | .str .. => .str
  | .ident _ name => identSigil ctx fs name
  | .binary _ op l r => binarySigil op l.sigil r.sigil
  | .unary _ op _ => if op == .not then .bool else .int
  | .ternary _ _ a b => if a.sigil == b.sigil then a.sigil else .int
  | .list _ es => .list (literalElem (es.map Expr.sigil))
  | .map _ es => .map (literalElem (es.map fun entry => entry.2.sigil))
  | .index _ b _ => indexSigil b.sigil
  | .member i o name => i.resolved.getD (memberSigil ctx fs o name)
  | .call _ callee args => callSigil ctx fs callee (args.map Expr.sigil)
  | .method i r name _ => i.resolved.getD (methodSigil ctx fs r name)
  | .new_ _ cls _ => .object cls
  | .super _ => .object (baseOf ctx)

/-- A step of inference. -/
inductive Step where
  /-- A routine gets a frame. -/
  | enter (routine : String)
  /-- A static field is settled. -/
  | settleStatic (symbol : String) (sigil : Sigil)
  /-- A parameter of a routine is settled. -/
  | settleParam (routine name : String) (sigil : Sigil)
  /-- The sigil of an expression is recorded. -/
  | record (ctx : Context) (e : Expr)
  /-- A variable is declared; there is a sigil if its type or an initial value is written. -/
  | declare (ctx : Context) (name : String) (sigil : Option Sigil)
  /-- A value of the given sigil is assigned to a variable. -/
  | assign (ctx : Context) (name : String) (sigil : Sigil)

namespace Step

/-- What is known about variables after a step. -/
def perform (fs : Facts) : Step → Facts
  | enter routine => fs.setFrame routine (fs.frame routine)
  | settleStatic symbol s => { fs with statics := fs.statics.put symbol s }
  | settleParam routine name s =>
    fs.setFrame routine { fs.frame routine with params := (fs.frame routine).params.put name s }
  | record .. => fs
  | declare ctx name s => fs.declare ctx name s
  | assign ctx name s => fs.assign ctx name s

/-- A record is made by the rule. -/
def Sound (fs : Facts) : Step → Prop
  | record ctx e => e.info.sigil = some (rule ctx fs e)
  | _ => True

/-- The expression a step records the sigil of. -/
def recorded? : Step → Option Expr
  | record _ e => some e
  | _ => none

end Step

/-- What is known after several steps. -/
def run (fs : Facts) (steps : List Step) : Facts := steps.foldl Step.perform fs

/-- Steps lead from what is known at first to what is known in the end, and each record among them is made by the
    rule at its moment. -/
inductive Walks : Facts → List Step → Facts → Prop where
  | nil (fs : Facts) : Walks fs [] fs
  | cons {fs fs' : Facts} {step : Step} {steps : List Step} (sound : step.Sound fs)
      (rest : Walks (step.perform fs) steps fs') : Walks fs (step :: steps) fs'

namespace Walks

variable {step : Step} {steps steps' before after : List Step}

theorem single (sound : step.Sound fs) : Walks fs [step] (step.perform fs) := .cons sound (.nil _)

theorem append (first : Walks fs steps fs') (second : Walks fs' steps' fs'') : Walks fs (steps ++ steps') fs'' := by
  induction first with
  | nil => exact second
  | cons sound _ ih => exact .cons sound (ih second)

theorem run_eq (walks : Walks fs steps fs') : run fs steps = fs' := by
  induction walks with
  | nil => rfl
  | cons _ _ ih => exact ih

/-- What does not record anything may be done in any state. -/
theorem of_all_silent (fs : Facts) (silent : ∀ step ∈ steps, step.recorded? = none) :
    Walks fs steps (run fs steps) := by
  induction steps generalizing fs with
  | nil => exact .nil fs
  | cons step steps ih =>
      obtain ⟨own, others⟩ := List.forall_mem_cons.mp silent
      have sound : step.Sound fs := by
        cases step with
        | record => cases own
        | _ => trivial
      exact .cons sound (ih _ others)

theorem sound_of_split (walks : Walks fs (before ++ step :: after) fs') : step.Sound (run fs before) := by
  induction before generalizing fs with
  | nil =>
      cases walks with
      | cons sound _ => exact sound
  | cons first before ih =>
      cases walks with
      | cons _ rest => exact ih rest

end Walks

/-! ## The steps of a program -/

end Infer

open Infer (Context Step)

/-- The steps for an expression. -/
def Expr.steps (ctx : Context) (e : Expr) : List Step := e.visits.map (Step.record ctx)

/-- The steps for an expression that may be missing. -/
def Expr.optionSteps (ctx : Context) (o : Option Expr) : List Step := o.toList.flatMap (Expr.steps ctx)

mutual

/-- The steps for a statement with its sigils. -/
def Stmt.steps (ctx : Context) : Stmt → List Step
  | .block _ body => stmtsSteps ctx body
  | .print _ e | .expr _ e | .throw_ _ _ e => e.steps ctx
  | .assign _ name e => e.steps ctx ++ [.assign ctx name e.sigil]
  | .indexAssign _ b k e => b.steps ctx ++ k.steps ctx ++ e.steps ctx
  | .varDecl _ name type init => Expr.optionSteps ctx init ++ [.declare ctx name (type.or (init.map Expr.sigil))]
  | .ifElse _ c a b => c.steps ctx ++ a.steps ctx ++ (match b with
    | some b => b.steps ctx
    | none => [])
  | .while_ _ c body => c.steps ctx ++ body.steps ctx
  | .doWhile _ body c => body.steps ctx ++ c.steps ctx
  | .for_ _ init cond post body => (match init with
    | some i => i.steps ctx
    | none => []) ++ Expr.optionSteps ctx cond ++ (match post with
    | some p => p.steps ctx
    | none => []) ++ body.steps ctx
  | .switch _ e cs => e.steps ctx ++ clausesSteps ctx cs
  | .return_ _ e => Expr.optionSteps ctx e
  | .try_ _ body cs last => body.steps ctx ++ catchesSteps ctx cs ++ (match last with
    | some l => l.steps ctx
    | none => [])
  | .break_ _ | .continue_ _ | .func _ | .class_ _ | .bare _ | .printStmt .. => []

/-- The steps for statements in order. -/
def stmtsSteps (ctx : Context) : List Stmt → List Step
  | [] => []
  | s :: ss => s.steps ctx ++ stmtsSteps ctx ss

/-- The steps for the clauses of a switch. -/
def clausesSteps (ctx : Context) : List Clause → List Step
  | [] => []
  | .case_ _ v body :: cs => v.steps ctx ++ stmtsSteps ctx body ++ clausesSteps ctx cs
  | .default_ _ body :: cs => stmtsSteps ctx body ++ clausesSteps ctx cs

/-- The steps for handlers: the variable of each is declared as an object. -/
def catchesSteps (ctx : Context) : List Catch → List Step
  | [] => []
  | ⟨_, _, name, body⟩ :: cs => .declare ctx name (some (.object "")) :: (body.steps ctx ++ catchesSteps ctx cs)

end

/-- The steps for a statement that may be missing. -/
def Stmt.optionSteps (ctx : Context) (o : Option Stmt) : List Step := o.elim [] (Stmt.steps ctx)

namespace Stmt

variable {ctx : Context}

theorem steps_ifElse (s : Span) (c : Expr) (a : Stmt) (b : Option Stmt) :
    (ifElse s c a b).steps ctx = c.steps ctx ++ a.steps ctx ++ Stmt.optionSteps ctx b := by
  cases b <;> simp only [steps] <;> rfl

theorem steps_for (s : Span) (init : Option Stmt) (cond : Option Expr) (post : Option Stmt) (body : Stmt) :
    (for_ s init cond post body).steps ctx = Stmt.optionSteps ctx init ++ Expr.optionSteps ctx cond ++
      Stmt.optionSteps ctx post ++ body.steps ctx := by
  cases init <;> cases post <;> simp only [steps] <;> rfl

theorem steps_try (s : Span) (body : Stmt) (cs : List Catch) (last : Option Stmt) :
    (try_ s body cs last).steps ctx = body.steps ctx ++ catchesSteps ctx cs ++ Stmt.optionSteps ctx last := by
  cases last <;> simp only [steps] <;> rfl

end Stmt

/-- Steps at one place, made of those for expressions, declarations and assignments. -/
inductive Infer.Composed (ctx : Context) : List Step → Prop where
  | nil : Composed ctx []
  | value (e : Expr) : Composed ctx (e.steps ctx)
  | declare (name : String) (s : Option Sigil) : Composed ctx [.declare ctx name s]
  | assign (name : String) (s : Sigil) : Composed ctx [.assign ctx name s]
  | append {steps steps' : List Step} (first : Composed ctx steps) (second : Composed ctx steps') :
      Composed ctx (steps ++ steps')

section Composed

open Infer (Composed)

variable {ctx : Context}

theorem Expr.composed_option (o : Option Expr) : Composed ctx (Expr.optionSteps ctx o) := by
  cases o with
  | none => exact .nil
  | some e => exact .append (.value e) .nil

mutual

theorem Stmt.composed (s : Stmt) : Composed ctx (s.steps ctx) := by
  cases s with
  | block s body => exact stmtsComposed body
  | print s e | expr s e | throw_ s type e => exact .value e
  | assign s name e => exact .append (.value e) (.assign name e.sigil)
  | indexAssign s b k e => exact .append (.append (.value b) (.value k)) (.value e)
  | varDecl s name type init => exact .append (Expr.composed_option init) (.declare name _)
  | ifElse s c a b =>
      rw [Stmt.steps_ifElse]
      apply Composed.append (.append (.value c) (Stmt.composed a))
      cases b with
      | none => exact .nil
      | some b => exact Stmt.composed b
  | while_ s c body => exact .append (.value c) (Stmt.composed body)
  | doWhile s body c => exact .append (Stmt.composed body) (.value c)
  | for_ s init cond post body =>
      rw [Stmt.steps_for]
      refine .append (.append (.append ?_ (Expr.composed_option cond)) ?_) (Stmt.composed body)
      · cases init with
        | none => exact .nil
        | some i => exact Stmt.composed i
      · cases post with
        | none => exact .nil
        | some p => exact Stmt.composed p
  | switch s e cs => exact .append (.value e) (clausesComposed cs)
  | return_ s e => exact Expr.composed_option e
  | try_ s body cs last =>
      rw [Stmt.steps_try]
      apply Composed.append (.append (Stmt.composed body) (catchesComposed cs))
      cases last with
      | none => exact .nil
      | some l => exact Stmt.composed l
  | break_ | continue_ | func | class_ | bare | printStmt => exact .nil

theorem stmtsComposed (ss : List Stmt) : Composed ctx (stmtsSteps ctx ss) := by
  cases ss with
  | nil => exact .nil
  | cons s ss => exact .append (Stmt.composed s) (stmtsComposed ss)

theorem clausesComposed (cs : List Clause) : Composed ctx (clausesSteps ctx cs) := by
  match cs with
  | [] => exact .nil
  | .case_ s v body :: cs => exact .append (.append (.value v) (stmtsComposed body)) (clausesComposed cs)
  | .default_ s body :: cs => exact .append (stmtsComposed body) (clausesComposed cs)

theorem catchesComposed (cs : List Catch) : Composed ctx (catchesSteps ctx cs) := by
  match cs with
  | [] => exact .nil
  | ⟨s, type, name, body⟩ :: cs =>
      exact .append (.declare name _) (.append (Stmt.composed body) (catchesComposed cs))

end

end Composed

/-- The steps for a field: its initial value, and its sigil if it is static. -/
def Field.steps (ctx : Context) (f : Field) : List Step :=
  Expr.optionSteps ctx f.init ++ if f.isStatic then
    [.settleStatic (SymbolName.staticField ctx.cls f.name) ((f.type.or (f.init.map Expr.sigil)).getD .int)]
  else []

namespace Infer

/-- The parameters of a routine with their sigils, the receiver first. -/
def ownSigils (ctx : Context) (hasThis : Bool) (params : List Param) : List (String × Sigil) :=
  let hinted := (ctx.hints.params.get? ctx.routine).getD []
  (if hasThis then [("this", Sigil.object ctx.cls)] else []) ++
    paramSigils (if hasThis then hinted.drop 1 else hinted) params

/-- The steps for a routine: its parameters and its body. -/
def routineSteps (ctx : Context) (hasThis : Bool) (params : List Param) (body : Stmt) : List Step :=
  .enter ctx.routine :: ((ownSigils ctx hasThis params).map fun p => .settleParam ctx.routine p.1 p.2) ++
    body.steps ctx

end Infer

/-- The steps for a method. -/
def Method.steps (ctx : Context) (m : Method) : List Step :=
  Infer.routineSteps { ctx with routine := Check.methodSymbol ctx.cls m } (!m.isStatic) m.params m.body

/-- The steps for a constructor. -/
def Ctor.steps (ctx : Context) (k : Ctor) : List Step :=
  Infer.routineSteps { ctx with routine := SymbolName.ctor ctx.cls k.params.length } true k.params k.body

namespace Stmt

/-- The steps for the fields of an item. -/
def fieldSteps (ctx : Context) : Stmt → List Step
  | .class_ c => c.fields.flatMap (Field.steps { ctx with cls := c.name })
  | _ => []

theorem fieldSteps_of_plain {ctx : Context} {s : Stmt} (plain : ¬s.isDecl = true) : s.fieldSteps ctx = [] := by
  cases s with
  | class_ => exact absurd rfl plain
  | _ => rfl

/-- The steps for an item that is a top-level statement. -/
def topSteps (ctx : Context) (s : Stmt) : List Step := if s.isDecl then [] else s.steps ctx

/-- The steps for an item that is a function. -/
def funcSteps (ctx : Context) : Stmt → List Step
  | .func f => Infer.routineSteps { ctx with routine := SymbolName.func f.name } false f.params f.body
  | _ => []

/-- The steps for the methods and constructors of an item. -/
def memberSteps (ctx : Context) : Stmt → List Step
  | .class_ c => c.methods.flatMap (Method.steps { ctx with cls := c.name }) ++
      c.ctors.flatMap (Ctor.steps { ctx with cls := c.name })
  | _ => []

end Stmt

/-- The steps for all items of a program. -/
def itemsSteps (ctx : Context) (xs : List Stmt) : List Step :=
  .enter SymbolName.mainRoutine :: (xs.flatMap (Stmt.fieldSteps ctx) ++ xs.flatMap (Stmt.topSteps ctx) ++
    xs.flatMap (Stmt.funcSteps ctx) ++ xs.flatMap (Stmt.memberSteps ctx))

/-- Steps under the same hints: composed ones, and those for routines, parameters and static fields. -/
inductive Infer.Built (hints : Hints) : List Step → Prop where
  | nil : Built hints []
  | enter (routine : String) : Built hints [.enter routine]
  | settleStatic (symbol : String) (s : Sigil) : Built hints [.settleStatic symbol s]
  | settleParam (routine name : String) (s : Sigil) : Built hints [.settleParam routine name s]
  | composed (ctx : Context) {steps : List Step} (same : ctx.hints = hints) (composed : Infer.Composed ctx steps) :
      Built hints steps
  | append {steps steps' : List Step} (first : Built hints steps) (second : Built hints steps') :
      Built hints (steps ++ steps')

section Built

open Infer (Built)

variable {hints : Hints}

theorem Infer.Built.flatMap {α : Type} {f : α → List Step} {xs : List α} (each : ∀ x ∈ xs, Built hints (f x)) :
    Built hints (xs.flatMap f) := by
  induction xs with
  | nil => exact .nil
  | cons x xs ih =>
      obtain ⟨own, others⟩ := List.forall_mem_cons.mp each
      exact .append own (ih others)

theorem Infer.Built.routine (ctx : Context) (hasThis : Bool) (params : List Param) (body : Stmt) :
    Built ctx.hints (Infer.routineSteps ctx hasThis params body) := by
  have settles :
      Built ctx.hints ((Infer.ownSigils ctx hasThis params).map fun p => .settleParam ctx.routine p.1 p.2) := by
    rw [← List.flatMap_pure_eq_map]
    exact .flatMap fun p _ => .settleParam ctx.routine p.1 p.2
  exact .append (.append (.enter ctx.routine) settles) (.composed ctx rfl body.composed)

theorem itemsBuilt (ctx : Context) (xs : List Stmt) : Built ctx.hints (itemsSteps ctx xs) := by
  apply Built.append (.enter SymbolName.mainRoutine)
  refine .append (.append (.append (.flatMap fun s _ => ?fields) (.flatMap fun s _ => ?top))
    (.flatMap fun s _ => ?funcs)) (.flatMap fun s _ => ?members)
  case fields =>
    cases s with
    | class_ c =>
        refine .flatMap fun f _ => .append (.composed { ctx with cls := c.name } rfl (Expr.composed_option f.init)) ?_
        split
        · exact .settleStatic _ _
        · exact .nil
    | _ => exact .nil
  case top =>
    unfold Stmt.topSteps
    split
    · exact .nil
    · exact .composed ctx rfl s.composed
  case funcs =>
    cases s with
    | func f => exact Built.routine { ctx with routine := SymbolName.func f.name } false f.params f.body
    | _ => exact .nil
  case members =>
    cases s with
    | class_ c =>
        exact .append (.flatMap fun m _ => Built.routine { ctx with cls := c.name, routine := _ } _ m.params m.body)
          (.flatMap fun k _ => Built.routine { ctx with cls := c.name, routine := _ } true k.params k.body)
    | _ => exact .nil

end Built

/-- Where inference stands outside of routines and classes. -/
def Program.outside (p : Program) (hints : Hints) : Context :=
  ⟨hints, ClassTable.ofItems p.items, SymbolName.mainRoutine, ""⟩

/-- The steps of inference on a program, read off the program with its sigils. -/
def Program.walk (p : Program) (hints : Hints) : List Step :=
  itemsSteps (p.outside hints) (p.infer hints).program.items

/-- What is known about variables at first: the declared types of globals. -/
def Hints.start (hints : Hints) : Infer.Facts := ⟨[], hints.globalTypes, []⟩

/-! ## Inference takes these steps -/

namespace Infer

/-- Whatever is known before, a step of inference makes steps, and its result and they are related. -/
def Leads {α : Type} (x : Inferring α) (R : α → List Step → Prop) : Prop :=
  ∀ fs, ∃ steps, R (x.run fs).1 steps ∧ Walks fs steps (x.run fs).2

section Leads

variable {α β : Type} {R : α → List Step → Prop} {S : β → List Step → Prop}

theorem leads_pure {a : α} (related : R a []) : Leads (pure a) R := fun fs => ⟨[], related, .nil fs⟩

theorem Leads.bind {x : Inferring α} {f : α → Inferring β} (first : Leads x R)
    (rest : ∀ a steps, R a steps → Leads (f a) fun b steps' => S b (steps ++ steps')) : Leads (x >>= f) S := by
  intro fs
  obtain ⟨steps, related, walks⟩ := first fs
  obtain ⟨steps', related', walks'⟩ := rest _ steps related (x.run fs).2
  exact ⟨steps ++ steps', related', walks.append walks'⟩

theorem Leads.some {x : Inferring α} (leads : Leads x R) :
    Leads (some <$> x) fun o steps => ∃ a, o = some a ∧ R a steps := by
  intro fs
  obtain ⟨steps, related, walks⟩ := leads fs
  exact ⟨steps, ⟨_, rfl, related⟩, walks⟩

theorem Leads.and {P : α → Prop} {x : Inferring α} (leads : Leads x R) (gives : Gives x P) :
    Leads x fun a steps => R a steps ∧ P a := by
  intro fs
  obtain ⟨steps, related, walks⟩ := leads fs
  exact ⟨steps, ⟨related, gives fs⟩, walks⟩

theorem leads_modify {f : Facts → Facts} (step : Step) (performs : ∀ fs, f fs = step.perform fs)
    (silent : step.recorded? = none) : Leads (modify f) fun _ steps => steps = [step] := by
  intro fs
  refine ⟨[step], rfl, ?_⟩
  show Walks fs [step] (f fs)
  rw [performs]
  exact .of_all_silent fs (List.forall_mem_singleton.mpr silent)

end Leads

/-! ### Expressions -/

theorem recorded_expr (e : Expr) : (expr ctx fs e).info.sigil = some (rule ctx fs (expr ctx fs e)) := by
  cases e <;> rfl

/-- The records of several expressions are made if those of each are. -/
theorem walks_flatMap {es : List Expr} (each : ∀ e ∈ es, Walks fs (e.steps ctx) fs) :
    Walks fs (es.flatMap (Expr.steps ctx)) fs := by
  induction es with
  | nil => exact .nil fs
  | cons e es ih =>
      obtain ⟨own, others⟩ := List.forall_mem_cons.mp each
      exact own.append (ih others)

theorem steps_eq (e : Expr) : e.steps ctx = e.children.flatMap (Expr.steps ctx) ++ [Step.record ctx e] := by
  rw [Expr.steps, Expr.visits_eq, List.map_append, List.map_flatMap]
  rfl

theorem walks_expr (fs : Facts) (e : Expr) : Walks fs ((expr ctx fs e).steps ctx) fs := by
  induction e using Expr.inductionOn with
  | step e below =>
      rw [steps_eq, children_expr]
      have parts : Walks fs ((e.children.map (expr ctx fs)).flatMap (Expr.steps ctx)) fs :=
        walks_flatMap (List.forall_mem_map.mpr below)
      exact parts.append (.single (recorded_expr e))

theorem leads_value (ctx : Context) (e : Expr) : Leads (value ctx e) fun r steps => r.steps ctx = steps :=
  fun fs => ⟨_, rfl, walks_expr fs e⟩

theorem leads_valueOption (ctx : Context) (o : Option Expr) :
    Leads (valueOption ctx o) fun r steps => Expr.optionSteps ctx r = steps := by
  cases o with
  | none => exact leads_pure rfl
  | some e =>
      apply (leads_value ctx e).bind
      intro r steps related
      apply leads_pure
      simp [Expr.optionSteps, related]

/-! ### Statements -/

mutual

theorem leads_stmt (ctx : Context) (s : Stmt) : Leads (stmt ctx s) fun r steps => r.steps ctx = steps := by
  cases s with
  | block s body =>
      rw [stmt]
      apply (leads_stmts ctx body).bind
      intro body' w same
      apply leads_pure
      simp [Stmt.steps, same]
  | print s e | expr s e | throw_ s type e =>
      rw [stmt]
      apply (leads_value ctx e).bind
      intro e' w same
      apply leads_pure
      simp [Stmt.steps, same]
  | assign s name e =>
      rw [stmt]
      apply (leads_value ctx e).bind
      intro e' w same
      apply (leads_modify (.assign ctx name e'.sigil) (fun _ => rfl) rfl).bind
      intro _ v last
      apply leads_pure
      simp [Stmt.steps, same, last]
  | indexAssign s b k e =>
      rw [stmt]
      apply (leads_value ctx b).bind
      intro b' u hb
      apply (leads_value ctx k).bind
      intro k' v hk
      apply (leads_value ctx e).bind
      intro e' w he
      apply leads_pure
      simp [Stmt.steps, hb, hk, he]
  | varDecl s name type init =>
      rw [stmt]
      apply (leads_valueOption ctx init).bind
      intro init' w same
      let declared : Step := .declare ctx name (type.or (init'.map Expr.sigil))
      apply (leads_modify declared (fun _ => rfl) rfl).bind
      intro _ v last
      apply leads_pure
      simp [Stmt.steps, same, last, declared]
  | ifElse s c a b =>
      rw [stmt]
      apply (leads_value ctx c).bind
      intro c' u hc
      apply (leads_stmt ctx a).bind
      intro a' v ha
      extract_lets behind
      have step (b' : Option Stmt) (w : List Step) (hb : Stmt.optionSteps ctx b' = w) :
          Leads (behind b') fun r x => r.steps ctx = u ++ (v ++ (w ++ x)) := by
        apply leads_pure
        simp [Stmt.steps_ifElse, hc, ha, hb]
      cases b with
      | none => exact step none [] rfl
      | some b => exact (leads_stmt ctx b).some.bind fun _ w ⟨b', eq, hb⟩ => step _ w (eq ▸ hb)
  | while_ s c body =>
      rw [stmt]
      apply (leads_value ctx c).bind
      intro c' v hc
      apply (leads_stmt ctx body).bind
      intro body' w hb
      apply leads_pure
      simp [Stmt.steps, hc, hb]
  | doWhile s body c =>
      rw [stmt]
      apply (leads_stmt ctx body).bind
      intro body' v hb
      apply (leads_value ctx c).bind
      intro c' w hc
      apply leads_pure
      simp [Stmt.steps, hc, hb]
  | for_ s init cond post body =>
      unfold stmt
      extract_lets behindInit
      have stepInit (init' : Option Stmt) (u : List Step) (hi : Stmt.optionSteps ctx init' = u) :
          Leads (behindInit init') fun r w => r.steps ctx = u ++ w := by
        apply (leads_valueOption ctx cond).bind
        intro cond' v hc
        extract_lets behindPost
        have stepPost (post' : Option Stmt) (w : List Step) (hp : Stmt.optionSteps ctx post' = w) :
            Leads (behindPost post') fun r x => r.steps ctx = u ++ (v ++ (w ++ x)) := by
          apply (leads_stmt ctx body).bind
          intro body' x hb
          apply leads_pure
          simp [Stmt.steps_for, hi, hc, hp, hb]
        cases post with
        | none => exact stepPost none [] rfl
        | some p => exact (leads_stmt ctx p).some.bind fun _ w ⟨p', eq, hp⟩ => stepPost _ w (eq ▸ hp)
      cases init with
      | none => exact stepInit none [] rfl
      | some i => exact (leads_stmt ctx i).some.bind fun _ u ⟨i', eq, hi⟩ => stepInit _ u (eq ▸ hi)
  | switch s e cs =>
      rw [stmt]
      apply (leads_value ctx e).bind
      intro e' v he
      apply (leads_clauses ctx cs).bind
      intro cs' w hc
      apply leads_pure
      simp [Stmt.steps, he, hc]
  | return_ s e =>
      rw [stmt]
      apply (leads_valueOption ctx e).bind
      intro e' w same
      apply leads_pure
      simp [Stmt.steps, same]
  | try_ s body cs last =>
      rw [stmt]
      apply (leads_stmt ctx body).bind
      intro body' u hb
      apply (leads_catches ctx cs).bind
      intro cs' v hc
      extract_lets behind
      have step (last' : Option Stmt) (w : List Step) (hl : Stmt.optionSteps ctx last' = w) :
          Leads (behind last') fun r x => r.steps ctx = u ++ (v ++ (w ++ x)) := by
        apply leads_pure
        simp [Stmt.steps_try, hb, hc, hl]
      cases last with
      | none => exact step none [] rfl
      | some l => exact (leads_stmt ctx l).some.bind fun _ w ⟨l', eq, hl⟩ => step _ w (eq ▸ hl)
  | break_ s | continue_ s | func f | class_ c | bare e | printStmt s b =>
      rw [stmt]
      exact leads_pure (by simp [Stmt.steps])

theorem leads_stmts (ctx : Context) (ss : List Stmt) :
    Leads (stmts ctx ss) fun r steps => stmtsSteps ctx r = steps := by
  cases ss with
  | nil => rw [stmts]; exact leads_pure rfl
  | cons s ss =>
      rw [stmts]
      apply (leads_stmt ctx s).bind
      intro s' v hs
      apply (leads_stmts ctx ss).bind
      intro ss' w rest
      apply leads_pure
      simp [stmtsSteps, hs, rest]

theorem leads_clauses (ctx : Context) (cs : List Clause) :
    Leads (clauses ctx cs) fun r steps => clausesSteps ctx r = steps := by
  match cs with
  | [] => rw [clauses]; exact leads_pure rfl
  | .case_ s e body :: cs =>
      rw [clauses]
      apply (leads_value ctx e).bind
      intro e' u he
      apply (leads_stmts ctx body).bind
      intro body' v hb
      apply (leads_clauses ctx cs).bind
      intro cs' w rest
      apply leads_pure
      simp [clausesSteps, he, hb, rest]
  | .default_ s body :: cs =>
      rw [clauses]
      apply (leads_stmts ctx body).bind
      intro body' v hb
      apply (leads_clauses ctx cs).bind
      intro cs' w rest
      apply leads_pure
      simp [clausesSteps, hb, rest]

theorem leads_catches (ctx : Context) (cs : List Catch) :
    Leads (catches ctx cs) fun r steps => catchesSteps ctx r = steps := by
  match cs with
  | [] => rw [catches]; exact leads_pure rfl
  | ⟨s, type, name, body⟩ :: cs =>
      rw [catches]
      let declared : Step := .declare ctx name (some (.object ""))
      apply (leads_modify declared (fun _ => rfl) rfl).bind
      intro _ u first
      apply (leads_stmt ctx body).bind
      intro body' v hb
      apply (leads_catches ctx cs).bind
      intro cs' w rest
      apply leads_pure
      simp [catchesSteps, first, declared, hb, rest]

end

/-! ### Fields and routines -/

theorem leads_fields (ctx : Context) (fs : List Field) :
    Leads (fields ctx fs) fun r steps => r.flatMap (Field.steps ctx) = steps := by
  induction fs with
  | nil => exact leads_pure rfl
  | cons f fs ih =>
      rw [fields]
      apply (leads_valueOption ctx f.init).bind
      intro init u same
      have rest (settles : List Step) (own : Field.steps ctx { f with init := init } = u ++ settles) :
          Leads (do return { f with init := init } :: (← fields ctx fs)) fun r steps =>
            r.flatMap (Field.steps ctx) = u ++ (settles ++ steps) := by
        apply ih.bind
        intro fs' w others
        apply leads_pure
        simp [own, others]
      split
      · next isStatic =>
          let settles : Step := .settleStatic (SymbolName.staticField ctx.cls f.name)
            ((f.type.or (init.map Expr.sigil)).getD .int)
          apply (leads_modify settles (fun _ => rfl) rfl).bind
          intro _ v last
          refine last ▸ rest [settles] ?_
          simp [Field.steps, same, isStatic, settles]
      · next isField => exact rest [] (by simp [Field.steps, same, isField])

/-- Putting parameters in one after the other changes the frame once. -/
theorem run_settleParams (fs : Facts) (routine : String) (own : List (String × Sigil)) :
    run (fs.setFrame routine (fs.frame routine)) (own.map fun p => .settleParam routine p.1 p.2) =
      fs.setFrame routine { fs.frame routine with
        params := own.foldl (fun ps (name, s) => ps.put name s) (fs.frame routine).params } := by
  have general (f : Frame) : run (fs.setFrame routine f) (own.map fun p => .settleParam routine p.1 p.2) =
      fs.setFrame routine { f with params := own.foldl (fun ps (name, s) => ps.put name s) f.params } := by
    induction own generalizing f with
    | nil => rfl
    | cons p own ih =>
        rw [List.map_cons, run, List.foldl_cons, Step.perform, Facts.frame_setFrame, if_pos rfl,
          Facts.setFrame_setFrame]
        exact ih _
  exact general _

/-- Making a frame and filling it is putting the frame there that comes out. -/
theorem setFrame_enter (fs : Facts) (routine : String) (f : Frame → Frame) :
    let entered := if fs.frames.has routine then fs else fs.setFrame routine Frame.empty
    entered.setFrame routine (f (entered.frame routine)) = fs.setFrame routine (f (fs.frame routine)) := by
  intro entered
  by_cases known : fs.frames.has routine
  · rw [show entered = fs from if_pos known]
  · have absent : fs.frames.get? routine = none := by simpa [known] using Assoc.isSome_get? fs.frames routine
    have empty : fs.frame routine = Frame.empty := by rw [Facts.frame, absent, Option.getD_none]
    rw [show entered = fs.setFrame routine Frame.empty from if_neg known, Facts.frame_setFrame, if_pos rfl,
      Facts.setFrame_setFrame, empty]

theorem leads_routine (ctx : Context) (hasThis : Bool) (params : List Param) (body : Stmt) :
    Leads (routine ctx hasThis params body) fun r steps => routineSteps ctx hasThis params r = steps := by
  intro fs
  let own := ownSigils ctx hasThis params
  let entering : List Step := .enter ctx.routine :: own.map fun p => .settleParam ctx.routine p.1 p.2
  have silent : ∀ step ∈ entering, step.recorded? = none :=
    List.forall_mem_cons.mpr ⟨rfl, List.forall_mem_map.mpr fun _ _ => rfl⟩
  have before : run fs entering = fs.setFrame ctx.routine { fs.frame ctx.routine with
      params := own.foldl (fun ps (name, s) => ps.put name s) (fs.frame ctx.routine).params } :=
    run_settleParams fs ctx.routine own
  rw [← setFrame_enter fs ctx.routine fun f =>
    { f with params := own.foldl (fun ps (name, s) => ps.put name s) f.params }] at before
  obtain ⟨steps, related, walks⟩ := leads_stmt ctx body (run fs entering)
  have walks := (Walks.of_all_silent fs silent).append walks
  rw [before] at related walks
  exact ⟨entering ++ steps, congrArg (entering ++ ·) related, walks⟩

theorem leads_methods (ctx : Context) (ms : List Method) :
    Leads (methods ctx ms) fun r steps => r.flatMap (Method.steps ctx) = steps := by
  induction ms with
  | nil => exact leads_pure rfl
  | cons m ms ih =>
      rw [methods]
      apply (leads_routine _ _ m.params m.body).bind
      intro body v own
      apply ih.bind
      intro ms' w others
      apply leads_pure
      rw [List.flatMap_cons, others, ← own]
      simp
      rfl

theorem leads_ctors (ctx : Context) (ks : List Ctor) :
    Leads (ctors ctx ks) fun r steps => r.flatMap (Ctor.steps ctx) = steps := by
  induction ks with
  | nil => exact leads_pure rfl
  | cons k ks ih =>
      rw [ctors]
      apply (leads_routine _ _ k.params k.body).bind
      intro body v own
      apply ih.bind
      intro ks' w others
      apply leads_pure
      rw [List.flatMap_cons, others, ← own]
      simp
      rfl

/-! ### Items -/

theorem leads_classFields (ctx : Context) (xs : List Stmt) :
    Leads (classFields ctx xs) fun r steps => r.flatMap (Stmt.fieldSteps ctx) = steps := by
  induction xs with
  | nil => exact leads_pure rfl
  | cons s xs ih =>
      cases s with
      | class_ c =>
          apply (leads_fields { ctx with cls := c.name } c.fields).bind
          intro fs v own
          apply ih.bind
          intro xs' w others
          apply leads_pure
          rw [List.flatMap_cons, others, Stmt.fieldSteps, own, List.append_nil]
      | _ => exact ih.bind fun xs' w others => leads_pure (others.trans w.append_nil.symm)

theorem flatMap_cons_congr {α β : Type} {f : α → List β} {x : α} {xs ys : List α}
    (same : xs.flatMap f = ys.flatMap f) : (x :: xs).flatMap f = (x :: ys).flatMap f := by
  rw [List.flatMap_cons, List.flatMap_cons, same]

theorem leads_topLevel (ctx : Context) (xs : List Stmt) : Leads (topLevel ctx xs) fun r steps =>
    r.flatMap (Stmt.topSteps ctx) = steps ∧ r.flatMap (Stmt.fieldSteps ctx) = xs.flatMap (Stmt.fieldSteps ctx) := by
  induction xs with
  | nil => exact leads_pure ⟨rfl, rfl⟩
  | cons s xs ih =>
      have rest (s' : Stmt) (v : List Step) (own : s'.topSteps ctx = v) (kept : s'.fieldSteps ctx = s.fieldSteps ctx) :
          Leads (do return s' :: (← topLevel ctx xs)) fun r steps =>
            r.flatMap (Stmt.topSteps ctx) = v ++ steps ∧
              r.flatMap (Stmt.fieldSteps ctx) = (s :: xs).flatMap (Stmt.fieldSteps ctx) := by
        apply ih.bind
        intro xs' w others
        apply leads_pure
        simp only [List.flatMap_cons, own, kept, others.1, others.2, List.append_nil, and_self]
      rw [topLevel]
      split
      · next isDecl => exact rest s [] (by rw [Stmt.topSteps, if_pos isDecl]) rfl
      · next plain =>
          apply ((leads_stmt ctx s).and (erase_stmt ctx s)).bind
          rintro s' v ⟨own, same⟩
          have plain' : ¬s'.isDecl = true := by rwa [← s'.isDecl_erase, same, s.isDecl_erase]
          refine rest s' v (by rwa [Stmt.topSteps, if_neg plain']) ?_
          rw [Stmt.fieldSteps_of_plain plain', Stmt.fieldSteps_of_plain plain]

theorem leads_funcs (ctx : Context) (xs : List Stmt) : Leads (funcs ctx xs) fun r steps =>
    r.flatMap (Stmt.funcSteps ctx) = steps ∧ r.flatMap (Stmt.topSteps ctx) = xs.flatMap (Stmt.topSteps ctx) ∧
      r.flatMap (Stmt.fieldSteps ctx) = xs.flatMap (Stmt.fieldSteps ctx) := by
  induction xs with
  | nil => exact leads_pure ⟨rfl, rfl, rfl⟩
  | cons s xs ih =>
      cases s with
      | func f =>
          apply (leads_routine _ _ f.params f.body).bind
          intro body v own
          apply ih.bind
          intro xs' w others
          apply leads_pure
          obtain ⟨rest, top, fields⟩ := others
          refine ⟨?_, top, fields⟩
          rw [List.flatMap_cons, rest, Stmt.funcSteps, own, List.append_nil]
      | _ =>
          apply ih.bind
          intro xs' w others
          apply leads_pure
          obtain ⟨rest, top, fields⟩ := others
          exact ⟨rest.trans w.append_nil.symm, flatMap_cons_congr top, flatMap_cons_congr fields⟩

theorem leads_classRoutines (ctx : Context) (xs : List Stmt) : Leads (classRoutines ctx xs) fun r steps =>
    r.flatMap (Stmt.memberSteps ctx) = steps ∧ r.flatMap (Stmt.funcSteps ctx) = xs.flatMap (Stmt.funcSteps ctx) ∧
      r.flatMap (Stmt.topSteps ctx) = xs.flatMap (Stmt.topSteps ctx) ∧
      r.flatMap (Stmt.fieldSteps ctx) = xs.flatMap (Stmt.fieldSteps ctx) := by
  induction xs with
  | nil => exact leads_pure ⟨rfl, rfl, rfl, rfl⟩
  | cons s xs ih =>
      cases s with
      | class_ c =>
          apply (leads_methods { ctx with cls := c.name } c.methods).bind
          intro ms u hm
          apply (leads_ctors { ctx with cls := c.name } c.ctors).bind
          intro ks v hk
          apply ih.bind
          intro xs' w others
          apply leads_pure
          obtain ⟨rest, funcs, top, fields⟩ := others
          refine ⟨?_, funcs, top, congrArg (Stmt.fieldSteps ctx (.class_ c) ++ ·) fields⟩
          rw [List.flatMap_cons, rest, Stmt.memberSteps, hm, hk, List.append_nil, List.append_assoc]
      | _ =>
          apply ih.bind
          intro xs' w others
          apply leads_pure
          obtain ⟨rest, funcs, top, fields⟩ := others
          exact ⟨rest.trans w.append_nil.symm, flatMap_cons_congr funcs, flatMap_cons_congr top, flatMap_cons_congr fields⟩

end Infer

/-- Inference takes the steps that are read off its result, one after the other, and ends with what they find out. -/
theorem Program.walks_infer (p : Program) (hints : Hints) :
    Infer.Walks hints.start (p.walk hints) (p.infer hints).facts := by
  let ctx := p.outside hints
  have enters : hints.start.setFrame SymbolName.mainRoutine Infer.Frame.empty =
      (Step.enter SymbolName.mainRoutine).perform hints.start := rfl
  have passes : Infer.Leads (do
      let xs ← Infer.classFields ctx p.items
      let xs ← Infer.topLevel ctx xs
      let xs ← Infer.funcs ctx xs
      Infer.classRoutines ctx xs) fun r steps => itemsSteps ctx r = .enter SymbolName.mainRoutine :: steps := by
    apply (Infer.leads_classFields ctx p.items).bind
    intro xs₁ u fields
    apply (Infer.leads_topLevel ctx xs₁).bind
    rintro xs₂ v ⟨top, fields₂⟩
    apply (Infer.leads_funcs ctx xs₂).bind
    rintro xs₃ w ⟨funcs, top₃, fields₃⟩ fs
    obtain ⟨x, ⟨members, funcs₄, top₄, fields₄⟩, walks⟩ := Infer.leads_classRoutines ctx xs₃ fs
    refine ⟨x, ?_, walks⟩
    dsimp only
    rw [itemsSteps, members, funcs₄, funcs, top₄, top₃, top, fields₄, fields₃, fields₂, fields]
    simp only [List.append_assoc]
  obtain ⟨steps, related, walks⟩ := passes (hints.start.setFrame SymbolName.mainRoutine Infer.Frame.empty)
  rw [enters] at related walks
  have whole : p.walk hints = .enter SymbolName.mainRoutine :: steps := related
  rw [whole]
  exact .cons trivial walks

end Lantern
