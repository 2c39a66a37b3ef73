import Lantern.Proofs.Ending
import Lantern.Proofs.Items
import Lantern.Proofs.Pool
import Lantern.Proofs.Steps
import Lantern.Tree.Outline

/-!
# Inference covers the tree

The walk of inference comes to every expression of a program that was read from source text, wherever it stands: the
records on the way are the expressions of the tree in another order, and each stands right behind those for the parts
of its expression. So nothing below a node that code is generated for is left without a sigil.
-/

namespace Lantern

open Infer (Context Step)

/-! ## Expression nodes -/

/-- An expression as a node of an outline. -/
def Expr.node (e : Expr) : NodeKind × Info := (e.kind, e.info)

theorem Expr.isExpr_kind (e : Expr) : e.kind.isExpr := by cases e <;> rfl

namespace Outline

theorem preorderOf_eq (os : List Outline) : preorderOf os = os.flatMap preorder := by
  induction os with
  | nil => rfl
  | cons o os ih => rw [preorderOf, ih, List.flatMap_cons]

/-- The nodes of an outline that are expressions. -/
def exprNodes (o : Outline) : List (NodeKind × Info) := o.preorder.filter (·.1.isExpr)

theorem exprNodes_node (kind : NodeKind) (i : Info) (detail : String) (below : List Outline) :
    (node kind i detail below).exprNodes = (if kind.isExpr then [(kind, i)] else []) ++ below.flatMap exprNodes := by
  rw [exprNodes, preorder, preorderOf_eq, List.filter_cons, List.filter_flatMap]
  split <;> rfl

/-- A node that is no expression has those below it. -/
theorem exprNodes_plain {kind : NodeKind} (plain : kind.isExpr = false) (i : Info) (detail : String)
    (below : List Outline) : (node kind i detail below).exprNodes = below.flatMap exprNodes := by
  rw [exprNodes_node, plain, if_neg Bool.false_ne_true, List.nil_append]

end Outline

theorem outlineExprs_eq (layout : Layout) (es : List Expr) : outlineExprs layout es = es.map (Expr.outline layout) := by
  induction es with
  | nil => rfl
  | cons e es ih => rw [outlineExprs, ih, List.map_cons]

theorem outlineEntries_eq (layout : Layout) (es : List (Expr × Expr)) :
    outlineEntries layout es = es.map fun entry => (entry.1.outline layout, entry.2.outline layout) := by
  induction es with
  | nil => rfl
  | cons e es ih => rw [outlineEntries, ih, List.map_cons]

/-- A walk takes the outlines of what is below an expression in the order of the walk. -/
theorem Expr.outline_walk (e : Expr) :
    ∃ detail, e.outline .walk = .node e.kind e.info detail (e.children.map (outline .walk)) := by
  cases e <;>
    simp [outline, children, kind, info, outlineExprs_eq, outlineEntries_eq, Layout.entries, Function.comp_def]

/-- The nodes of an expression are visited once each. -/
theorem Expr.perm_visits (e : Expr) : (e.outline .walk).exprNodes.Perm (e.visits.map node) := by
  induction e using inductionOn with
  | step e below =>
      obtain ⟨detail, eq⟩ := e.outline_walk
      rw [eq, Outline.exprNodes_node, if_pos e.isExpr_kind, visits_eq, List.map_append, List.map_flatMap,
        List.flatMap_map]
      exact List.perm_append_comm.trans ((List.Perm.flatMap_left _ below).append_right _)

/-! ## Statements -/

namespace Stmt

variable (layout : Layout) (s : Span)

theorem outline_ifElse (c : Expr) (a : Stmt) (b : Option Stmt) : (ifElse s c a b).outline layout =
    .node .if_ ⟨s, none, none⟩ "" (c.outline layout :: a.outline layout :: b.toList.map (outline layout)) := by
  cases b <;> rfl

theorem outline_for (init : Option Stmt) (cond : Option Expr) (post : Option Stmt) (body : Stmt) :
    (for_ s init cond post body).outline layout = .node .for_ ⟨s, none, none⟩ ""
      (init.toList.map (outline layout) ++ cond.toList.map (Expr.outline layout) ++
        post.toList.map (outline layout) ++ [body.outline layout]) := by
  cases init <;> cases post <;> rfl

theorem outline_try (body : Stmt) (cs : List Catch) (last : Option Stmt) : (try_ s body cs last).outline layout =
    .node .try_ ⟨s, none, none⟩ ""
      (body.outline layout :: outlineCatches layout cs ++ last.toList.map (outline layout)) := by
  cases last <;> rfl

end Stmt

theorem outlineStmts_eq (layout : Layout) (ss : List Stmt) : outlineStmts layout ss = ss.map (Stmt.outline layout) := by
  induction ss with
  | nil => rfl
  | cons s ss ih => rw [outlineStmts, ih, List.map_cons]

theorem outlineCatches_eq (layout : Layout) (cs : List Catch) : outlineCatches layout cs = cs.map fun c =>
    .node .catch_ ⟨c.span, none, none⟩ (Text.trim (c.type ++ " " ++ c.name)) [c.body.outline layout] := by
  induction cs with
  | nil => rfl
  | cons c cs ih => cases c; rw [outlineCatches, ih, List.map_cons]

/-- The nodes whose sigils steps record. -/
def seen (steps : List Step) : List (NodeKind × Info) := (steps.filterMap Step.recorded?).map Expr.node

theorem seen_nil : seen [] = [] := rfl

theorem seen_append (steps steps' : List Step) : seen (steps ++ steps') = seen steps ++ seen steps' := by
  rw [seen, List.filterMap_append, List.map_append]
  rfl

theorem seen_flatMap {α : Type} (f : α → List Step) (xs : List α) :
    seen (xs.flatMap f) = xs.flatMap fun x => seen (f x) := by
  rw [seen, List.filterMap_flatMap, List.map_flatMap]
  rfl

variable {ctx : Context}

theorem seen_expr (e : Expr) : seen (e.steps ctx) = e.visits.map Expr.node := by
  rw [seen, Expr.steps, List.filterMap_map]
  exact congrArg (List.map Expr.node) List.filterMap_some

theorem perm_expr (e : Expr) : (e.outline .walk).exprNodes.Perm (seen (e.steps ctx)) := by
  rw [seen_expr]
  exact e.perm_visits

theorem perm_exprOption (o : Option Expr) :
    ((o.toList.map (Expr.outline .walk)).flatMap Outline.exprNodes).Perm (seen (Expr.optionSteps ctx o)) := by
  cases o with
  | none => exact .refl _
  | some e => simpa [Expr.optionSteps] using perm_expr e

theorem perm_some {s : Stmt} (perm : (s.outline .walk).exprNodes.Perm (seen (s.steps ctx))) :
    (((some s).toList.map (Stmt.outline .walk)).flatMap Outline.exprNodes).Perm
      (seen (Stmt.optionSteps ctx (some s))) := by
  rwa [Option.toList_some, List.map_singleton, List.flatMap_singleton]

mutual

theorem perm_stmt (s : Stmt) (inner : s.isInner) : (s.outline .walk).exprNodes.Perm (seen (s.steps ctx)) := by
  cases s with
  | block s body =>
      rw [Stmt.outline, Outline.exprNodes_plain rfl]
      exact perm_stmts body inner
  | print s e | expr s e | throw_ s type e =>
      rw [Stmt.outline, Outline.exprNodes_plain rfl, List.flatMap_singleton]
      exact perm_expr e
  | assign s name e =>
      rw [Stmt.outline, Outline.exprNodes_plain rfl, List.flatMap_singleton, Stmt.steps, seen_append]
      exact (perm_expr e).trans (.of_eq (List.append_nil _).symm)
  | indexAssign s b k e =>
      rw [Stmt.outline, Outline.exprNodes_plain rfl, Stmt.steps, seen_append, seen_append]
      simp only [List.flatMap_cons, List.flatMap_nil, List.append_nil, ← List.append_assoc]
      exact ((perm_expr b).append (perm_expr k)).append (perm_expr e)
  | varDecl s name type init =>
      rw [Stmt.outline, Outline.exprNodes_plain rfl, Stmt.steps, seen_append]
      exact (perm_exprOption init).trans (.of_eq (List.append_nil _).symm)
  | ifElse s c a b =>
      obtain ⟨innerA, innerB⟩ := Bool.and_eq_true_iff.mp (Stmt.isInner_ifElse s c a b ▸ inner)
      rw [Stmt.outline_ifElse, Outline.exprNodes_plain rfl, Stmt.steps_ifElse, seen_append, seen_append,
        List.append_assoc]
      apply (perm_expr c).append
      apply (perm_stmt a innerA).append
      cases b with
      | none => exact .refl _
      | some b => exact perm_some (perm_stmt b innerB)
  | while_ s c body =>
      rw [Stmt.outline, Outline.exprNodes_plain rfl, Stmt.steps, seen_append, List.flatMap_cons, List.flatMap_singleton]
      exact (perm_expr c).append (perm_stmt body inner)
  | doWhile s body c =>
      rw [Stmt.outline, Outline.exprNodes_plain rfl, Stmt.steps, seen_append, List.flatMap_cons, List.flatMap_singleton]
      exact (perm_stmt body inner).append (perm_expr c)
  | for_ s init cond post body =>
      obtain ⟨clauses, innerBody⟩ := Bool.and_eq_true_iff.mp (Stmt.isInner_for s init cond post body ▸ inner)
      obtain ⟨innerInit, innerPost⟩ := Bool.and_eq_true_iff.mp clauses
      rw [Stmt.outline_for, Outline.exprNodes_plain rfl, Stmt.steps_for]
      simp only [seen_append, List.flatMap_append, List.flatMap_singleton]
      refine ((List.Perm.append ?_ (perm_exprOption cond)).append ?_).append (perm_stmt body innerBody)
      · cases init with
        | none => exact .refl _
        | some i => exact perm_some (perm_stmt i innerInit)
      · cases post with
        | none => exact .refl _
        | some p => exact perm_some (perm_stmt p innerPost)
  | switch s e cs =>
      rw [Stmt.outline, Outline.exprNodes_plain rfl, Stmt.steps, seen_append, List.flatMap_cons]
      exact (perm_expr e).append (perm_clauses cs inner)
  | return_ s e =>
      rw [Stmt.outline, Outline.exprNodes_plain rfl]
      exact perm_exprOption e
  | try_ s body cs last =>
      obtain ⟨guarded, innerLast⟩ := Bool.and_eq_true_iff.mp (Stmt.isInner_try s body cs last ▸ inner)
      obtain ⟨innerBody, innerCatches⟩ := Bool.and_eq_true_iff.mp guarded
      rw [Stmt.outline_try, Outline.exprNodes_plain rfl, Stmt.steps_try]
      simp only [seen_append, List.flatMap_append, List.flatMap_cons]
      apply ((perm_stmt body innerBody).append (perm_catches cs innerCatches)).append
      cases last with
      | none => exact .refl _
      | some l => exact perm_some (perm_stmt l innerLast)
  | break_ s | continue_ s => exact .refl _
  | func f | class_ c | bare e | printStmt s b => cases inner

theorem perm_stmts (ss : List Stmt) (inner : areInner ss) :
    ((outlineStmts .walk ss).flatMap Outline.exprNodes).Perm (seen (stmtsSteps ctx ss)) := by
  cases ss with
  | nil => exact .refl _
  | cons s ss =>
      obtain ⟨own, others⟩ := Bool.and_eq_true_iff.mp inner
      rw [outlineStmts, stmtsSteps, seen_append, List.flatMap_cons]
      exact (perm_stmt s own).append (perm_stmts ss others)

theorem perm_clauses (cs : List Clause) (inner : clausesInner cs) :
    ((outlineClauses .walk cs).flatMap Outline.exprNodes).Perm (seen (clausesSteps ctx cs)) := by
  match cs with
  | [] => exact .refl _
  | .case_ s v body :: cs =>
      obtain ⟨own, others⟩ := Bool.and_eq_true_iff.mp inner
      rw [outlineClauses, clausesSteps, seen_append, seen_append, List.flatMap_cons, Outline.exprNodes_plain rfl]
      exact ((perm_expr v).append (perm_stmts body own)).append (perm_clauses cs others)
  | .default_ s body :: cs =>
      obtain ⟨own, others⟩ := Bool.and_eq_true_iff.mp inner
      rw [outlineClauses, clausesSteps, seen_append, List.flatMap_cons, Outline.exprNodes_plain rfl]
      exact (perm_stmts body own).append (perm_clauses cs others)

theorem perm_catches (cs : List Catch) (inner : catchesInner cs) :
    ((outlineCatches .walk cs).flatMap Outline.exprNodes).Perm (seen (catchesSteps ctx cs)) := by
  match cs with
  | [] => exact .refl _
  | ⟨s, type, name, body⟩ :: cs =>
      obtain ⟨own, others⟩ := Bool.and_eq_true_iff.mp inner
      rw [outlineCatches, List.flatMap_cons, Outline.exprNodes_plain rfl, List.flatMap_singleton, catchesSteps, seen,
        List.filterMap_cons_none rfl, ← seen, seen_append]
      exact (perm_stmt body own).append (perm_catches cs others)

end

/-! ## Items -/

theorem seen_routine (hasThis : Bool) (params : List Param) (body : Stmt) :
    seen (Infer.routineSteps ctx hasThis params body) = seen (body.steps ctx) := by
  rw [Infer.routineSteps, seen_append, seen, List.filterMap_cons_none rfl, List.filterMap_map]
  exact congrArg (· ++ seen (body.steps ctx)) (congrArg (List.map Expr.node) (List.filterMap_none _))

theorem outlineMethods_eq (layout : Layout) (ms : List Method) : outlineMethods layout ms = ms.map fun m =>
    .node .methodDecl ⟨m.span, none, none⟩ (Method.detail m.isStatic m.isOverride m.name m.params m.result)
      [m.body.outline layout] := by
  induction ms with
  | nil => rfl
  | cons m ms ih => cases m; rw [outlineMethods, ih, List.map_cons]

theorem outlineCtors_eq (layout : Layout) (ks : List Ctor) : outlineCtors layout ks = ks.map fun k =>
    .node .ctorDecl ⟨k.span, none, none⟩ (paramsDetail k.params) [k.body.outline layout] := by
  induction ks with
  | nil => rfl
  | cons k ks ih => cases k; rw [outlineCtors, ih, List.map_cons]

theorem perm_field (f : Field) : (f.outline .walk).exprNodes.Perm (seen (f.steps ctx)) := by
  have rest : seen (if f.isStatic then
      [.settleStatic (SymbolName.staticField ctx.cls f.name) ((f.type.or (f.init.map Expr.sigil)).getD .int)]
    else []) = [] := by
    split <;> rfl
  rw [Field.outline, Outline.exprNodes_plain rfl, Field.steps, seen_append, rest, List.append_nil]
  exact perm_exprOption f.init

theorem exprNodes_func (f : FuncDecl) :
    ((Stmt.func f).outline .walk).exprNodes = (f.body.outline .walk).exprNodes := by
  cases f
  rw [Stmt.outline, Outline.exprNodes_plain rfl, List.flatMap_singleton]

theorem exprNodes_class (c : ClassDecl) : ((Stmt.class_ c).outline .walk).exprNodes =
    c.fields.flatMap (fun f => (f.outline .walk).exprNodes) ++
      c.methods.flatMap (fun m => (m.body.outline .walk).exprNodes) ++
      c.ctors.flatMap fun k => (k.body.outline .walk).exprNodes := by
  have method := Outline.exprNodes_plain (show NodeKind.methodDecl.isExpr = false from rfl)
  have ctor := Outline.exprNodes_plain (show NodeKind.ctorDecl.isExpr = false from rfl)
  cases c
  rw [Stmt.outline, Outline.exprNodes_plain rfl]
  simp only [Layout.members, outlineMethods_eq, outlineCtors_eq, List.flatMap_append, List.flatMap_map, method, ctor,
    List.flatMap_singleton]

/-- The nodes of an item are visited once each, those of its parts each in the section of the walk they belong to. -/
theorem perm_item (ctx : Context) (s : Stmt) (item : s.isItem) : (s.outline .walk).exprNodes.Perm
    (seen (s.fieldSteps ctx) ++ seen (s.topSteps ctx) ++ seen (s.funcSteps ctx) ++ seen (s.memberSteps ctx)) := by
  by_cases isDecl : s.isDecl
  · cases s with
    | func f =>
        have noField : (Stmt.func f).fieldSteps ctx = [] := rfl
        have noTop : (Stmt.func f).topSteps ctx = [] := rfl
        have noMember : (Stmt.func f).memberSteps ctx = [] := rfl
        rw [exprNodes_func, noField, noTop, noMember, seen_nil, List.nil_append, List.nil_append, List.append_nil,
          Stmt.funcSteps, seen_routine]
        exact perm_stmt f.body item
    | class_ c =>
        obtain ⟨methods, ctors⟩ := Bool.and_eq_true_iff.mp item
        have noTop : (Stmt.class_ c).topSteps ctx = [] := rfl
        have noFunc : (Stmt.class_ c).funcSteps ctx = [] := rfl
        rw [exprNodes_class, noTop, noFunc, seen_nil, List.append_nil, List.append_nil, Stmt.fieldSteps,
          Stmt.memberSteps, seen_append, List.append_assoc]
        simp only [seen_flatMap, Method.steps, Ctor.steps, seen_routine]
        apply (List.Perm.flatMap_left _ fun f _ => perm_field f).append
        apply (List.Perm.flatMap_left _ fun m mem => perm_stmt m.body (List.all_eq_true.mp methods m mem)).append
        exact List.Perm.flatMap_left _ fun k mem => perm_stmt k.body (List.all_eq_true.mp ctors k mem)
    | _ => cases isDecl
  · have inner : s.isInner := Stmt.isItem_of_plain isDecl ▸ item
    have noFunc : s.funcSteps ctx = [] := by
      cases s <;> first | rfl | exact absurd rfl isDecl
    have noMember : s.memberSteps ctx = [] := by
      cases s <;> first | rfl | exact absurd rfl isDecl
    rw [Stmt.fieldSteps_of_plain isDecl, Stmt.topSteps, if_neg isDecl, noFunc, noMember, seen_nil, List.nil_append,
      List.append_nil, List.append_nil]
    exact perm_stmt s inner

/-- The nodes of all items are visited once each. -/
theorem perm_items (ctx : Context) (xs : List Stmt) (items : xs.all Stmt.isItem) :
    ((outlineStmts .walk xs).flatMap Outline.exprNodes).Perm (seen (itemsSteps ctx xs)) := by
  rw [outlineStmts_eq, List.flatMap_map, itemsSteps, seen, List.filterMap_cons_none rfl, ← seen]
  simp only [seen_append, seen_flatMap]
  apply (List.Perm.flatMap_left xs fun s mem => perm_item ctx s (List.all_eq_true.mp items s mem)).trans
  apply (List.flatMap_append_perm xs _ _).symm.trans (List.Perm.append_right _ _)
  apply (List.flatMap_append_perm xs _ _).symm.trans (List.Perm.append_right _ _)
  exact (List.flatMap_append_perm xs _ _).symm

/-! ## The order of records -/

/-- Each record stands right behind those for the children of its expression. -/
def PostOrder (steps : List Step) : Prop :=
  ∀ before ctx e after, steps = before ++ .record ctx e :: after → e.children.flatMap (Expr.steps ctx) <:+ before

namespace PostOrder

variable {steps steps' : List Step}

theorem silent (none_ : ∀ step ∈ steps, step.recorded? = none) : PostOrder steps := by
  rintro before ctx e after rfl
  cases none_ (.record ctx e) (by simp)

theorem append (first : PostOrder steps) (second : PostOrder steps') : PostOrder (steps ++ steps') := by
  intro before ctx e after eq
  rcases List.append_eq_append_iff.mp eq with ⟨between, rfl, rest⟩ | ⟨between, rfl, rest⟩
  · exact (second between ctx e after rest).trans (List.suffix_append _ _)
  · cases between with
    | nil =>
        have := second [] ctx e after rest.symm
        rw [List.suffix_nil.mp this]
        exact List.nil_suffix
    | cons step between =>
        obtain ⟨rfl, rfl⟩ := List.cons.inj rest
        exact first before ctx e between rfl

theorem flatMap {α : Type} {f : α → List Step} {xs : List α} (each : ∀ x ∈ xs, PostOrder (f x)) :
    PostOrder (xs.flatMap f) := by
  induction xs with
  | nil => exact silent (List.forall_mem_nil _)
  | cons x xs ih =>
      obtain ⟨own, others⟩ := List.forall_mem_cons.mp each
      exact own.append (ih others)

theorem value (e : Expr) : PostOrder (e.steps ctx) := by
  induction e using Expr.inductionOn with
  | step e below =>
      intro before ctx' e' after eq
      rw [Infer.steps_eq] at eq
      have parts : PostOrder (e.children.flatMap (Expr.steps ctx)) := flatMap below
      -- the record is that of the whole, which comes last, or lies among those of the parts
      rcases List.eq_nil_or_concat after with rfl | ⟨after', last, rfl⟩
      · obtain ⟨rfl, same⟩ := List.append_inj' eq rfl
        cases same
        exact List.suffix_rfl
      · rw [List.concat_eq_append, ← List.cons_append, ← List.append_assoc] at eq
        exact parts before ctx' e' after' (List.append_inj_left' eq rfl)

theorem composed (composed : Infer.Composed ctx steps) : PostOrder steps := by
  induction composed with
  | nil => exact silent (List.forall_mem_nil _)
  | value e => exact value e
  | declare | assign => exact silent (List.forall_mem_singleton.mpr rfl)
  | append _ _ first second => exact first.append second

theorem built {hints : Hints} (built : Infer.Built hints steps) : PostOrder steps := by
  induction built with
  | nil => exact silent (List.forall_mem_nil _)
  | enter | settleStatic | settleParam => exact silent (List.forall_mem_singleton.mpr rfl)
  | composed _ _ inside => exact composed inside
  | append _ _ first second => exact first.append second

end PostOrder

/-! ## What the generator looks at -/

namespace Outline

/-- Every expression in an outline has a sigil. -/
def Known (o : Outline) : Prop := ∀ node ∈ o.exprNodes, node.2.sigil ≠ none

theorem Known.below {kind : NodeKind} {i : Info} {detail : String} {below : List Outline}
    (known : (node kind i detail below).Known) : ∀ o ∈ below, o.Known := by
  intro o mem n inside
  apply known
  rw [exprNodes_node]
  exact List.mem_append_right _ (List.mem_flatMap.mpr ⟨o, mem, inside⟩)

end Outline

section Known

variable {e e' : Expr} {s s' : Stmt}

/-- An expression that is asked for its sigil has it. -/
theorem Expr.sigil_of_known (known : (e.outline .walk).Known) (mem : e' ∈ e.visits) :
    e'.info.sigil = some e'.sigil := by
  have own : e'.info.sigil ≠ none := known e'.node (e.perm_visits.symm.subset (List.mem_map_of_mem mem))
  obtain ⟨s, recorded⟩ := Option.ne_none_iff_exists'.mp own
  rw [Expr.sigil, recorded, Option.getD_some]

theorem Expr.known_children (known : (e.outline .walk).Known) (mem : e' ∈ e.children) : (e'.outline .walk).Known := by
  obtain ⟨detail, eq⟩ := e.outline_walk
  rw [eq] at known
  exact known.below _ (List.mem_map_of_mem mem)

theorem Expr.known_parts (e : Expr) (known : (e.outline .walk).Known) : ∀ e' ∈ e.parts, (e'.outline .walk).Known := by
  intro e' mem
  cases e with
  | step i op first t => exact t.known_parts (Expr.known_children known List.mem_cons_self) e' mem
  | map i es =>
      apply Expr.known_children known
      obtain ⟨entry, held, which⟩ := List.mem_flatMap.mp mem
      simp only [List.mem_cons, List.not_mem_nil, or_false] at which
      rcases which with rfl | rfl
      · exact List.mem_append_left _ (List.mem_map_of_mem held)
      · exact List.mem_append_right _ (List.mem_map_of_mem held)
  | _ => exact Expr.known_children known mem

theorem outlineClauses_known {cs : List Clause} (known : ∀ o ∈ outlineClauses .walk cs, o.Known) : ∀ c ∈ cs,
    match c with
    | .case_ _ v body => (v.outline .walk).Known ∧ ∀ s ∈ body, (s.outline .walk).Known
    | .default_ _ body => ∀ s ∈ body, (s.outline .walk).Known := by
  induction cs with
  | nil => exact List.forall_mem_nil _
  | cons c cs ih =>
      cases c <;>
      · obtain ⟨own, others⟩ := List.forall_mem_cons.mp known
        apply List.forall_mem_cons.mpr ⟨_, ih others⟩
        simpa only [List.forall_mem_cons, outlineStmts_eq, List.forall_mem_map] using own.below

/-- What the code of a statement is made of has sigils if the statement has. -/
theorem Stmt.known_below (known : (s.outline .walk).Known) :
    (∀ e ∈ s.values, (e.outline .walk).Known) ∧ ∀ s' ∈ s.parts, (s'.outline .walk).Known := by
  cases s with
  | func | class_ | bare => exact ⟨List.forall_mem_nil _, List.forall_mem_nil _⟩
  | ifElse s c a b =>
      have below := (Stmt.outline_ifElse .walk s c a b ▸ known).below
      simp_all [values, parts]
  | for_ s init cond post body =>
      have below := (Stmt.outline_for .walk s init cond post body ▸ known).below
      simp only [List.forall_mem_append, List.forall_mem_map, List.forall_mem_singleton] at below
      obtain ⟨⟨⟨ofInit, ofCond⟩, ofPost⟩, ofBody⟩ := below
      apply And.intro ofCond
      simp only [parts, List.forall_mem_append, List.forall_mem_singleton]
      exact ⟨⟨ofInit, ofPost⟩, ofBody⟩
  | switch s e cs =>
      rw [outline] at known
      obtain ⟨ofValue, clauses⟩ := List.forall_mem_cons.mp known.below
      have inside := outlineClauses_known clauses
      constructor
      · rw [values, List.forall_mem_cons]
        apply And.intro ofValue
        intro v mem
        obtain ⟨c, held, eq⟩ := List.mem_filterMap.mp mem
        cases c with
        | case_ => exact Option.some.inj eq ▸ (inside _ held).1
        | default_ => cases eq
      · intro s' mem
        obtain ⟨c, held, own⟩ := List.mem_flatMap.mp mem
        cases c with
        | case_ => exact (inside _ held).2 s' own
        | default_ => exact inside _ held s' own
  | try_ s body cs last =>
      have below := (Stmt.outline_try .walk s body cs last ▸ known).below
      rw [outlineCatches_eq] at below
      simp only [List.forall_mem_append, List.forall_mem_cons, List.forall_mem_map] at below
      obtain ⟨⟨ofBody, ofCatches⟩, ofLast⟩ := below
      apply And.intro (List.forall_mem_nil _)
      simp only [parts, List.forall_mem_append, List.forall_mem_cons, List.forall_mem_map]
      exact ⟨⟨ofBody, fun c mem => (ofCatches c mem).below _ List.mem_cons_self⟩, ofLast⟩
  | _ =>
      rw [outline] at known
      have below := known.below
      simp_all [values, parts, outlineStmts_eq]

theorem Stmt.known_func {f : FuncDecl} (known : ((Stmt.func f).outline .walk).Known) :
    (f.body.outline .walk).Known := by
  cases f
  exact known.below _ List.mem_cons_self

theorem Stmt.known_class {c : ClassDecl} (known : ((Stmt.class_ c).outline .walk).Known) :
    (∀ f ∈ c.fields, ∀ e ∈ f.init, (e.outline .walk).Known) ∧ (∀ m ∈ c.methods, (m.body.outline .walk).Known) ∧
      ∀ k ∈ c.ctors, (k.body.outline .walk).Known := by
  cases c
  have below := known.below
  simp only [Layout.members, outlineMethods_eq, outlineCtors_eq, List.forall_mem_append, List.forall_mem_map] at below
  obtain ⟨⟨fields, methods⟩, ctors⟩ := below
  exact ⟨fun f mem e init => (fields f mem).below _ (List.mem_map_of_mem (Option.mem_toList.mpr init)),
    fun m mem => (methods m mem).below _ List.mem_cons_self, fun k mem => (ctors k mem).below _ List.mem_cons_self⟩

end Known

namespace Stacked

/-- The values whose code belongs to a node. -/
def Node.values : Node → List Expr
  | expr e => [e]
  | stmt s => s.values

/-- Every expression of a node has a sigil. -/
def Node.Known : Node → Prop
  | expr e => (e.outline .walk).Known
  | stmt s => (s.outline .walk).Known

theorem Node.Known.values {node : Node} (known : node.Known) : ∀ e ∈ node.values, (e.outline .walk).Known := by
  cases node with
  | expr e => exact List.forall_mem_singleton.mpr known
  | stmt s => exact (Stmt.known_below known).1

/-- Watches that every expression of a node has a sigil, and every expression of the last blocks that are pending. -/
def Watch.known {t : ClassTable} (initials : ∀ c ∈ t, ∀ f ∈ c.fields, ∀ e ∈ f.init, (e.outline .walk).Known) :
    Watch t where
  holds σ := ∀ e ∈ σ.lasts, (e.body.outline .walk).Known
  good := Node.Known
  operands known := Expr.known_parts _ known
  values known := (Stmt.known_below known).1
  parts known := (Stmt.known_below known).2
  initial mem init := by
    obtain ⟨c, inside, own⟩ := Emit.mem_of_mem_flatFields mem
    exact initials c inside _ own _ init
  loop holds _ _ _ := holds
  guard holds label last own := by
    refine List.forall_mem_append.mpr ⟨fun e mem => ?_, holds⟩
    obtain ⟨l, isLast, rfl⟩ := List.mem_map.mp mem
    exact own l (Option.mem_toList.mp isLast)
  start _ := List.forall_mem_nil _
  cut holds held := by
    rw [held, List.forall_mem_append, List.forall_mem_cons] at holds
    exact holds.2

end Stacked

/-- Whatever node generating code comes to, all its expressions have sigils if those of the program have. -/
theorem Inference.known_pointsAt {t : Inference} (classes : t.classes = .ofItems t.program.items)
    (items : ∀ s ∈ t.program.items, (s.outline .walk).Known) (depth : Nat) (hints : Hints) (seed : Int64) :
    ∀ p ∈ t.pointsAt depth hints seed, ∀ n ∈ p.node?, n.Known := by
  have parts {c : ClassDecl} (mem : c ∈ t.classes) :=
    Stmt.known_class (items _ (ClassTable.mem_of_mem_ofItems (classes ▸ mem)))
  intro p mem
  exact (t.fine_pointsAt (.known fun c mem => (parts mem).1) depth hints seed
    (fun f inside => Stmt.known_func (items _ inside)) (fun c inside => (parts inside).2.1)
    (fun c inside => (parts inside).2.2) (fun c inside => (parts inside).1)
    (fun s inside => items s (List.mem_of_mem_filter inside)) p mem).node

/-! ## Programs -/

namespace Program

/-- The expressions of a program, as nodes. -/
def exprNodes (p : Program) : List (NodeKind × Info) := p.nodes.filter (·.1.isExpr)

theorem exprNodes_eq (p : Program) : p.exprNodes = (outlineStmts .walk p.items).flatMap Outline.exprNodes :=
  Outline.exprNodes_plain rfl _ _ _

theorem known_items {p : Program} (known : ∀ node ∈ p.exprNodes, node.2.sigil ≠ none) :
    ∀ s ∈ p.items, (s.outline .walk).Known := by
  intro s mem node inside
  apply known
  rw [exprNodes_eq, outlineStmts_eq, List.flatMap_map]
  exact List.mem_flatMap.mpr ⟨s, mem, inside⟩

/-- Inference on the tree of a text, before or after it is checked, ends if following bases does, and goes through the
    whole tree. It records each expression of the tree once, right behind those below it, by the rule and what is known
    then. So whatever node the generator comes to, through initial values and copies of last blocks too, all
    expressions whose code belongs to the node have a sigil of their own, and so has all below them. -/
theorem inference_covers {tokens : List Token} {p p' : Program} (parsed : parse tokens = .ok p)
    (same : eraseStmts p'.items = eraseStmts p.items) (rooted : (ClassTable.ofItems p'.items).Rooted) (hints : Hints) :
    let t := p'.infer hints
    (∃ enough, ∀ bound, enough ≤ bound → p'.infer? bound hints = some t) ∧
    eraseStmts t.program.items = eraseStmts p.items ∧
    Infer.Walks hints.start (p'.walk hints) t.facts ∧
    (seen (p'.walk hints)).Perm t.program.exprNodes ∧
    (∀ (before : List Step) ctx e after, p'.walk hints = before ++ .record ctx e :: after →
      e.children.flatMap (Expr.steps ctx) <:+ before ∧
      e.info.sigil = some (Infer.rule ctx (Infer.run hints.start before) e)) ∧
    (∀ node ∈ t.program.exprNodes, node.2.sigil ≠ none) ∧
    ∀ depth seed, ∀ q ∈ t.pointsAt depth hints seed, ∀ n ∈ q.node?, ∀ v ∈ n.values, ∀ e ∈ v.visits,
      e.info.sigil = some e.sigil := by
  intro t
  have kept : eraseStmts t.program.items = eraseStmts p.items := (p'.erase_infer hints).trans same
  have items : t.program.items.all Stmt.isItem := all_isItem_of_erase kept (items_of_parse parsed)
  have walks : Infer.Walks hints.start (p'.walk hints) t.facts := p'.walks_infer hints
  have perm : t.program.exprNodes.Perm (seen (p'.walk hints)) := by
    rw [exprNodes_eq]
    exact perm_items (p'.outside hints) t.program.items items
  have sound {before : List Step} {ctx : Context} {e : Expr} {after : List Step}
      (split : p'.walk hints = before ++ .record ctx e :: after) :
      e.info.sigil = some (Infer.rule ctx (Infer.run hints.start before) e) := by
    rw [split] at walks
    exact walks.sound_of_split
  have known : ∀ node ∈ t.program.exprNodes, node.2.sigil ≠ none := by
    intro node mem
    obtain ⟨e, recorded, rfl⟩ := List.mem_map.mp (perm.subset mem)
    obtain ⟨step, inside, own⟩ := List.mem_filterMap.mp recorded
    cases step with
    | record ctx e' =>
        cases own
        obtain ⟨before, after, split⟩ := List.append_of_mem inside
        exact Option.ne_none_iff_exists'.mpr ⟨_, sound split⟩
    | _ => cases own
  refine ⟨⟨_, fun bound room => p'.infer?_eq rooted (Nat.lt_of_succ_le room) hints⟩, kept, walks, perm.symm, ?_, known, ?_⟩
  · intro before ctx e after split
    have built : Infer.Built hints (p'.walk hints) := itemsBuilt (p'.outside hints) t.program.items
    exact ⟨PostOrder.built built before ctx e after split, sound split⟩
  · intro depth seed q mem n entered v own e inside
    have node := Inference.known_pointsAt rfl (known_items known) depth hints seed q mem n entered
    exact Expr.sigil_of_known (node.values v own) inside

theorem parsed_of_accept? {file : Nat} {source : String} {p p' : Program} {hints : Hints}
    (accepted : accept? file source = some (p, p', hints)) : ∃ tokens, parse tokens = .ok p := by
  simp only [accept?, Option.bind_eq_bind, Option.bind_eq_some_iff] at accepted
  obtain ⟨tokens, read, q, parsed, ⟨q', hints'⟩, checked, same⟩ := accepted
  obtain ⟨rfl, rfl, rfl⟩ : q = p ∧ q' = p' ∧ hints' = hints := by simpa using same
  use tokens
  unfold ofTokens at parsed
  split at parsed
  · next eq => cases parsed; exact eq
  · cases parsed
  · cases parsed

/-- Expressions at every place: an initial value, bodies of routines of all kinds, clauses of a loop, of a switch and
    of a guarded statement, the entries of a map, and arguments. -/
def everywhere : String :=
  "class B \x7bvar f=1; constructor() \x7bnew B();\x7d func m(a) \x7b-a;\x7d\x7d func g(b) \x7bfor (b; b; b++) " ++
    "switch (b) \x7bcase 1: b;\x7d try \x7bb;\x7d catch (e) \x7be;\x7d finally \x7bb;\x7d\x7d g(\x7b1: [2]\x7d);"

theorem inference_covers_everywhere : ∃ p p' hints, accept? 0 everywhere = some (p, p', hints) ∧
    (∀ node ∈ p'.exprNodes, node.2.sigil = none) ∧ (seen (p'.walk hints)).length = 19 ∧
    ∃ t, (∃ bound, p'.infer? bound hints = some t) ∧ (∀ node ∈ t.program.exprNodes, node.2.sigil ≠ none) ∧
      ∃ q ∈ t.pointsAt 1 hints 0, ∃ n ∈ q.node?, n.values ≠ [] ∧
        ∀ v ∈ n.values, ∀ e ∈ v.visits, e.info.sigil = some e.sigil := by
  have computed : (accept? 0 everywhere).any fun r =>
      (r.2.1.exprNodes.all (·.2.sigil.isNone) && (r.2.1.infer r.2.2).program.exprNodes.length == 19) &&
        ((r.2.1.infer r.2.2).pointsAt 1 r.2.2 0).any fun q => q.node?.any (!·.values.isEmpty) := by
    rewrite [show Program.accept? 0 everywhere = _ from Program.accept?_append 0 _ _]
    decide +kernel
  simp only [Option.any_eq_true, List.any_eq_true, Bool.and_eq_true, List.all_eq_true, Option.isNone_iff_eq_none,
    beq_iff_eq, Bool.not_eq_true', List.isEmpty_eq_false_iff] at computed
  obtain ⟨⟨p, p', hints⟩, accepted, ⟨open_, length⟩, q, point, n, entered, own⟩ := computed
  obtain ⟨tokens, parsed⟩ := parsed_of_accept? accepted
  have checked := (of_accept? accepted).2
  obtain ⟨⟨bound, inferred⟩, -, -, perm, -, known, asked⟩ :=
    inference_covers parsed (p.erase_check.of_outcome checked) (Program.rooted checked).2 hints
  exact ⟨p, p', hints, accepted, open_, perm.length_eq.trans length, _, ⟨bound, inferred bound le_rfl⟩, known, q, point, n, entered, own,
    asked 1 0 q point n entered⟩

/-- On two classes that extend each other and a member that neither has, inference ends within no bound: it records
    nothing. -/
theorem inference_endless : ∃ tokens p, (Token.readAll 0 roundBases).outcome.1 = some tokens ∧
    parse tokens = .ok p ∧ ∀ bound, p.infer? bound .empty = none := by
  obtain ⟨tokens, p, read, parsed, round⟩ := exists_areRoundBases
  exact ⟨tokens, p, read, parsed, p.infer?_of_areRoundBases round⟩

end Program

end Lantern
