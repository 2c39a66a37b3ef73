import Mathlib
import Lantern.Check
import Lantern.Infer
import Lantern.Proofs.Outcomes

/-!
# Passes keep the program

Checking and inference record what they find out about expressions and change nothing else. A program
without these records is the same before and after both.
-/

namespace Lantern

/-! ## Programs without records -/

mutual

/-- An expression without places and records. -/
def Expr.erase : Expr → Expr
  | .number _ v => .number default v
  | .bool _ v => .bool default v
  | .str _ v => .str default v
  | .ident _ name => .ident default name
  | .binary _ op l r => .binary default op l.erase r.erase
  | .unary _ op e => .unary default op e.erase
  | .ternary _ c a b => .ternary default c.erase a.erase b.erase
  | .list _ es => .list default (eraseExprs es)
  | .map _ es => .map default (eraseEntries es)
  | .index _ b k => .index default b.erase k.erase
  | .member _ o name => .member default o.erase name
  | .call _ callee args => .call default callee (eraseExprs args)
  | .method _ r name args => .method default r.erase name (eraseExprs args)
  | .new_ _ cls args => .new_ default cls (eraseExprs args)
  | .super _ => .super default
  | .step _ op first t => .step default op first t.erase
  | .funcRef _ name => .funcRef default name

/-- Expressions without places and records. -/
def eraseExprs : List Expr → List Expr
  | [] => []
  | e :: es => e.erase :: eraseExprs es

/-- Entries of a map without places and records. -/
def eraseEntries : List (Expr × Expr) → List (Expr × Expr)
  | [] => []
  | (k, v) :: es => (k.erase, v.erase) :: eraseEntries es

end

/-- A field without what is recorded in its initial value. -/
def Field.erase (f : Field) : Field := { f with init := f.init.map Expr.erase }

mutual

/-- A statement without what is recorded in its expressions. -/
def Stmt.erase : Stmt → Stmt
  | .print s e => .print s e.erase
  | .printStmt s b => .printStmt s b.erase
  | .expr s e => .expr s e.erase
  | .bare e => .bare e.erase
  | .assign s name e => .assign s name e.erase
  | .indexAssign s b k e => .indexAssign s b.erase k.erase e.erase
  | .varDecl s name type init => .varDecl s name type (init.map Expr.erase)
  | .block s body => .block s (eraseStmts body)
  | .ifElse s c a b => .ifElse s c.erase a.erase (match b with
    | some b => some b.erase
    | none => none)
  | .while_ s c body => .while_ s c.erase body.erase
  | .doWhile s body c => .doWhile s body.erase c.erase
  | .for_ s init cond post body => .for_ s (match init with
    | some i => some i.erase
    | none => none) (cond.map Expr.erase) (match post with
    | some p => some p.erase
    | none => none) body.erase
  | .switch s e cs => .switch s e.erase (eraseClauses cs)
  | .break_ s => .break_ s
  | .continue_ s => .continue_ s
  | .return_ s e => .return_ s (e.map Expr.erase)
  | .throw_ s type e => .throw_ s type e.erase
  | .try_ s body cs last => .try_ s body.erase (eraseCatches cs) (match last with
    | some l => some l.erase
    | none => none)
  | .func ⟨s, name, ps, result, body⟩ => .func ⟨s, name, ps, result, body.erase⟩
  | .class_ ⟨s, name, base, fields, methods, ctors⟩ =>
    .class_ ⟨s, name, base, fields.map Field.erase, eraseMethods methods, eraseCtors ctors⟩

/-- Statements without what is recorded in their expressions. -/
def eraseStmts : List Stmt → List Stmt
  | [] => []
  | s :: ss => s.erase :: eraseStmts ss

/-- Clauses without what is recorded in their expressions. -/
def eraseClauses : List Clause → List Clause
  | [] => []
  | .case_ s v body :: cs => .case_ s v.erase (eraseStmts body) :: eraseClauses cs
  | .default_ s body :: cs => .default_ s (eraseStmts body) :: eraseClauses cs

/-- Handlers without what is recorded in their expressions. -/
def eraseCatches : List Catch → List Catch
  | [] => []
  | ⟨s, type, name, body⟩ :: cs => ⟨s, type, name, body.erase⟩ :: eraseCatches cs

/-- Methods without what is recorded in their expressions. -/
def eraseMethods : List Method → List Method
  | [] => []
  | ⟨s, name, ps, result, body, isStatic, isOverride⟩ :: ms =>
    ⟨s, name, ps, result, body.erase, isStatic, isOverride⟩ :: eraseMethods ms

/-- Constructors without what is recorded in their expressions. -/
def eraseCtors : List Ctor → List Ctor
  | [] => []
  | ⟨s, ps, body⟩ :: ks => ⟨s, ps, body.erase⟩ :: eraseCtors ks

end

theorem Expr.isLValue_erase (e : Expr) : e.erase.isLValue = e.isLValue := by cases e <;> rfl

theorem eraseExprs_eq (es : List Expr) : eraseExprs es = es.map Expr.erase := by
  induction es with
  | nil => rfl
  | cons e es ih => simp [eraseExprs, ih]

theorem eraseStmts_eq (ss : List Stmt) : eraseStmts ss = ss.map Stmt.erase := by
  induction ss with
  | nil => rfl
  | cons s ss ih => simp [eraseStmts, ih]

theorem eraseEntries_eq (es : List (Expr × Expr)) :
    eraseEntries es = es.map fun e => (e.1.erase, e.2.erase) := by
  induction es with
  | nil => rfl
  | cons e es ih => simp [eraseEntries, ih]

/-- A function without what is recorded in its expressions. -/
def FuncDecl.erase (f : FuncDecl) : FuncDecl := { f with body := f.body.erase }

/-- A method without what is recorded in its expressions. -/
def Method.erase (m : Method) : Method := { m with body := m.body.erase }

/-- A constructor without what is recorded in its expressions. -/
def Ctor.erase (k : Ctor) : Ctor := { k with body := k.body.erase }

/-- A class without what is recorded in its expressions. -/
def ClassDecl.erase (c : ClassDecl) : ClassDecl :=
  { c with
    fields := c.fields.map Field.erase
    methods := c.methods.map Method.erase
    ctors := c.ctors.map Ctor.erase }

theorem eraseMethods_eq (ms : List Method) : eraseMethods ms = ms.map Method.erase := by
  induction ms with
  | nil => rfl
  | cons m ms ih => cases m; simp [eraseMethods, Method.erase, ih]

theorem eraseCtors_eq (ks : List Ctor) : eraseCtors ks = ks.map Ctor.erase := by
  induction ks with
  | nil => rfl
  | cons k ks ih => cases k; simp [eraseCtors, Ctor.erase, ih]

namespace Stmt

theorem erase_func (f : FuncDecl) : (func f).erase = func f.erase := by
  cases f
  rfl

theorem erase_class (c : ClassDecl) : (class_ c).erase = class_ c.erase := by
  cases c
  simp only [erase, ClassDecl.erase, eraseMethods_eq, eraseCtors_eq]

theorem erase_ifElse (s : Span) (c : Expr) (a : Stmt) (b : Option Stmt) :
    (ifElse s c a b).erase = ifElse s c.erase a.erase (b.map erase) := by
  cases b <;> rfl

theorem erase_for (s : Span) (init : Option Stmt) (cond : Option Expr) (post : Option Stmt)
    (body : Stmt) : (for_ s init cond post body).erase =
      for_ s (init.map erase) (cond.map Expr.erase) (post.map erase) body.erase := by
  cases init <;> cases post <;> rfl

theorem erase_try (s : Span) (body : Stmt) (cs : List Catch) (last : Option Stmt) :
    (try_ s body cs last).erase = try_ s body.erase (eraseCatches cs) (last.map erase) := by
  cases last <;> rfl

end Stmt

/-! ## Checking -/

namespace Check

variable {α β : Type} {P : α → Prop} {Q : β → Prop}

/-- What a step of checking gives if it does not stop. -/
def Gives (x : Checking α) (P : α → Prop) : Prop := ∀ st, (x.run st).Gives fun r => P r.1

theorem gives_pure {a : α} (holds : P a) : Gives (pure a) P := fun _ => Checked.gives_pure holds

theorem Gives.bind {x : Checking α} {f : α → Checking β} (first : Gives x P)
    (rest : ∀ a, P a → Gives (f a) Q) : Gives (x >>= f) Q :=
  fun st => Checked.Gives.bind (first st) fun r holds => rest r.1 holds r.2

theorem gives_true {x : Checking α} : Gives x fun _ => True := fun _ => Checked.gives_true

theorem Gives.mono {P' : α → Prop} {x : Checking α} (gives : Gives x P) (le : ∀ a, P a → P' a) :
    Gives x P' := fun st => (gives st).mono fun r => le r.1

theorem Gives.after {x : Checking α} {f : α → Checking β} (rest : ∀ a, Gives (f a) Q) :
    Gives (x >>= f) Q := gives_true.bind fun a _ => rest a

theorem gives_fail {at_ : Span} {message : String} : Gives (fail at_ message : Checking α) P :=
  fun _ _ _ eq => by cases eq

theorem Gives.some {x : Checking α} (gives : Gives x P) :
    Gives (some <$> x) fun o => ∃ a, o = some a ∧ P a := by
  rw [← bind_pure_comp]
  exact gives.bind fun a holds => gives_pure ⟨a, rfl, holds⟩

theorem gives_inScope {x : Checking α} (inside : Gives x P) : Gives (inScope x) P :=
  .after fun _ => inside.bind fun _ holds => .after fun _ => gives_pure holds

variable (ctx : Context)

mutual

theorem erase_expr (e : Expr) : Gives (expr ctx e) fun r => r.1.erase = e.erase := by
  cases e with
  | number | bool | str => unfold expr; exact gives_pure rfl
  | ident => unfold expr; exact .after fun _ => gives_pure rfl
  | binary i op l r =>
      unfold expr
      refine (erase_expr l).bind fun (l', _) left => (erase_expr r).bind fun (r', _) right =>
        .after fun _ => gives_pure ?_
      simp_all [Expr.erase]
  | unary i op e =>
      unfold expr
      refine (erase_expr e).bind fun (e', _) inner => gives_pure ?_
      simp_all [Expr.erase]
  | ternary i c a b =>
      unfold expr
      refine (erase_expr c).bind fun (c', _) hc => (erase_expr a).bind fun (a', _) ha =>
        (erase_expr b).bind fun (b', _) hb => gives_pure ?_
      simp_all [Expr.erase]
  | list i es =>
      unfold expr
      refine (erase_exprs es).bind fun es' inner => gives_pure ?_
      simp_all [Expr.erase, eraseExprs_eq]
  | map i es =>
      unfold expr
      refine (erase_keys es).bind fun ks hk => (erase_values es).bind fun vs hv => gives_pure ?_
      simp only [Expr.erase, eraseEntries_eq]
      refine congrArg _ ?_
      calc (ks.zip (vs.map Prod.fst)).map (fun e => (e.1.erase, e.2.erase))
          = (ks.map Expr.erase).zip ((vs.map Prod.fst).map Expr.erase) := List.zip_map.symm
        _ = es.map (fun e => (e.1.erase, e.2.erase)) := by rw [hk, hv, List.zip_map']
  | index i b k =>
      unfold expr
      refine (erase_expr b).bind fun (b', _) hb => (erase_expr k).bind fun (k', _) hk => gives_pure ?_
      simp_all [Expr.erase]
  | member i o name =>
      unfold expr
      refine (erase_expr o).bind fun (o', _) ho => .after fun _ => gives_pure ?_
      simp_all [Expr.erase]
  | call i callee args =>
      unfold expr
      refine (erase_exprs args).bind fun args' inner => .after fun _ => gives_pure ?_
      simp_all [Expr.erase, eraseExprs_eq]
  | method i r name args =>
      unfold expr
      refine (erase_expr r).bind fun (r', _) hr => (erase_exprs args).bind fun args' inner =>
        .after fun _ => gives_pure ?_
      simp_all [Expr.erase, eraseExprs_eq]
  | new_ i cls args =>
      unfold expr
      refine (erase_exprs args).bind fun args' inner => .after fun _ => gives_pure ?_
      simp_all [Expr.erase, eraseExprs_eq]
  | super i =>
      unfold expr
      split
      · exact gives_fail.bind (P := fun _ => False) nofun
      · exact gives_pure rfl
  | step i op first t =>
      unfold expr
      refine (erase_expr t).bind fun (t', _) ht => gives_pure ?_
      simp_all [Expr.erase]
  | funcRef i name =>
      unfold expr
      split
      · exact gives_fail.bind (P := fun _ => False) nofun
      · exact gives_pure rfl

theorem erase_exprs (es : List Expr) :
    Gives (exprs ctx es) fun r => (r.map Prod.fst).map Expr.erase = es.map Expr.erase := by
  cases es with
  | nil => unfold exprs; exact gives_pure rfl
  | cons e es =>
      unfold exprs
      refine (erase_expr e).bind fun e' first => (erase_exprs es).bind fun es' rest => gives_pure ?_
      simp_all

theorem erase_keys (es : List (Expr × Expr)) :
    Gives (keys ctx es) fun r => r.map Expr.erase = es.map fun e => e.1.erase := by
  match es with
  | [] => unfold keys; exact gives_pure rfl
  | (k, v) :: es =>
      unfold keys
      refine (erase_expr k).bind fun (k', _) first => .after fun _ =>
        (erase_keys es).bind fun es' rest => gives_pure ?_
      simp_all

theorem erase_values (es : List (Expr × Expr)) :
    Gives (values ctx es) fun r => (r.map Prod.fst).map Expr.erase = es.map fun e => e.2.erase := by
  match es with
  | [] => unfold values; exact gives_pure rfl
  | (k, v) :: es =>
      unfold values
      refine (erase_expr v).bind fun v' first => (erase_values es).bind fun es' rest => gives_pure ?_
      simp_all

end

theorem erase_exprOnly (e : Expr) : Gives (exprOnly ctx e) fun r => r.erase = e.erase :=
  (erase_expr ctx e).bind fun _ same => gives_pure same

theorem erase_exprOption (o : Option Expr) :
    Gives (exprOption ctx o) fun r => r.1.map Expr.erase = o.map Expr.erase := by
  cases o with
  | none => exact gives_pure rfl
  | some e => exact (erase_expr ctx e).bind fun _ same => gives_pure (congrArg some same)

theorem erase_target (base key : Expr) :
    Gives (target ctx base key) fun r => r.1.erase = base.erase ∧ r.2.erase = key.erase := by
  have checked : Gives (do
      let base ← exprOnly ctx base
      let key ← exprOnly ctx key
      return (base, key)) fun r => r.1.erase = base.erase ∧ r.2.erase = key.erase :=
    (erase_exprOnly ctx base).bind fun _ first => (erase_exprOnly ctx key).bind fun _ second =>
      gives_pure ⟨first, second⟩
  unfold target
  split
  · refine .after fun known => ?_
    split
    · exact checked
    · split
      · split
        · split
          · exact gives_fail.bind (P := fun _ => False) nofun
          · exact gives_pure ⟨rfl, rfl⟩
        · exact gives_fail.bind (P := fun _ => False) nofun
      · exact checked
  · exact checked

theorem erase_clauseValue (subject : Option Sigil) (v : Expr) :
    Gives (clauseValue ctx subject v) fun r => r.erase = v.erase := by
  unfold clauseValue
  split
  on_goal 4 => refine .after fun _ => ?_
  all_goals
    refine (erase_expr ctx _).bind ?_
    rintro ⟨v', type⟩ same
    dsimp only
    split
    · split
      · exact .after fun _ => gives_pure same
      · exact gives_pure same
    · exact gives_pure same

mutual

theorem erase_stmt (ctx : Context) (s : Stmt) : Gives (stmt ctx s) fun r => r.erase = s.erase := by
  cases s with
  | block s body =>
      unfold stmt
      refine gives_inScope ((erase_stmts ctx false false body).bind fun body' same => gives_pure ?_)
      simp only [Stmt.erase, same]
  | print s e | expr s e | throw_ s type e =>
      unfold stmt
      refine (erase_exprOnly ctx e).bind fun e' same => gives_pure ?_
      simp only [Stmt.erase, same]
  | varDecl s name type init =>
      unfold stmt
      refine (erase_exprOption ctx init).bind fun (init', _) same => .after fun _ => gives_pure ?_
      simp only [Stmt.erase, same]
  | assign s name e =>
      unfold stmt
      refine (erase_expr ctx e).bind fun (e', _) same => .after fun _ => gives_pure ?_
      simp only [Stmt.erase, same]
  | indexAssign s b k e =>
      unfold stmt
      refine (erase_target ctx b k).bind fun (b', k') same => (erase_exprOnly ctx e).bind fun e' value =>
        gives_pure ?_
      simp only [Stmt.erase, same, value]
  | ifElse s c a b =>
      unfold stmt
      refine (erase_exprOnly ctx c).bind fun c' hc => (erase_stmt ctx a).bind fun a' ha => ?_
      extract_lets behind
      have step (b' : Option Stmt) (hb : b'.map Stmt.erase = b.map Stmt.erase) :
          Gives (behind b') fun r => r.erase = (Stmt.ifElse s c a b).erase :=
        gives_pure (by simp only [Stmt.erase_ifElse, hc, ha, hb])
      cases b with
      | none => exact step none rfl
      | some b =>
          exact (erase_stmt ctx b).some.bind fun _ ⟨b', eq, hb⟩ => step _ (by simp [eq, hb])
  | while_ s c body =>
      unfold stmt
      refine (erase_exprOnly ctx c).bind fun c' hc => (erase_stmt ctx.inLoop body).bind fun body' same =>
        gives_pure ?_
      simp only [Stmt.erase, hc, same]
  | doWhile s body c =>
      unfold stmt
      refine (erase_stmt ctx.inLoop body).bind fun body' same => (erase_exprOnly ctx c).bind fun c' hc =>
        gives_pure ?_
      simp only [Stmt.erase, hc, same]
  | for_ s init cond post body =>
      unfold stmt
      refine gives_inScope ?_
      extract_lets behindInit
      have stepInit (init' : Option Stmt) (hi : init'.map Stmt.erase = init.map Stmt.erase) :
          Gives (behindInit init') fun r => r.erase = (Stmt.for_ s init cond post body).erase := by
        refine (erase_exprOption ctx cond).bind fun (cond', _) hc => ?_
        dsimp only at hc ⊢
        have stepPost (post' : Option Stmt) (hp : post'.map Stmt.erase = post.map Stmt.erase) :
            Gives (do return Stmt.for_ s init' cond' post' (← stmt ctx.inLoop body)) fun r =>
              r.erase = (Stmt.for_ s init cond post body).erase :=
          (erase_stmt ctx.inLoop body).bind fun body' hb =>
            gives_pure (by simp only [Stmt.erase_for, hi, hc, hp, hb])
        cases post with
        | none => exact stepPost none rfl
        | some p =>
            exact (erase_stmt ctx p).some.bind fun _ ⟨p', eq, hp⟩ => stepPost _ (by simp [eq, hp])
      cases init with
      | none => exact stepInit none rfl
      | some i =>
          exact (erase_stmt ctx i).some.bind fun _ ⟨i', eq, hi⟩ => stepInit _ (by simp [eq, hi])
  | switch s e cs =>
      unfold stmt
      refine (erase_expr ctx e).bind fun (e', subject) he =>
        gives_inScope ((erase_clauses ctx.inSwitch subject cs).bind fun cs' same => gives_pure ?_)
      simp only [Stmt.erase, he, same]
  | break_ s =>
      unfold stmt
      split
      · exact gives_fail.bind (P := fun _ => False) nofun
      · exact gives_pure rfl
  | continue_ s =>
      unfold stmt
      split
      · exact gives_fail.bind (P := fun _ => False) nofun
      · exact gives_pure rfl
  | return_ s e =>
      cases e with
      | none => unfold stmt; exact gives_pure rfl
      | some e =>
          unfold stmt
          split
          · exact gives_fail.bind (P := fun _ => False) nofun
          · refine (erase_expr ctx e).bind fun (e', got) same => .after fun _ => gives_pure ?_
            simp only [Stmt.erase, Option.map_some, same]
  | try_ s body cs last =>
      unfold stmt
      refine (erase_stmt ctx body).bind fun body' hb => (erase_catches ctx cs).bind fun cs' hc => ?_
      extract_lets behind
      have step (last' : Option Stmt) (hl : last'.map Stmt.erase = last.map Stmt.erase) :
          Gives (behind last') fun r => r.erase = (Stmt.try_ s body cs last).erase :=
        gives_pure (by simp only [Stmt.erase_try, hb, hc, hl])
      cases last with
      | none => exact step none rfl
      | some l =>
          exact (erase_stmt ctx l).some.bind fun _ ⟨l', eq, hl⟩ => step _ (by simp [eq, hl])
  | func f | class_ c => unfold stmt; exact gives_fail
  | bare e | printStmt s b => unfold stmt; exact gives_pure rfl

theorem erase_stmts (ctx : Context) (top left : Bool) (ss : List Stmt) :
    Gives (stmts ctx top left ss) fun r => eraseStmts r = eraseStmts ss := by
  cases ss with
  | nil => unfold stmts; exact gives_pure rfl
  | cons s ss =>
      unfold stmts
      have step : Gives (do
          let s ← stmt ctx s
          return s :: (← stmts ctx top s.isTransfer ss)) fun r => eraseStmts r = eraseStmts (s :: ss) :=
        (erase_stmt ctx s).bind fun s' hs => (erase_stmts ctx top s'.isTransfer ss).bind fun ss' rest =>
          gives_pure (by simp only [eraseStmts, hs, rest])
      split
      · refine (erase_stmts ctx top left ss).bind fun ss' rest => gives_pure ?_
        simp only [eraseStmts, rest]
      · cases left with
        | true => exact .after fun _ => step
        | false => exact step

theorem erase_clauses (ctx : Context) (subject : Option Sigil) (cs : List Clause) :
    Gives (clauses ctx subject cs) fun r => eraseClauses r = eraseClauses cs := by
  match cs with
  | [] => unfold clauses; exact gives_pure rfl
  | .case_ s v body :: cs =>
      unfold clauses
      refine (erase_clauseValue ctx subject v).bind fun v' hv =>
        (erase_stmts ctx false false body).bind fun body' hb =>
        (erase_clauses ctx subject cs).bind fun cs' rest => gives_pure ?_
      simp only [eraseClauses, hv, hb, rest]
  | .default_ s body :: cs =>
      unfold clauses
      refine (erase_stmts ctx false false body).bind fun body' hb =>
        (erase_clauses ctx subject cs).bind fun cs' rest => gives_pure ?_
      simp only [eraseClauses, hb, rest]

theorem erase_catches (ctx : Context) (cs : List Catch) :
    Gives (catches ctx cs) fun r => eraseCatches r = eraseCatches cs := by
  match cs with
  | [] => unfold catches; exact gives_pure rfl
  | ⟨s, type, name, body⟩ :: cs =>
      unfold catches
      refine (gives_inScope (.after fun _ => erase_stmt ctx body)).bind fun body' hb =>
        (erase_catches ctx cs).bind fun cs' rest => gives_pure ?_
      simp only [eraseCatches, hb, rest]

end

theorem erase_routine (ctx : Context) (params : List Param) (body : Stmt) :
    Gives (routine ctx params body) fun r => r.erase = body.erase := by
  refine gives_inScope ?_
  split
  · exact .after fun _ => erase_stmt ctx body
  · exact .after fun _ => .after fun _ => erase_stmt ctx body

theorem erase_fields (ctx : Context) (fs : List Field) :
    Gives (fields ctx fs) fun r => r.map Field.erase = fs.map Field.erase := by
  induction fs with
  | nil => exact gives_pure rfl
  | cons f fs ih =>
      unfold fields
      refine (erase_exprOption _ f.init).bind fun (init, _) same => .after fun _ =>
        ih.bind fun fs' rest => gives_pure ?_
      simp only [List.map_cons, rest, Field.erase, same]

theorem erase_methods (ctx : Context) (ms : List Method) :
    Gives (methods ctx ms) fun r => r.map Method.erase = ms.map Method.erase := by
  induction ms with
  | nil => exact gives_pure rfl
  | cons m ms ih =>
      unfold methods
      refine (erase_routine _ m.params m.body).bind fun body same => ih.bind fun ms' rest => gives_pure ?_
      simp only [List.map_cons, Method.erase, same, rest]

theorem erase_ctors (ctx : Context) (ks : List Ctor) :
    Gives (ctors ctx ks) fun r => r.map Ctor.erase = ks.map Ctor.erase := by
  induction ks with
  | nil => exact gives_pure rfl
  | cons k ks ih =>
      unfold ctors
      refine (erase_routine _ k.params k.body).bind fun body same => ih.bind fun ks' rest => gives_pure ?_
      simp only [List.map_cons, Ctor.erase, same, rest]

theorem erase_decls (ctx : Context) (ss : List Stmt) :
    Gives (decls ctx ss) fun r => eraseStmts r = eraseStmts ss := by
  induction ss with
  | nil => exact gives_pure rfl
  | cons s ss ih =>
      cases s with
      | func f =>
          refine Gives.bind (P := fun g => (Stmt.func g).erase = (Stmt.func f).erase) ?_ fun g same =>
            ih.bind fun ss' rest => gives_pure ?_
          · refine (erase_routine _ f.params f.body).bind fun body same => gives_pure ?_
            simp only [Stmt.erase_func, FuncDecl.erase, same]
          · simp only [eraseStmts, same, rest]
      | class_ c =>
          refine Gives.bind (P := fun d => (Stmt.class_ d).erase = (Stmt.class_ c).erase) ?_ fun d same =>
            ih.bind fun ss' rest => gives_pure ?_
          · refine (erase_fields _ c.fields).bind fun fs hf => (erase_methods _ c.methods).bind fun ms hm =>
              (erase_ctors _ c.ctors).bind fun ks hk => gives_pure ?_
            simp only [Stmt.erase_class, ClassDecl.erase, hf, hm, hk]
          · simp only [eraseStmts, same, rest]
      | _ =>
          refine ih.bind fun ss' rest => gives_pure ?_
          simp only [eraseStmts, rest]

theorem erase_items (d : Declarations) (xs : List Stmt) :
    Gives (items d xs) fun r => eraseStmts r = eraseStmts xs :=
  .after fun _ => (erase_stmts _ true false xs).bind fun ys same =>
    (erase_decls _ ys).mono fun _ same' => same'.trans same

end Check

/-- The program that comes out of checking is the one that goes in. -/
theorem Program.erase_check (p : Program) :
    p.check.Gives fun r => eraseStmts r.1.items = eraseStmts p.items :=
  Checked.gives_true.bind fun d _ => Checked.gives_true.bind fun _ _ =>
    (Check.erase_items d p.items _).bind fun _ same => Checked.gives_pure same

/-! ## Inference -/

namespace Infer

mutual

theorem erase_expr (ctx : Context) (fs : Facts) (e : Expr) : (expr ctx fs e).erase = e.erase := by
  cases e with
  | number | bool | str | ident | super | funcRef => rfl
  | binary i op l r => simp only [expr, Expr.erase, erase_expr ctx fs l, erase_expr ctx fs r]
  | unary i op e => simp only [expr, Expr.erase, erase_expr ctx fs e]
  | ternary i c a b =>
      simp only [expr, Expr.erase, erase_expr ctx fs c, erase_expr ctx fs a, erase_expr ctx fs b]
  | list i es => simp only [expr, Expr.erase, erase_exprs ctx fs es]
  | map i es => simp only [expr, Expr.erase, erase_entries ctx fs es]
  | index i b k => simp only [expr, Expr.erase, erase_expr ctx fs b, erase_expr ctx fs k]
  | member i o name => simp only [expr, Expr.erase, erase_expr ctx fs o]
  | call i callee args => simp only [expr, Expr.erase, erase_exprs ctx fs args]
  | method i r name args => simp only [expr, Expr.erase, erase_expr ctx fs r, erase_exprs ctx fs args]
  | new_ i cls args => simp only [expr, Expr.erase, erase_exprs ctx fs args]
  | step i op first t => simp only [expr, Expr.erase, erase_expr ctx fs t]

theorem erase_exprs (ctx : Context) (fs : Facts) (es : List Expr) :
    eraseExprs (exprs ctx fs es) = eraseExprs es := by
  cases es with
  | nil => rfl
  | cons e es => simp only [exprs, eraseExprs, erase_expr ctx fs e, erase_exprs ctx fs es]

theorem erase_entries (ctx : Context) (fs : Facts) (es : List (Expr × Expr)) :
    eraseEntries (entries ctx fs es) = eraseEntries es := by
  match es with
  | [] => rfl
  | (k, v) :: es =>
      simp only [entries, eraseEntries, erase_expr ctx fs k, erase_expr ctx fs v, erase_entries ctx fs es]

end

/-- What a step of inference gives, whatever is known before. -/
def Gives {α : Type} (x : Inferring α) (P : α → Prop) : Prop := ∀ fs, P (x.run fs).1

section Gives

variable {α β : Type} {P : α → Prop} {Q : β → Prop}

theorem gives_pure {a : α} (holds : P a) : Gives (pure a) P := fun _ => holds

theorem Gives.bind {x : Inferring α} {f : α → Inferring β} (first : Gives x P)
    (rest : ∀ a, P a → Gives (f a) Q) : Gives (x >>= f) Q :=
  fun fs => rest _ (first fs) _

theorem Gives.after {x : Inferring α} {f : α → Inferring β} (rest : ∀ a, Gives (f a) Q) :
    Gives (x >>= f) Q := fun _ => rest _ _

theorem Gives.some {x : Inferring α} (gives : Gives x P) :
    Gives (some <$> x) fun o => ∃ a, o = some a ∧ P a := fun fs => ⟨_, rfl, gives fs⟩

end Gives

theorem erase_value (ctx : Context) (e : Expr) : Gives (value ctx e) fun r => r.erase = e.erase :=
  fun fs => erase_expr ctx fs e

theorem erase_valueOption (ctx : Context) (o : Option Expr) :
    Gives (valueOption ctx o) fun r => r.map Expr.erase = o.map Expr.erase := by
  cases o with
  | none => exact gives_pure rfl
  | some e => exact (erase_value ctx e).bind fun _ same => gives_pure (congrArg some same)

mutual

theorem erase_stmt (ctx : Context) (s : Stmt) : Gives (stmt ctx s) fun r => r.erase = s.erase := by
  cases s with
  | block s body =>
      unfold stmt
      exact (erase_stmts ctx body).bind fun body' same => gives_pure (by simp only [Stmt.erase, same])
  | print s e | expr s e | throw_ s type e =>
      unfold stmt
      exact (erase_value ctx e).bind fun e' same => gives_pure (by simp only [Stmt.erase, same])
  | assign s name e =>
      unfold stmt
      exact (erase_value ctx e).bind fun e' same => .after fun _ =>
        gives_pure (by simp only [Stmt.erase, same])
  | indexAssign s b k e =>
      unfold stmt
      exact (erase_value ctx b).bind fun b' hb => (erase_value ctx k).bind fun k' hk =>
        (erase_value ctx e).bind fun e' he => gives_pure (by simp only [Stmt.erase, hb, hk, he])
  | varDecl s name type init =>
      unfold stmt
      exact (erase_valueOption ctx init).bind fun init' same => .after fun _ =>
        gives_pure (by simp only [Stmt.erase, same])
  | ifElse s c a b =>
      unfold stmt
      refine (erase_value ctx c).bind fun c' hc => (erase_stmt ctx a).bind fun a' ha => ?_
      extract_lets behind
      have step (b' : Option Stmt) (hb : b'.map Stmt.erase = b.map Stmt.erase) :
          Gives (behind b') fun r => r.erase = (Stmt.ifElse s c a b).erase :=
        gives_pure (by simp only [Stmt.erase_ifElse, hc, ha, hb])
      cases b with
      | none => exact step none rfl
      | some b =>
          exact (erase_stmt ctx b).some.bind fun _ ⟨b', eq, hb⟩ => step _ (by simp [eq, hb])
  | while_ s c body =>
      unfold stmt
      exact (erase_value ctx c).bind fun c' hc => (erase_stmt ctx body).bind fun body' same =>
        gives_pure (by simp only [Stmt.erase, hc, same])
  | doWhile s body c =>
      unfold stmt
      exact (erase_stmt ctx body).bind fun body' same => (erase_value ctx c).bind fun c' hc =>
        gives_pure (by simp only [Stmt.erase, hc, same])
  | for_ s init cond post body =>
      unfold stmt
      extract_lets behindInit
      have stepInit (init' : Option Stmt) (hi : init'.map Stmt.erase = init.map Stmt.erase) :
          Gives (behindInit init') fun r => r.erase = (Stmt.for_ s init cond post body).erase := by
        refine (erase_valueOption ctx cond).bind fun cond' hc => ?_
        extract_lets behindPost
        have stepPost (post' : Option Stmt) (hp : post'.map Stmt.erase = post.map Stmt.erase) :
            Gives (behindPost post') fun r => r.erase = (Stmt.for_ s init cond post body).erase :=
          (erase_stmt ctx body).bind fun body' hb =>
            gives_pure (by simp only [Stmt.erase_for, hi, hc, hp, hb])
        cases post with
        | none => exact stepPost none rfl
        | some p =>
            exact (erase_stmt ctx p).some.bind fun _ ⟨p', eq, hp⟩ => stepPost _ (by simp [eq, hp])
      cases init with
      | none => exact stepInit none rfl
      | some i =>
          exact (erase_stmt ctx i).some.bind fun _ ⟨i', eq, hi⟩ => stepInit _ (by simp [eq, hi])
  | switch s e cs =>
      unfold stmt
      exact (erase_value ctx e).bind fun e' he => (erase_clauses ctx cs).bind fun cs' same =>
        gives_pure (by simp only [Stmt.erase, he, same])
  | return_ s e =>
      unfold stmt
      exact (erase_valueOption ctx e).bind fun e' same => gives_pure (by simp only [Stmt.erase, same])
  | try_ s body cs last =>
      unfold stmt
      refine (erase_stmt ctx body).bind fun body' hb => (erase_catches ctx cs).bind fun cs' hc => ?_
      extract_lets behind
      have step (last' : Option Stmt) (hl : last'.map Stmt.erase = last.map Stmt.erase) :
          Gives (behind last') fun r => r.erase = (Stmt.try_ s body cs last).erase :=
        gives_pure (by simp only [Stmt.erase_try, hb, hc, hl])
      cases last with
      | none => exact step none rfl
      | some l =>
          exact (erase_stmt ctx l).some.bind fun _ ⟨l', eq, hl⟩ => step _ (by simp [eq, hl])
  | break_ s | continue_ s | func f | class_ c | bare e | printStmt s b =>
      unfold stmt
      exact gives_pure rfl

theorem erase_stmts (ctx : Context) (ss : List Stmt) :
    Gives (stmts ctx ss) fun r => eraseStmts r = eraseStmts ss := by
  cases ss with
  | nil => unfold stmts; exact gives_pure rfl
  | cons s ss =>
      unfold stmts
      exact (erase_stmt ctx s).bind fun s' hs => (erase_stmts ctx ss).bind fun ss' rest =>
        gives_pure (by simp only [eraseStmts, hs, rest])

theorem erase_clauses (ctx : Context) (cs : List Clause) :
    Gives (clauses ctx cs) fun r => eraseClauses r = eraseClauses cs := by
  match cs with
  | [] => unfold clauses; exact gives_pure rfl
  | .case_ s v body :: cs =>
      unfold clauses
      exact (erase_value ctx v).bind fun v' hv => (erase_stmts ctx body).bind fun body' hb =>
        (erase_clauses ctx cs).bind fun cs' rest => gives_pure (by simp only [eraseClauses, hv, hb, rest])
  | .default_ s body :: cs =>
      unfold clauses
      exact (erase_stmts ctx body).bind fun body' hb =>
        (erase_clauses ctx cs).bind fun cs' rest => gives_pure (by simp only [eraseClauses, hb, rest])

theorem erase_catches (ctx : Context) (cs : List Catch) :
    Gives (catches ctx cs) fun r => eraseCatches r = eraseCatches cs := by
  match cs with
  | [] => unfold catches; exact gives_pure rfl
  | ⟨s, type, name, body⟩ :: cs =>
      unfold catches
      exact .after fun _ => (erase_stmt ctx body).bind fun body' hb =>
        (erase_catches ctx cs).bind fun cs' rest => gives_pure (by simp only [eraseCatches, hb, rest])

end

theorem erase_fields (ctx : Context) (fs : List Field) :
    Gives (fields ctx fs) fun r => r.map Field.erase = fs.map Field.erase := by
  induction fs with
  | nil => exact gives_pure rfl
  | cons f fs ih =>
      unfold fields
      refine (erase_valueOption ctx f.init).bind fun init same => ?_
      have rest : Gives (do return { f with init := init } :: (← fields ctx fs)) fun r =>
          r.map Field.erase = (f :: fs).map Field.erase :=
        ih.bind fun fs' rest => gives_pure (by simp only [List.map_cons, rest, Field.erase, same])
      split
      · exact .after fun _ => rest
      · exact rest

theorem erase_routine (ctx : Context) (hasThis : Bool) (params : List Param) (body : Stmt) :
    Gives (routine ctx hasThis params body) fun r => r.erase = body.erase :=
  .after fun _ => .after fun _ => erase_stmt ctx body

theorem erase_methods (ctx : Context) (ms : List Method) :
    Gives (methods ctx ms) fun r => r.map Method.erase = ms.map Method.erase := by
  induction ms with
  | nil => exact gives_pure rfl
  | cons m ms ih =>
      unfold methods
      refine (erase_routine _ _ m.params m.body).bind fun body same => ih.bind fun ms' rest =>
        gives_pure ?_
      simp only [List.map_cons, Method.erase, same, rest]

theorem erase_ctors (ctx : Context) (ks : List Ctor) :
    Gives (ctors ctx ks) fun r => r.map Ctor.erase = ks.map Ctor.erase := by
  induction ks with
  | nil => exact gives_pure rfl
  | cons k ks ih =>
      unfold ctors
      refine (erase_routine _ _ k.params k.body).bind fun body same => ih.bind fun ks' rest =>
        gives_pure ?_
      simp only [List.map_cons, Ctor.erase, same, rest]

theorem erase_classFields (ctx : Context) (ss : List Stmt) :
    Gives (classFields ctx ss) fun r => eraseStmts r = eraseStmts ss := by
  induction ss with
  | nil => exact gives_pure rfl
  | cons s ss ih =>
      cases s with
      | class_ c =>
          refine (erase_fields _ c.fields).bind fun fs hf => ih.bind fun ss' rest => gives_pure ?_
          simp only [eraseStmts, Stmt.erase_class, ClassDecl.erase, hf, rest]
      | _ => exact ih.bind fun ss' rest => gives_pure (by simp only [eraseStmts, rest])

theorem erase_topLevel (ctx : Context) (ss : List Stmt) :
    Gives (topLevel ctx ss) fun r => eraseStmts r = eraseStmts ss := by
  induction ss with
  | nil => exact gives_pure rfl
  | cons s ss ih =>
      unfold topLevel
      have rest (s' : Stmt) (hs : s'.erase = s.erase) : Gives (do return s' :: (← topLevel ctx ss))
          fun r => eraseStmts r = eraseStmts (s :: ss) :=
        ih.bind fun ss' rest => gives_pure (by simp only [eraseStmts, hs, rest])
      split
      · exact rest s rfl
      · exact (erase_stmt ctx s).bind rest

theorem erase_funcs (ctx : Context) (ss : List Stmt) :
    Gives (funcs ctx ss) fun r => eraseStmts r = eraseStmts ss := by
  induction ss with
  | nil => exact gives_pure rfl
  | cons s ss ih =>
      cases s with
      | func f =>
          refine (erase_routine _ _ f.params f.body).bind fun body same => ih.bind fun ss' rest =>
            gives_pure ?_
          simp only [eraseStmts, Stmt.erase_func, FuncDecl.erase, same, rest]
      | _ => exact ih.bind fun ss' rest => gives_pure (by simp only [eraseStmts, rest])

theorem erase_classRoutines (ctx : Context) (ss : List Stmt) :
    Gives (classRoutines ctx ss) fun r => eraseStmts r = eraseStmts ss := by
  induction ss with
  | nil => exact gives_pure rfl
  | cons s ss ih =>
      cases s with
      | class_ c =>
          refine (erase_methods _ c.methods).bind fun ms hm => (erase_ctors _ c.ctors).bind fun ks hk =>
            ih.bind fun ss' rest => gives_pure ?_
          simp only [eraseStmts, Stmt.erase_class, ClassDecl.erase, hm, hk, rest]
      | _ => exact ih.bind fun ss' rest => gives_pure (by simp only [eraseStmts, rest])

theorem erase_items (ctx : Context) (xs : List Stmt) :
    Gives (items ctx xs) fun r => eraseStmts r = eraseStmts xs :=
  .after fun _ => (erase_classFields ctx xs).bind fun xs₁ h₁ => (erase_topLevel ctx xs₁).bind fun xs₂ h₂ =>
    (erase_funcs ctx xs₂).bind fun xs₃ h₃ fs =>
      (erase_classRoutines ctx xs₃ fs).trans (h₃.trans (h₂.trans h₁))

end Infer

/-- The program that comes out of inference is the one that goes in. -/
theorem Program.erase_infer (p : Program) (hints : Hints) :
    eraseStmts (p.infer hints).program.items = eraseStmts p.items :=
  Infer.erase_items _ p.items _

end Lantern
