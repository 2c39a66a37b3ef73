import Lantern.Proofs.Guards
import Lantern.Proofs.Switch

/-!
# Code of all statements

Which statements have a meaning here, and that the code of each carries its meaning out: one case for
each form, by the lemmas about the forms.
-/

namespace Lantern.Meaning

open Assembly Machine
open Emit (Text Gen Env Emitting Lays clauseBody lastBlock?)

/-- Whether a declaration without a value starts with one that is known here. -/
def startsPlain : Option Sigil → Bool
  | some (.list _) | some (.map _) => false
  | _ => true

mutual

/-- Whether a statement has a meaning here and is left early only in the given ways. -/
def fits (kit : Kit) (ways : Ways) : Stmt → Bool
  | .block _ body => allFit kit ways body
  | .print _ e => meant kit e && printable e.sigil
  | .expr _ e => meant kit e
  | .assign _ name e => kit.variable_ name && meant kit e
  | .varDecl _ name type init => kit.variable_ name && (match init with
    | some e => meant kit e
    | none => startsPlain type)
  | .ifElse _ c a b => meant kit c && fits kit ways a && (match b with
    | some b => fits kit ways b
    | none => true)
  | .while_ _ c body => meant kit c && fits kit ways.inLoop body
  | .doWhile _ body c => meant kit c && fits kit ways.inLoop body
  | .for_ _ init cond post body =>
    (match init with
    | some i => fits kit ways i
    | none => true) && cond.all (meant kit) && (match post with
    | some p => fits kit ways p
    | none => true) && fits kit ways.inLoop body
  | .switch _ e cs => meant kit e && clausesFit kit ways.inSwitch cs
  | .break_ _ => ways.break_
  | .continue_ _ => ways.continue_
  | .return_ _ e => ways.return_ && e.all (meant kit)
  | .throw_ _ type e => kit.guards && spelled type && meant kit e
  | .try_ _ body cs last => kit.guards && fits kit ways body && catchesFit kit ways cs &&
    (match last with
    | some l => fits kit .none l
    | none => true)
  | _ => false

/-- Whether statements do. -/
def allFit (kit : Kit) (ways : Ways) : List Stmt → Bool
  | [] => true
  | s :: ss => fits kit ways s && allFit kit ways ss

/-- Whether clauses do. -/
def clausesFit (kit : Kit) (ways : Ways) : List Clause → Bool
  | [] => true
  | .case_ _ e body :: cs => meant kit e && allFit kit ways body && clausesFit kit ways cs
  | .default_ _ body :: cs => allFit kit ways body && clausesFit kit ways cs

/-- Whether handlers do. -/
def catchesFit (kit : Kit) (ways : Ways) : List Catch → Bool
  | [] => true
  | ⟨_, type, name, body⟩ :: cs =>
    spelled type && kit.variable_ name && fits kit ways body && catchesFit kit ways cs

end

variable {W : Type}

/-- All that the statements of a routine rely on. -/
structure Able (S : Setting W) (arity? : String → Option Nat) (guards : Bool) : Prop extends
    Sound S where
  calls : ∀ symbol n, arity? symbol = some n → Callable S symbol n
  laws : guards = true → Lawful S.scope.host S.scope.literal S.text.pool
  noted : guards = true → S.noted

section

variable {S : Setting W} {env : Env} {ways : Ways} {arity? : String → Option Nat} {guards : Bool}

theorem Able.computes (able : Able S arity? guards) (suits : Suits S env) {e : Expr}
    (known : meant (kitOf env arity? guards) e = true) :
    Computes S env (Emit.expr env e) (eval S.scope e) :=
  computes_expr suits able.toSound able.calls known

theorem mapEntry_of_meant {kit : Kit} {e : Expr} (known : meant kit e = true) :
    Emit.mapEntry? e = none := by
  cases e with
  | index => simp [meant] at known
  | _ => rfl

/-- The value of a variable that is declared without one. -/
theorem computes_initial {type : Option Sigil} (sound : Sound S) (plain : startsPlain type = true) :
    Computes S env (Emit.defaultValue type) (initial S.scope type) := by
  cases type with
  | none => exact computes_zero
  | some sigil =>
      cases sigil with
      | str => exact computes_str "" (sound.literal "")
      | list | map => simp [startsPlain] at plain
      | int | bool | object => exact computes_zero

theorem values_of_fit {kit : Kit} {cs : List Clause} (fit : clausesFit kit ways cs = true) :
    ∀ c ∈ cs, ∀ e ∈ clauseValue? c, meant kit e = true := by
  induction cs with
  | nil => simp
  | cons c cs ih =>
      cases c with
      | case_ s e body =>
          simp only [clausesFit, Bool.and_eq_true] at fit
          refine List.forall_mem_cons.mpr ⟨fun e' own => ?_, ih fit.2⟩
          obtain rfl : e = e' := by simpa [clauseValue?] using own
          exact fit.1.1
      | default_ s body =>
          simp only [clausesFit, Bool.and_eq_true] at fit
          exact List.forall_mem_cons.mpr ⟨by simp [clauseValue?], ih fit.2⟩

theorem handlers_of_fit {kit : Kit} {cs : List Catch} (fit : catchesFit kit ways cs = true) :
    (∀ c ∈ cs, kit.variable_ c.name = true) ∧ ∀ c ∈ cs, spelled c.type = true := by
  induction cs with
  | nil => simp
  | cons c cs ih =>
      obtain ⟨s, type, name, body⟩ := c
      simp only [catchesFit, Bool.and_eq_true] at fit
      obtain ⟨⟨⟨named, variable_⟩, -⟩, rest⟩ := fit
      obtain ⟨names, types⟩ := ih rest
      exact ⟨List.forall_mem_cons.mpr ⟨variable_, names⟩, List.forall_mem_cons.mpr ⟨named, types⟩⟩

theorem open_none : Open env .none := by
  intro goOn allowed
  cases goOn <;> simp [Ways.allows, Ways.none] at allowed

theorem open_guarded (leads : Open env ways) (label : String) (last : Option Emit.LastBlock) :
    Open (env.guarded label last) ways := by
  intro goOn allowed
  obtain ⟨l, found, depth⟩ := leads goOn allowed
  refine ⟨l, found, depth.trans ?_⟩
  simp [Env.guarded]

section Equations

variable (kit : Kit) (ways : Ways) (s : Span)

theorem fits_ifElse (c : Expr) (a : Stmt) (b : Option Stmt) : fits kit ways (.ifElse s c a b) =
    (meant kit c && fits kit ways a && b.all (fits kit ways)) := by
  cases b <;> simp [fits]

theorem fits_for (init : Option Stmt) (cond : Option Expr) (post : Option Stmt) (body : Stmt) :
    fits kit ways (.for_ s init cond post body) = (init.all (fits kit ways) &&
      cond.all (meant kit) && post.all (fits kit ways) && fits kit ways.inLoop body) := by
  cases init <;> cases post <;> simp [fits]

theorem fits_try (body : Stmt) (cs : List Catch) (last : Option Stmt) :
    fits kit ways (.try_ s body cs last) = (kit.guards && fits kit ways body &&
      catchesFit kit ways cs && last.all (fits kit .none)) := by
  cases last <;> simp [fits]

end Equations

/-- What a statement does that may be missing. -/
def exec? (sc : Scope W) : Option Stmt → Act W Unit
  | some s => exec sc s
  | none => return ()

section Equations

variable (sc : Scope W) (s : Span)

theorem exec_ifElse (c : Expr) (a : Stmt) (b : Option Stmt) : exec sc (.ifElse s c a b) = (do
    if (← eval sc c) = 0 then exec? sc b else exec sc a) := by
  cases b <;> simp only [exec, exec?]

theorem exec_for (init : Option Stmt) (cond : Option Expr) (post : Option Stmt) (body : Stmt) :
    exec sc (.for_ s init cond post body) = (do
      exec? sc init
      rounds sc.fuel do
        if ← goesOn sc cond then
          if ← round (exec sc body) then
            exec? sc post
            return true
          else return false
        else return false) := by
  cases init <;> cases cond <;> cases post <;> simp [exec, exec?, goesOn]

end Equations

mutual

theorem simulates_stmt (able : Able S arity? guards) (env : Env) (ways : Ways) (suits : Suits S env)
    (leads : Open env ways) (s : Stmt) (fit : fits (kitOf env arity? guards) ways s = true) :
    Simulates S env ways (Emit.stmt env s) (exec S.scope s) := by
  have := suits.tidy
  cases s with
  | block s body =>
      simp only [fits] at fit
      simp only [exec]
      exact simulates_stmts able env ways suits leads body fit
  | print s e =>
      simp only [fits, Bool.and_eq_true] at fit
      simp only [exec]
      exact simulates_print suits able.toSound (mapEntry_of_meant fit.1) fit.2
        (able.computes suits fit.1)
  | expr s e =>
      simp only [fits] at fit
      simp only [exec]
      exact simulates_discard (able.computes suits fit)
  | assign s name e =>
      simp only [fits, Bool.and_eq_true] at fit
      obtain ⟨place, found⟩ := Option.isSome_iff_exists.mp fit.1
      show Simulates S env ways (do Emit.valueFor env (env.facts.var env.routine name) e; Emit.store env s name) _
      simp only [exec, valueFor_eq fit.2]
      exact simulates_store suits s found (able.computes suits fit.2)
  | varDecl s name type init =>
      cases init with
      | some e =>
          simp only [fits, Bool.and_eq_true] at fit
          obtain ⟨place, found⟩ := Option.isSome_iff_exists.mp fit.1
          show Simulates S env ways (do Emit.valueFor env (env.facts.var env.routine name) e; Emit.store env s name) _
          simp only [exec, valueFor_eq fit.2]
          exact simulates_store suits s found (able.computes suits fit.2)
      | none =>
          simp only [fits, Bool.and_eq_true] at fit
          obtain ⟨place, found⟩ := Option.isSome_iff_exists.mp fit.1
          simp only [exec]
          exact simulates_store suits s found (computes_initial able.toSound fit.2)
  | ifElse s c a b =>
      simp only [fits_ifElse, Bool.and_eq_true] at fit
      rw [exec_ifElse]
      exact simulates_ifElse suits (able.computes suits fit.1.1)
        (simulates_stmt able env ways suits leads a fit.1.2)
        (simulates_stmt? able env ways suits leads b fit.2)
  | while_ s c body =>
      simp only [fits, Bool.and_eq_true] at fit
      simp only [exec]
      exact simulates_while suits (able.computes suits fit.1) fun exit next =>
        simulates_stmt able _ _ (suits.inFrame exit next false) (open_inLoop exit next) body fit.2
  | doWhile s body c =>
      simp only [fits, Bool.and_eq_true] at fit
      simp only [exec]
      exact simulates_doWhile suits (able.computes suits fit.1) fun exit next =>
        simulates_stmt able _ _ (suits.inFrame exit next false) (open_inLoop exit next) body fit.2
  | for_ s init cond post body =>
      simp only [fits_for, Bool.and_eq_true] at fit
      obtain ⟨⟨⟨before, test⟩, after⟩, inside⟩ := fit
      rw [exec_for]
      refine simulates_for suits (fun c own => ?_) (simulates_stmt? able env ways suits leads init before)
        (simulates_stmt? able env ways suits leads post after) fun exit next =>
        simulates_stmt able _ _ (suits.inFrame exit next false) (open_inLoop exit next) body inside
      obtain rfl : cond = some c := own
      exact able.computes suits (by simpa using test)
  | switch s e cs =>
      simp only [fits, Bool.and_eq_true] at fit
      refine simulates_switch suits able.toSound (able.computes suits fit.1)
        (fun c mem e own => able.computes suits (values_of_fit fit.2 c mem e own)) fun exit =>
        simulates_clauseBodies able _ _ (suits.inFrame exit "" true) (open_inSwitch leads exit) cs fit.2
  | break_ s =>
      simp only [fits] at fit
      simp only [exec]
      exact simulates_leave false fit leads
  | continue_ s =>
      simp only [fits] at fit
      simp only [exec]
      exact simulates_leave true fit leads
  | return_ s e =>
      cases e with
      | none =>
          simp only [fits, Option.all_none, Bool.and_true] at fit
          simp only [exec]
          exact simulates_return suits fit computes_zero
      | some e =>
          simp only [fits, Option.all_some, Bool.and_eq_true] at fit
          simp only [exec]
          exact simulates_return suits fit.1 (able.computes suits fit.2)
  | throw_ s type e =>
      simp only [fits, Bool.and_eq_true] at fit
      simp only [exec]
      exact simulates_throw suits able.toSound (able.laws fit.1.1) (able.noted fit.1.1) fit.1.2
        (able.computes suits fit.2)
  | try_ s body cs last =>
      simp only [fits_try, Bool.and_eq_true] at fit
      obtain ⟨⟨⟨allowed, tried⟩, caught⟩, lastly⟩ := fit
      obtain ⟨names, types⟩ := handlers_of_fit caught
      refine simulates_try suits able.toSound (able.laws allowed) (able.noted allowed) leads
        (fun label k placed => simulates_stmt able _ ways (suits.guarded last placed)
          (open_guarded leads label _) body tried)
        (fun label k placed => simulates_catches able _ ways (suits.guarded last placed)
          (open_guarded leads label _) cs caught)
        names types ?_
      intro l own loops
      obtain rfl : last = some l := own
      rw [Option.all_some] at lastly
      exact simulates_stmt able _ .none (suits.withLoops loops) open_none l lastly
  | printStmt | bare | indexAssign | func | class_ => simp [fits] at fit
termination_by sizeOf s
decreasing_by all_goals (subst_vars; simp <;> omega)

theorem simulates_stmt? (able : Able S arity? guards) (env : Env) (ways : Ways) (suits : Suits S env)
    (leads : Open env ways) (s : Option Stmt)
    (fit : s.all (fits (kitOf env arity? guards) ways) = true) :
    Simulates S env ways (Emit.stmt? env s) (exec? S.scope s) := by
  cases s with
  | none => exact simulates_nothing
  | some s => exact simulates_stmt able env ways suits leads s (by simpa using fit)
termination_by sizeOf s
decreasing_by all_goals (subst_vars; simp)

theorem simulates_stmts (able : Able S arity? guards) (env : Env) (ways : Ways) (suits : Suits S env)
    (leads : Open env ways) (ss : List Stmt)
    (fit : allFit (kitOf env arity? guards) ways ss = true) :
    Simulates S env ways (Emit.stmts env ss) (execs S.scope ss) := by
  have := suits.tidy
  cases ss with
  | nil =>
      simp only [execs]
      exact simulates_nothing
  | cons s ss =>
      simp only [allFit, Bool.and_eq_true] at fit
      simp only [execs]
      exact simulates_seq (simulates_stmt able env ways suits leads s fit.1)
        (simulates_stmts able env ways suits leads ss fit.2)
termination_by sizeOf ss
decreasing_by all_goals (subst_vars; simp <;> omega)

theorem simulates_clauseBodies (able : Able S arity? guards) (env : Env) (ways : Ways)
    (suits : Suits S env) (leads : Open env ways) (cs : List Clause)
    (fit : clausesFit (kitOf env arity? guards) ways cs = true) :
    ∀ c ∈ cs, Simulates S env ways (Emit.stmts env (clauseBody c)) (execs S.scope (clauseBody c)) := by
  cases cs with
  | nil => simp
  | cons c cs =>
      cases c with
      | case_ s e body =>
          simp only [clausesFit, Bool.and_eq_true] at fit
          exact List.forall_mem_cons.mpr ⟨simulates_stmts able env ways suits leads body fit.1.2,
            simulates_clauseBodies able env ways suits leads cs fit.2⟩
      | default_ s body =>
          simp only [clausesFit, Bool.and_eq_true] at fit
          exact List.forall_mem_cons.mpr ⟨simulates_stmts able env ways suits leads body fit.1,
            simulates_clauseBodies able env ways suits leads cs fit.2⟩
termination_by sizeOf cs
decreasing_by all_goals (subst_vars; simp <;> omega)

theorem simulates_catches (able : Able S arity? guards) (env : Env) (ways : Ways)
    (suits : Suits S env) (leads : Open env ways) (cs : List Catch)
    (fit : catchesFit (kitOf env arity? guards) ways cs = true) :
    ∀ c ∈ cs, Simulates S env ways (Emit.stmt env c.body) (exec S.scope c.body) := by
  cases cs with
  | nil => simp
  | cons c cs =>
      cases c with | mk s type name body =>
      simp only [catchesFit, Bool.and_eq_true] at fit
      exact List.forall_mem_cons.mpr ⟨simulates_stmt able env ways suits leads body fit.1.2,
        simulates_catches able env ways suits leads cs fit.2⟩
termination_by sizeOf cs
decreasing_by all_goals (subst_vars; simp <;> omega)

end

end

end Lantern.Meaning
