import Lantern.Proofs.Declared
import Lantern.Proofs.Steps
import Lantern.Proofs.Symbols

/-!
# Sigils are settled once

The tables of inference are written once. A step settles one variable at most and only one that has no sigil, so what
is recorded for an expression never relies on an answer that changes later. Which sigil a variable ends up with can be
told from the walk alone: the first that a step offers it. Outside of routines every declaration and assignment offers
its sigil to a global; in a routine an assignment does so only behind a declaration that left the sigil open.
-/

namespace Lantern

namespace Infer

/-! ## Variables -/

/-- What has a sigil of its own. -/
inductive Variable where
  /-- A parameter of a routine. -/
  | param (routine name : String)
  /-- A local of a routine. -/
  | local_ (routine name : String)
  /-- A global variable. -/
  | global (name : String)
  /-- A static field by its symbol. -/
  | static (symbol : String)
  deriving DecidableEq

/-- Whether a variable gets its sigil where its routine or class begins, whatever is done with it. -/
def Variable.isFixed : Variable → Bool
  | .param .. | .static _ => true
  | .local_ .. | .global _ => false

/-- The variable that a declaration or an assignment in a routine is about. -/
def Variable.inRoutine (routine name : String) : Variable :=
  if routine = SymbolName.mainRoutine then .global name else .local_ routine name

namespace Facts

variable (fs : Facts) (routine name symbol : String) (s : Sigil) (v : Variable)

/-- The sigil of a variable, if it is settled. -/
def settled? : Variable → Option Sigil
  | .param r x => (fs.frame r).params.get? x
  | .local_ r x => (fs.frame r).locals.get? x
  | .global x => fs.globals.get? x
  | .static symbol => fs.statics.get? symbol

/-- Variables that are settled keep their sigils. -/
def Keeps (fs fs' : Facts) : Prop := ∀ v s, fs.settled? v = some s → fs'.settled? v = some s

theorem settled?_setFrame (f : Frame) : (fs.setFrame routine f).settled? v = match v with
    | .param r x => if r = routine then f.params.get? x else fs.settled? (.param r x)
    | .local_ r x => if r = routine then f.locals.get? x else fs.settled? (.local_ r x)
    | .global x => fs.settled? (.global x)
    | .static symbol => fs.settled? (.static symbol) := by
  cases v with
  | param | local_ => simp only [settled?, frame_setFrame]; split <;> rfl
  | global | static => rfl

theorem settled?_settleGlobal :
    (fs.settleGlobal name s).settled? v = (fs.settled? v).or (if v = .global name then some s else none) := by
  cases v with
  | global x =>
      have table : (fs.settleGlobal name s).globals =
          if fs.globals.has name then fs.globals else fs.globals.put name s := by
        unfold settleGlobal
        split <;> rfl
      simp only [settled?, table, Assoc.get?_settle, Variable.global.injEq]
  | _ => unfold settleGlobal; split <;> simp [settled?, frame]

theorem settled?_settleLocal : (fs.settleLocal routine name s).settled? v =
    if v = .local_ routine name then some s else fs.settled? v := by
  rw [settleLocal, settled?_setFrame]
  cases v with
  | local_ r x => grind [Assoc.get?_put, settled?]
  | param r x => grind [settled?]
  | _ => rfl

theorem settled?_pend (pending : List String) :
    (fs.setFrame routine { fs.frame routine with pending := pending }).settled? v = fs.settled? v := by
  rw [settled?_setFrame]
  cases v with
  | param | local_ => dsimp only; split <;> simp_all [settled?]
  | global | static => rfl

variable {fs v}

/-- What is offered to a settled variable changes nothing. -/
theorem settled?_or_of_settled {w : Variable} (known : fs.settled? w ≠ none) (offer : Option Sigil) :
    (fs.settled? v).or (if v = w then offer else none) = fs.settled? v := by
  split
  · next same =>
      obtain ⟨s, settled⟩ := Option.ne_none_iff_exists'.mp known
      rw [same, settled, Option.some_or]
  · rw [Option.or_none]

theorem settled?_or_of_unsettled {w : Variable} (unknown : fs.settled? w = none) (offer : Option Sigil) :
    (fs.settled? v).or (if v = w then offer else none) = if v = w then offer else fs.settled? v := by
  split
  · next same => rw [same, unknown, Option.none_or]
  · rw [Option.or_none]

end Facts

/-! ## Offers -/

namespace Step

/-- Whether a step declares a variable without a type or a value. -/
def opens (v : Variable) : Step → Bool
  | declare ctx x none => Variable.inRoutine ctx.routine x = v
  | _ => false

/-- The sigil that a step offers to a variable, given the steps before it. -/
def offer? (before : List Step) (v : Variable) : Step → Option Sigil
  | enter _ | record .. => none
  | settleStatic symbol s => if v = .static symbol then some s else none
  | settleParam r x s => if v = .param r x then some s else none
  | declare ctx x s => if v = .inRoutine ctx.routine x then s else none
  | assign ctx x s =>
    if v = .inRoutine ctx.routine x ∧ (ctx.routine = SymbolName.mainRoutine ∨ before.any (opens v)) then some s
    else none

/-- The parameter or static field a step settles. -/
def target? : Step → Option Variable
  | settleStatic symbol _ => some (.static symbol)
  | settleParam r x _ => some (.param r x)
  | enter _ | record .. | declare .. | assign .. => none

/-- Declarations look at the given hints. -/
def Under (hints : Hints) : Step → Prop
  | declare ctx .. => ctx.hints = hints
  | _ => True

end Step

/-- Steps settle each parameter and each static field once, and all look at the same hints. -/
structure Orderly (hints : Hints) (steps : List Step) : Prop where
  once : (steps.filterMap Step.target?).Nodup
  under : ∀ step ∈ steps, step.Under hints

/-- What is known after the steps of a walk so far. -/
structure Traced (hints : Hints) (before : List Step) (fs : Facts) : Prop where
  /-- The locals that wait are those declared without a type or value that have no sigil yet. -/
  waiting : ∀ r x, r ≠ SymbolName.mainRoutine →
    (x ∈ (fs.frame r).pending ↔ before.any (Step.opens (.local_ r x)) ∧ fs.settled? (.local_ r x) = none)
  /-- Nothing waits outside of routines. -/
  outside : (fs.frame SymbolName.mainRoutine).pending = []
  /-- Globals with a declared type are settled. -/
  hinted : ∀ x, hints.globalTypes.has x → fs.settled? (.global x) ≠ none
  /-- Parameters and static fields are settled by their own steps. -/
  fixed : ∀ v, v.isFixed → fs.settled? v ≠ none → v ∈ before.filterMap Step.target?

variable {hints : Hints} {before steps : List Step} {step : Step} {fs : Facts}

namespace Traced

theorem start : Traced hints [] hints.start where
  waiting := by simp [Hints.start, Facts.frame, Frame.empty, Assoc.get?]
  outside := rfl
  hinted x known := by simpa [Facts.settled?, Hints.start, ← Assoc.isSome_get?, Option.isSome_iff_ne_none] using known
  fixed v isFixed known := by
    cases v with
    | param | static => exact absurd rfl known
    | local_ | global => cases isFixed

/-- What a step finds out about a variable: what is known stays, and what is offered is taken otherwise. -/
theorem settled?_perform (traced : Traced hints before fs) (under : step.Under hints)
    (fresh : ∀ v ∈ step.target?, fs.settled? v = none) (v : Variable) :
    (step.perform fs).settled? v = (fs.settled? v).or (step.offer? before v) := by
  cases step with
  | enter r =>
      rw [Step.offer?, Option.or_none]
      exact fs.settled?_pend r v (fs.frame r).pending
  | record => rw [Step.offer?, Option.or_none, Step.perform]
  | settleStatic symbol s =>
      have unknown : fs.statics.get? symbol = none := fresh (.static symbol) rfl
      rw [Step.offer?, Step.perform]
      cases v with
      | static symbol' =>
          simp only [Facts.settled?, Assoc.get?_put, Variable.static.injEq]
          split
          · next same => rw [same, unknown, Option.none_or]
          · rw [Option.or_none]
      | _ => simp [Facts.settled?, Facts.frame]
  | settleParam r x s =>
      have unknown : (fs.frame r).params.get? x = none := fresh (.param r x) rfl
      rw [Step.offer?, Step.perform, Facts.settled?_setFrame]
      cases v with
      | param r' x' => grind [Facts.settled?, Assoc.get?_put]
      | local_ r' x' => grind [Facts.settled?]
      | _ => simp
  | declare ctx x sigil =>
      rw [Step.offer?, Step.perform, Facts.declare.eq_def]
      by_cases outside : ctx.routine = SymbolName.mainRoutine
      · rw [if_pos (beq_iff_eq.mpr outside), Variable.inRoutine, if_pos outside]
        cases sigil with
        | none => simp
        | some s =>
            by_cases known : hints.globalTypes.has x
            · dsimp only
              rw [show ctx.hints = hints from under, if_pos known]
              exact (Facts.settled?_or_of_settled (traced.hinted x known) _).symm
            · dsimp only
              rw [show ctx.hints = hints from under, if_neg known]
              exact fs.settled?_settleGlobal x s v
      · rw [if_neg (by simpa using outside), Variable.inRoutine, if_neg outside]
        have isSome := Assoc.isSome_get? (fs.frame ctx.routine).locals x
        by_cases known : (fs.frame ctx.routine).locals.has x
        · have settled : fs.settled? (.local_ ctx.routine x) ≠ none :=
            Option.isSome_iff_ne_none.mp (isSome.trans known)
          rw [if_pos known]
          exact (Facts.settled?_or_of_settled settled sigil).symm
        · have unknown : fs.settled? (.local_ ctx.routine x) = none :=
            Option.not_isSome_iff_eq_none.mp (isSome ▸ known)
          rw [Facts.settled?_or_of_unsettled unknown, if_neg known]
          cases sigil with
          | none =>
              apply (fs.settled?_pend _ v _).trans
              split
              · next same => rw [same, unknown]
              · rfl
          | some s => exact fs.settled?_settleLocal ctx.routine x s v
  | assign ctx x s =>
      rw [Step.offer?, Step.perform, Facts.assign]
      by_cases waits : x ∈ (fs.frame ctx.routine).pending
      · have inside : ctx.routine ≠ SymbolName.mainRoutine := by
          intro outside
          rw [outside, traced.outside] at waits
          cases waits
        obtain ⟨opened, unknown⟩ := (traced.waiting _ _ inside).mp waits
        rw [if_pos (List.contains_iff_mem.mpr waits), Variable.inRoutine, if_neg inside, Facts.settled?_settleLocal]
        by_cases same : v = .local_ ctx.routine x
        · simp [same, unknown, opened]
        · simp [same]
      · rw [if_neg (by simpa using waits)]
        by_cases outside : ctx.routine = SymbolName.mainRoutine
        · simp only [outside, Variable.inRoutine, if_true, true_or, and_true, beq_self_eq_true]
          exact fs.settled?_settleGlobal x s v
        · rw [if_neg (by simpa using outside), Variable.inRoutine, if_neg outside]
          by_cases same : v = .local_ ctx.routine x
          · subst same
            by_cases opened : before.any (Step.opens (.local_ ctx.routine x))
            · have settled : fs.settled? (.local_ ctx.routine x) ≠ none :=
                fun unknown => waits ((traced.waiting _ _ outside).mpr ⟨opened, unknown⟩)
              obtain ⟨t, known⟩ := Option.ne_none_iff_exists'.mp settled
              rw [known, Option.some_or]
            · simp [opened, outside]
          · simp [same]

theorem frame_settleGlobal (x : String) (s : Sigil) (r : String) : (fs.settleGlobal x s).frame r = fs.frame r := by
  unfold Facts.settleGlobal
  split <;> rfl

/-- A local waits after a step if it did before or is declared now, and has no sigil. -/
theorem mem_pending_perform (traced : Traced hints before fs) {r x : String} (inside : r ≠ SymbolName.mainRoutine) :
    x ∈ ((step.perform fs).frame r).pending ↔
      (x ∈ (fs.frame r).pending ∨ step.opens (.local_ r x) ∧ fs.settled? (.local_ r x) = none) ∧
        (step.perform fs).settled? (.local_ r x) = none := by
  have waits : x ∈ (fs.frame r).pending → (fs.frame r).locals.get? x = none :=
    fun mem => ((traced.waiting r x inside).mp mem).2
  have unknown := Assoc.get?_eq_none_iff (fs.frame r).locals x
  have outside : (fs.frame SymbolName.mainRoutine).pending = [] := traced.outside
  simp only [Facts.settled?]
  cases step with
  | enter r' =>
      simp only [Step.perform, Step.opens, Facts.frame_setFrame]
      grind
  | settleStatic symbol s =>
      have same : ((Step.settleStatic symbol s).perform fs).frame r = fs.frame r := rfl
      grind [Step.opens]
  | settleParam r' y s =>
      simp only [Step.perform, Step.opens, Facts.frame_setFrame]
      grind
  | record => simpa [Step.perform, Step.opens] using waits
  | declare ctx y sigil =>
      simp only [Step.perform, Facts.declare.eq_def, beq_iff_eq]
      split
      · next outside =>
          have apart : Step.opens (.local_ r x) (.declare ctx y sigil) = false := by
            cases sigil <;> simp [Step.opens, Variable.inRoutine, outside]
          grind [frame_settleGlobal]
      · have opened : Step.opens (.local_ r x) (.declare ctx y sigil) ↔ sigil = none ∧ ctx.routine = r ∧ y = x := by
          cases sigil <;> simp_all [Step.opens, Variable.inRoutine]
        cases sigil <;> grind [Facts.settleLocal, Facts.frame_setFrame, Assoc.get?_put, mem_addNew]
  | assign ctx y s =>
      simp only [Step.perform, Facts.assign, Step.opens, List.contains_iff_mem]
      grind [Facts.settleLocal, Facts.frame_setFrame, Assoc.get?_put, frame_settleGlobal]

theorem fresh (traced : Traced hints before fs) (orderly : Orderly hints (before ++ [step])) :
    ∀ v ∈ step.target?, fs.settled? v = none := by
  intro v target
  by_contra known
  have isFixed : v.isFixed := by
    cases step <;> cases target <;> rfl
  have once := orderly.once
  rw [List.filterMap_append, List.nodup_append] at once
  exact once.2.2 v (traced.fixed v isFixed known) v (by simp [show step.target? = some v from target]) rfl

/-- A step goes on from what is known after the steps before it. -/
theorem perform (traced : Traced hints before fs) (orderly : Orderly hints (before ++ [step])) :
    Traced hints (before ++ [step]) (step.perform fs) := by
  have under : step.Under hints := orderly.under step (by simp)
  have effect := traced.settled?_perform under (traced.fresh orderly)
  constructor
  case waiting =>
    intro r x inside
    have kept : (step.perform fs).settled? (.local_ r x) = none → fs.settled? (.local_ r x) = none := by
      rw [effect, Option.or_eq_none_iff]
      exact And.left
    rw [traced.mem_pending_perform inside, traced.waiting r x inside, List.any_append]
    simp only [List.any_cons, List.any_nil, Bool.or_false, Bool.or_eq_true]
    tauto
  case outside =>
    have outside := traced.outside
    cases step with
    | enter r => grind [Step.perform, Facts.frame_setFrame]
    | settleStatic => exact outside
    | settleParam r x s => grind [Step.perform, Facts.frame_setFrame]
    | record => exact outside
    | declare ctx x sigil =>
        cases sigil <;>
          grind [Step.perform, Facts.declare, Facts.settleLocal, Facts.frame_setFrame, frame_settleGlobal]
    | assign ctx x s =>
        grind [Step.perform, Facts.assign, Facts.settleLocal, Facts.frame_setFrame, frame_settleGlobal]
  case hinted =>
    intro x known
    rw [effect, Ne, Option.or_eq_none_iff]
    rintro ⟨unknown, -⟩
    exact traced.hinted x known unknown
  case fixed =>
    intro v isFixed known
    rw [effect, Ne, Option.or_eq_none_iff, not_and_or] at known
    rw [List.filterMap_append, List.mem_append]
    rcases known with known | offered
    · exact .inl (traced.fixed v isFixed known)
    · right
      cases step <;> grind [Step.offer?, Step.target?, Variable.isFixed, Variable.inRoutine]

end Traced

theorem Orderly.of_append {before after : List Step} (orderly : Orderly hints (before ++ after)) :
    Orderly hints before where
  once := orderly.once.sublist ((List.sublist_append_left _ _).filterMap _)
  under step mem := orderly.under step (List.mem_append_left _ mem)

theorem run_append (fs : Facts) (steps steps' : List Step) : run fs (steps ++ steps') = run (run fs steps) steps' :=
  List.foldl_append

theorem Orderly.traced (orderly : Orderly hints steps) : Traced hints steps (run hints.start steps) := by
  induction steps using List.reverseRecOn with
  | nil => exact .start
  | append_singleton steps step ih =>
      rw [run_append]
      exact (ih orderly.of_append).perform orderly

/-- A walk goes on finding out what its steps offer and keeping what is known. -/
theorem Orderly.settled?_run (orderly : Orderly hints (before ++ [step])) (v : Variable) :
    (run hints.start (before ++ [step])).settled? v =
      ((run hints.start before).settled? v).or (step.offer? before v) := by
  have traced := orderly.of_append.traced
  rw [run_append]
  exact traced.settled?_perform (orderly.under step (by simp)) (traced.fresh orderly) v

theorem Orderly.keeps {between : List Step} (orderly : Orderly hints (before ++ between)) :
    (run hints.start before).Keeps (run hints.start (before ++ between)) := by
  induction between using List.reverseRecOn with
  | nil => intro v s known; rwa [List.append_nil]
  | append_singleton between step ih =>
      rw [← List.append_assoc] at orderly ⊢
      intro v s known
      rw [orderly.settled?_run, ih orderly.of_append v s known, Option.some_or]

/-- The first sigil that steps offer to a variable, behind the steps before them. -/
def firstOffer? (v : Variable) (before : List Step) : List Step → Option Sigil
  | [] => none
  | step :: rest => (step.offer? before v).or (firstOffer? v (before ++ [step]) rest)

theorem firstOffer?_append (v : Variable) (before steps steps' : List Step) : firstOffer? v before (steps ++ steps') =
    (firstOffer? v before steps).or (firstOffer? v (before ++ steps) steps') := by
  induction steps generalizing before with
  | nil => rw [List.append_nil, firstOffer?, Option.none_or, List.nil_append]
  | cons step steps ih =>
      rw [List.cons_append, firstOffer?, firstOffer?, ih, List.append_assoc, List.singleton_append, Option.or_assoc]

/-- A walk finds out about a variable what is known at first or else is offered first. -/
theorem Orderly.settled?_eq (orderly : Orderly hints steps) (v : Variable) :
    (run hints.start steps).settled? v = (hints.start.settled? v).or (firstOffer? v [] steps) := by
  induction steps using List.reverseRecOn with
  | nil => rw [firstOffer?, Option.or_none]; rfl
  | append_singleton steps step ih =>
      rw [orderly.settled?_run, ih orderly.of_append, firstOffer?_append, firstOffer?, firstOffer?, List.nil_append,
        Option.or_none, Option.or_assoc]

end Infer

open Infer (Context Step)

/-! ## Programs -/

/-- A routine by its symbol, and the names of its parameters, the receiver among them. -/
structure Signature where
  /-- The symbol of the routine. -/
  symbol : String
  /-- The names of its parameters. -/
  names : List String
  deriving DecidableEq

namespace Signature

/-- The signature of a routine with or without a receiver. -/
def of (symbol : String) (hasThis : Bool) (params : List Param) : Signature :=
  ⟨symbol, (if hasThis then ["this"] else []) ++ params.map Param.name⟩

/-- The parameters as variables. -/
def params (r : Signature) : List Infer.Variable := r.names.map (.param r.symbol)

end Signature

namespace Stmt

/-- The signature of an item that is a function. -/
def funcSignatures : Stmt → List Signature
  | .func f => [.of (SymbolName.func f.name) false f.params]
  | _ => []

/-- The signatures of the methods and constructors of an item. -/
def memberSignatures : Stmt → List Signature
  | .class_ c => c.methods.map (fun m => .of (Check.methodSymbol c.name m) (!m.isStatic) m.params) ++
      c.ctors.map fun k => .of (SymbolName.ctor c.name k.params.length) true k.params
  | _ => []

/-- The symbols of the static fields of an item. -/
def staticSymbols : Stmt → List String
  | .class_ c => (c.fields.filter Field.isStatic).map fun f => SymbolName.staticField c.name f.name
  | _ => []

/-- What is read off functions and classes only, and not off records in them, is the same without records. -/
theorem read_erase {β : Type} {f : Stmt → List β} (plain : ∀ s : Stmt, ¬s.isDecl = true → f s = [])
    (funcs : ∀ d : FuncDecl, f (.func d.erase) = f (.func d))
    (classes : ∀ c : ClassDecl, f (.class_ c.erase) = f (.class_ c)) (s : Stmt) : f s.erase = f s := by
  by_cases isDecl : s.isDecl
  · cases s with
    | func d => rw [erase_func, funcs]
    | class_ c => rw [erase_class, classes]
    | _ => cases isDecl
  · rw [plain s isDecl, plain s.erase (by rwa [isDecl_erase])]

theorem funcSignatures_erase : ∀ s : Stmt, s.erase.funcSignatures = s.funcSignatures := by
  apply read_erase
  case plain => intro s plain; cases s <;> first | rfl | exact absurd rfl plain
  case funcs => intro d; rfl
  case classes => intro c; rfl

theorem memberSignatures_erase : ∀ s : Stmt, s.erase.memberSignatures = s.memberSignatures := by
  apply read_erase
  case plain => intro s plain; cases s <;> first | rfl | exact absurd rfl plain
  case funcs => intro d; rfl
  case classes =>
    intro c
    simp only [memberSignatures, ClassDecl.erase, List.map_map]
    rfl

theorem staticSymbols_erase : ∀ s : Stmt, s.erase.staticSymbols = s.staticSymbols := by
  apply read_erase
  case plain => intro s plain; cases s <;> first | rfl | exact absurd rfl plain
  case funcs => intro d; rfl
  case classes =>
    intro c
    simp only [staticSymbols, ClassDecl.erase, List.filter_map, List.map_map]
    rfl

end Stmt

/-! ### What the steps of a program settle -/

section Targets

variable {ctx : Context} {hints : Hints}

theorem Infer.Composed.targets {steps : List Step} (composed : Infer.Composed ctx steps) :
    steps.filterMap Step.target? = [] := by
  induction composed with
  | nil | declare | assign => rfl
  | value e => exact List.filterMap_eq_nil_iff.mpr (List.forall_mem_map.mpr fun _ _ => rfl)
  | append _ _ first second => rw [List.filterMap_append, first, second, List.append_nil]

theorem Infer.Composed.under {steps : List Step} (composed : Infer.Composed ctx steps) (same : ctx.hints = hints) :
    ∀ step ∈ steps, step.Under hints := by
  induction composed with
  | nil => exact List.forall_mem_nil _
  | value e => exact List.forall_mem_map.mpr fun _ _ => trivial
  | declare => exact List.forall_mem_singleton.mpr same
  | assign => exact List.forall_mem_singleton.mpr trivial
  | append _ _ first second => exact List.forall_mem_append.mpr ⟨first, second⟩

theorem Infer.Built.under {steps : List Step} (built : Infer.Built hints steps) :
    ∀ step ∈ steps, step.Under hints := by
  induction built with
  | nil => exact List.forall_mem_nil _
  | enter | settleStatic | settleParam => exact List.forall_mem_singleton.mpr trivial
  | composed ctx same composed => exact composed.under same
  | append _ _ first second => exact List.forall_mem_append.mpr ⟨first, second⟩

theorem map_fst_paramSigils (ss : List Sigil) (ps : List Param) :
    (Infer.paramSigils ss ps).map Prod.fst = ps.map Param.name := by
  induction ps generalizing ss with
  | nil => cases ss <;> rfl
  | cons p ps ih => cases ss <;> exact congrArg (p.name :: ·) (ih _)

theorem targets_routine (hasThis : Bool) (params : List Param) (body : Stmt) :
    (Infer.routineSteps ctx hasThis params body).filterMap Step.target? =
      (Signature.of ctx.routine hasThis params).params := by
  have names : (Infer.ownSigils ctx hasThis params).map Prod.fst = (Signature.of ctx.routine hasThis params).names := by
    cases hasThis <;> simp [Infer.ownSigils, map_fst_paramSigils, Signature.of]
  rw [Signature.params, ← names, Infer.routineSteps, List.filterMap_append, body.composed.targets,
    List.append_nil, List.filterMap_cons_none rfl, List.filterMap_map, List.map_map]
  exact congrFun List.filterMap_eq_map _

theorem targets_fields (ctx : Context) (s : Stmt) :
    (s.fieldSteps ctx).filterMap Step.target? = s.staticSymbols.map .static := by
  cases s with
  | class_ c =>
      rw [Stmt.fieldSteps, Stmt.staticSymbols, List.filterMap_flatMap, List.map_map]
      induction c.fields with
      | nil => rfl
      | cons f fs ih =>
          rw [List.flatMap_cons, ih, Field.steps, List.filterMap_append, (Expr.composed_option _).targets]
          cases isStatic : f.isStatic <;> simp [isStatic, Step.target?]
  | _ => rfl

theorem targets_top (ctx : Context) (s : Stmt) : (s.topSteps ctx).filterMap Step.target? = [] := by
  unfold Stmt.topSteps
  split
  · rfl
  · exact s.composed.targets

theorem targets_func (ctx : Context) (s : Stmt) :
    (s.funcSteps ctx).filterMap Step.target? = s.funcSignatures.flatMap Signature.params := by
  cases s with
  | func f => rw [Stmt.funcSteps, targets_routine, Stmt.funcSignatures, List.flatMap_singleton]
  | _ => rfl

theorem targets_members (ctx : Context) (s : Stmt) :
    (s.memberSteps ctx).filterMap Step.target? = s.memberSignatures.flatMap Signature.params := by
  cases s with
  | class_ c =>
      simp only [Stmt.memberSteps, Stmt.memberSignatures, List.filterMap_append, List.filterMap_flatMap,
        List.flatMap_append, List.flatMap_map, Method.steps, Ctor.steps, targets_routine]
  | _ => rfl

end Targets

namespace Program

/-- The routines of a program, functions first. -/
def signatures (p : Program) : List Signature :=
  p.items.flatMap Stmt.funcSignatures ++ p.items.flatMap Stmt.memberSignatures

/-- The symbols of static fields, functions, methods and constructors of a program. -/
def symbols (p : Program) : List String :=
  p.items.flatMap Stmt.staticSymbols ++ p.signatures.map Signature.symbol

theorem flatMap_infer {β : Type} {f : Stmt → List β} (erased : ∀ s : Stmt, f s.erase = f s) (p : Program)
    (hints : Hints) : (p.infer hints).program.items.flatMap f = p.items.flatMap f := by
  have same := congrArg (List.flatMap f) (p.erase_infer hints)
  simpa only [eraseStmts_eq, List.flatMap_map, erased] using same

theorem targets_walk (p : Program) (hints : Hints) : (p.walk hints).filterMap Step.target? =
    (p.items.flatMap Stmt.staticSymbols).map .static ++ p.signatures.flatMap Signature.params := by
  rw [walk, itemsSteps, List.filterMap_cons_none rfl]
  simp only [List.filterMap_append, List.filterMap_flatMap, targets_fields, targets_top, targets_func, targets_members]
  rw [← p.flatMap_infer Stmt.staticSymbols_erase hints, signatures, ← p.flatMap_infer Stmt.funcSignatures_erase hints,
    ← p.flatMap_infer Stmt.memberSignatures_erase hints]
  simp [List.map_flatMap, List.flatMap_assoc]

/-- The steps of inference settle each parameter and static field once, if symbols and the names of parameters are
    unique. -/
theorem orderly_walk {p : Program} (symbols : p.symbols.Nodup) (names : ∀ r ∈ p.signatures, r.names.Nodup)
    (hints : Hints) : Infer.Orderly hints (p.walk hints) where
  under := (itemsBuilt (p.outside hints) (p.infer hints).program.items).under
  once := by
    obtain ⟨statics, routines, -⟩ := List.nodup_append.mp symbols
    rw [targets_walk, List.nodup_append]
    refine ⟨statics.map fun a b eq => Infer.Variable.static.inj eq, ?_, ?_⟩
    · refine List.nodup_flatMap.mpr ⟨fun r mem => (names r mem).map fun a b eq => (Infer.Variable.param.inj eq).2, ?_⟩
      refine (List.pairwise_map.mp routines).imp fun {r r'} apart v mem mem' => ?_
      obtain ⟨x, -, rfl⟩ := List.mem_map.mp mem
      obtain ⟨x', -, eq⟩ := List.mem_map.mp mem'
      exact apart (Infer.Variable.param.inj eq).1.symm
    · rintro v mem w mem' rfl
      obtain ⟨symbol, -, rfl⟩ := List.mem_map.mp mem
      obtain ⟨r, -, own⟩ := List.mem_flatMap.mp mem'
      obtain ⟨x, -, eq⟩ := List.mem_map.mp own
      cases eq

theorem mem_names {p : Program} {hints : Hints} (symbols : p.symbols.Nodup) {r : Signature} (known : r ∈ p.signatures)
    {x : String} (mem : .param r.symbol x ∈ (p.walk hints).filterMap Step.target?) : x ∈ r.names := by
  rw [targets_walk, List.mem_append] at mem
  rcases mem with mem | mem
  · obtain ⟨symbol, -, eq⟩ := List.mem_map.mp mem
    cases eq
  · obtain ⟨r', known', own⟩ := List.mem_flatMap.mp mem
    obtain ⟨x', mem', eq⟩ := List.mem_map.mp own
    obtain ⟨same, rfl⟩ := Infer.Variable.param.inj eq
    have unique := List.inj_on_of_nodup_map (List.nodup_append.mp symbols).2.1
    rwa [← unique known' known same]

/-- Where symbols and the names of parameters are unique, the sigil of a variable never changes once it is settled.
    So a local has the sigil that is offered to it first, by a declaration with a type or value or by an assignment
    behind a declaration without, and a global its declared type or else what is offered to it first. -/
theorem sigils_settle_once (p : Program) (hints : Hints) (symbols : p.symbols.Nodup)
    (names : ∀ r ∈ p.signatures, r.names.Nodup) :
    Infer.Walks hints.start (p.walk hints) (p.infer hints).facts ∧
    (∀ before between after, p.walk hints = before ++ between ++ after →
      (Infer.run hints.start before).Keeps (Infer.run hints.start (before ++ between))) ∧
    (∀ r ∈ p.signatures, ∀ x ∉ r.names, (p.infer hints).facts.var r.symbol x =
      (Infer.firstOffer? (.local_ r.symbol x) [] (p.walk hints)).getD ((p.infer hints).facts.globalVar x)) ∧
    ∀ x, (p.infer hints).facts.globalVar x =
      ((hints.globalTypes.get? x).or (Infer.firstOffer? (.global x) [] (p.walk hints))).getD .int := by
  have orderly := orderly_walk symbols names hints
  have walks := p.walks_infer hints
  have settled (v : Infer.Variable) : (p.infer hints).facts.settled? v =
      (hints.start.settled? v).or (Infer.firstOffer? v [] (p.walk hints)) := by
    rw [← walks.run_eq]
    exact orderly.settled?_eq v
  refine ⟨walks, ?keeps, ?locals, ?globals⟩
  case keeps =>
    intro before between after split
    rw [split] at orderly
    exact orderly.of_append.keeps
  case locals =>
    intro r known x other
    have noParam : ((p.infer hints).facts.frame r.symbol).params.get? x = none := by
      by_contra isParam
      rw [← walks.run_eq] at isParam
      exact other (mem_names symbols known (orderly.traced.fixed (.param r.symbol x) rfl isParam))
    have ofLocal : ((p.infer hints).facts.frame r.symbol).locals.get? x =
        Infer.firstOffer? (.local_ r.symbol x) [] (p.walk hints) := settled (.local_ r.symbol x)
    rw [Infer.Facts.var, noParam, ofLocal, Option.none_or, Option.getD_or]
    rfl
  case globals =>
    intro x
    rw [Infer.Facts.globalVar]
    exact congrArg (·.getD .int) (settled (.global x))

/-- Members of a class; a global without a type and one with a type; and a function with locals of all kinds, one of
    them declared again with another type. -/
def settling : String :=
  "class C \x7b static var s = 1; func m(a) \x7b\x7d \x7d var g; g = \"u\"; var h: string = g; func f(a) \x7b " ++
    "var x; x = \"v\"; \x7b var y = x; \x7d \x7b var y = a; \x7d try \x7b throw 1; \x7d catch (e) \x7b\x7d \x7d"

theorem sigils_settle_once_settling : ∃ p p' hints, accept? 0 settling = some (p, p', hints) ∧
    p'.symbols.Nodup ∧ (∀ r ∈ p'.signatures, r.names.Nodup) ∧
    let facts := (p'.infer hints).facts
    facts.var "fn_f" "x" = .str ∧ facts.var "fn_f" "y" = .str ∧ facts.var "fn_f" "e" = .object "" ∧
    facts.globalVar "g" = .str ∧ facts.globalVar "h" = .str := by
  let first (r : Program × Program × Hints) (v : Infer.Variable) := Infer.firstOffer? v [] (r.2.1.walk r.2.2)
  have computed : (accept? 0 settling).any fun r =>
      r.2.1.symbols.Nodup ∧ (∀ s ∈ r.2.1.signatures, s.names.Nodup) ∧ ⟨"fn_f", ["a"]⟩ ∈ r.2.1.signatures ∧
        first r (.local_ "fn_f" "x") = some .str ∧ first r (.local_ "fn_f" "y") = some .str ∧
        first r (.local_ "fn_f" "e") = some (.object "") ∧ first r (.global "g") = some .str ∧
        r.2.2.globalTypes.get? "g" = none ∧ r.2.2.globalTypes.get? "h" = some .str := by
    rewrite [show Program.accept? 0 settling = _ from Program.accept?_append 0 _ _]
    decide +kernel
  obtain ⟨⟨p, p', hints⟩, accepted, computed⟩ := (Option.any_eq_true _ _).mp computed
  simp only [decide_eq_true_eq] at computed
  obtain ⟨symbols, names, f, x, y, e, g, open_, hinted⟩ := computed
  obtain ⟨-, -, locals, globals⟩ := p'.sigils_settle_once hints symbols names
  have local_ {name : String} {s : Sigil} (other : name ∉ ["a"])
      (offered : Infer.firstOffer? (.local_ "fn_f" name) [] (p'.walk hints) = some s) :
      (p'.infer hints).facts.var "fn_f" name = s := by
    rw [locals _ f name other, offered, Option.getD_some]
  refine ⟨p, p', hints, accepted, symbols, names, local_ (by simp) x, local_ (by simp) y, local_ (by simp) e, ?_⟩
  constructor
  · rw [globals, open_, Option.none_or, show Infer.firstOffer? _ _ _ = _ from g, Option.getD_some]
  · rw [globals, hinted, Option.some_or, Option.getD_some]

end Program

end Lantern
