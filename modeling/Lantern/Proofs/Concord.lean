import Lantern.Proofs.Ending
import Lantern.Proofs.Remarks
import Lantern.Proofs.Rounds

/-!
# The checker and inference agree

Where each variable and parameter of a checked program is declared once and with a type, the type that the checker
finds for an expression is the sigil that inference records for it, unless the type is a guess.
-/

namespace Lantern

theorem Checked.of_run_bind {α β : Type} {x : Checked α} {f : α → Checked β} {log log' : Array Diagnostic} {b : β}
    (run : StateT.run (ExceptT.run (x >>= f)) log = (.ok b, log')) :
    ∃ a log₁, StateT.run (ExceptT.run x) log = (.ok a, log₁) ∧ StateT.run (ExceptT.run (f a)) log₁ = (.ok b, log') := by
  rw [Checked.run_bind] at run
  cases first : StateT.run (ExceptT.run x) log with
  | mk r log₁ =>
      rw [first] at run
      cases r with
      | ok a => exact ⟨a, log₁, rfl, run⟩
      | error d => cases run

namespace Program

/-- The declarations of a checked program are gathered, and its items are checked with them. -/
theorem of_check {p p' : Program} {hints : Hints} (checked : p.check.outcome.1 = some (p', hints)) :
    ∃ d st, (Check.gather Check.Declarations.empty p.items).outcome.1 = some d ∧
      Check.Yields (Check.items d p.items) ⟨[[]], d.hints⟩ p'.items st ∧ st.hints = hints := by
  unfold Checked.outcome at checked
  split at checked
  · next r log run =>
      obtain rfl := Option.some.inj checked
      obtain ⟨d, log₁, gathered, run⟩ := Checked.of_run_bind run
      obtain ⟨_, log₂, -, run⟩ := Checked.of_run_bind run
      obtain ⟨⟨xs, st⟩, log₃, done, run⟩ := Checked.of_run_bind run
      cases run
      refine ⟨d, st, ?_, ⟨log₂, _, done⟩, rfl⟩
      rw [Checked.outcome, gathered]
  · cases checked

/-! ## Explicit programs -/

/-- The variables of top-level statements. -/
def topVariables (p : Program) : Assoc (Option Sigil) := declarationsOf (p.items.filter (!·.isDecl))

end Program

instance (vs : Assoc (Option Sigil)) : Decidable (Check.Explicit vs) :=
  decidable_of_iff (vs.names.Nodup ∧ ∀ v ∈ vs, v.2.isSome)
    ⟨fun ⟨distinct, typed⟩ => ⟨distinct, typed⟩, fun ⟨distinct, typed⟩ => ⟨distinct, typed⟩⟩

/-- The variables of each routine of an item, its parameters first. -/
def Stmt.routineVariables : Stmt → List (Assoc (Option Sigil))
  | .func f => [Check.variablesOf f.params ++ f.body.declarations]
  | .class_ c => c.methods.map (fun m => Check.variablesOf m.params ++ m.body.declarations) ++
      c.ctors.map fun k => Check.variablesOf k.params ++ k.body.declarations
  | _ => []

/-- Every variable and parameter is declared once and with a type: those of the top-level statements, which are all
    globals that there are, and those of each routine, none of which is named like a global or a class. -/
structure Program.Explicit (p : Program) (hints : Hints) : Prop where
  declared : ∀ x ∈ hints.globals, x ∈ p.topVariables.names
  globals : Check.Explicit p.topVariables
  locals : ∀ vs ∈ p.items.flatMap Stmt.routineVariables, Check.Explicit vs
  apart : ∀ vs ∈ p.items.flatMap Stmt.routineVariables, ∀ v ∈ vs,
    v.1 ∉ p.topVariables.names ∧ ClassTable.has (classesOf p.items) v.1 = false

instance (p : Program) (hints : Hints) : Decidable (p.Explicit hints) :=
  decidable_of_iff ((∀ x ∈ hints.globals, x ∈ p.topVariables.names) ∧ Check.Explicit p.topVariables ∧
      (∀ vs ∈ p.items.flatMap Stmt.routineVariables, Check.Explicit vs) ∧
      ∀ vs ∈ p.items.flatMap Stmt.routineVariables, ∀ v ∈ vs,
        v.1 ∉ p.topVariables.names ∧ ClassTable.has (classesOf p.items) v.1 = false)
    ⟨fun ⟨declared, globals, locals, apart⟩ => ⟨declared, globals, locals, apart⟩,
      fun ⟨declared, globals, locals, apart⟩ => ⟨declared, globals, locals, apart⟩⟩

namespace Check

variable {hints : Hints} {ctx : Context} {ctx' : Infer.Context}

/-! ## Places -/

theorem paramSigils_eq (params : List Param) : Infer.paramSigils (paramSigils params) params =
    params.map fun p => (p.name, p.type.getD .int) := by
  induction params with
  | nil => rfl
  | cons p ps ih => exact congrArg ((p.name, p.type.getD .int) :: ·) ih

/-- Inference takes the parameters of a routine to be what they are declared as. -/
theorem ownSigils_eq {hasThis : Bool} {params : List Param} (declared : ctx'.hints.params.get? ctx'.routine =
      some ((if hasThis then [Sigil.object ctx'.cls] else []) ++ paramSigils params)) :
    Infer.ownSigils ctx' hasThis params = (if hasThis then [("this", Sigil.object ctx'.cls)] else []) ++
      params.map fun p => (p.name, p.type.getD .int) := by
  rw [Infer.ownSigils, declared, ← paramSigils_eq]
  cases hasThis <;> rfl

/-- The symbols of routines that are not the main one begin with a letter of their own. -/
structure Inner (symbol : String) : Prop where
  nonempty : symbol.isEmpty = false
  other : symbol ≠ SymbolName.mainRoutine

theorem inner_of_head {symbol : String} (head : symbol.toList.head? = some 'f' ∨ symbol.toList.head? = some '_') :
    Inner symbol where
  nonempty := by
    rw [Bool.eq_false_iff]
    intro empty
    obtain rfl : symbol = "" := by simpa using empty
    simp at head
  other := by
    rintro rfl
    simp [SymbolName.mainRoutine] at head

theorem inner_func (name : String) : Inner (SymbolName.func name) :=
  inner_of_head (.inl (by simp [SymbolName.func]))

theorem inner_ctor (cls : String) (arity : Int) : Inner (SymbolName.ctor cls arity) :=
  inner_of_head (.inr (by simp [SymbolName.ctor]))

theorem inner_methodSymbol (cls : String) (m : Method) : Inner (methodSymbol cls m) := by
  apply inner_of_head
  right
  unfold methodSymbol
  split <;> simp [SymbolName.method, SymbolName.staticMethod]

theorem inner_of_mem {p : Program} {symbol : String} (mem : symbol ∈ p.signatures.map Signature.symbol) :
    Inner symbol := by
  rw [Program.symbols_signatures] at mem
  rcases List.mem_append.mp mem with mem | mem
  · obtain ⟨f, -, rfl⟩ := List.mem_map.mp mem
    exact inner_func f.name
  · obtain ⟨c, -, mem⟩ := List.mem_flatMap.mp mem
    rcases List.mem_append.mp mem with mem | mem
    · obtain ⟨m, -, rfl⟩ := List.mem_map.mp mem
      exact inner_methodSymbol c.name m
    · obtain ⟨k, -, rfl⟩ := List.mem_map.mp mem
      exact inner_ctor c.name k.params.length

theorem mem_funcsOf {items : List Stmt} {f : FuncDecl} : f ∈ funcsOf items ↔ .func f ∈ items := by
  simp only [funcsOf, List.mem_filterMap]
  constructor
  · rintro ⟨s, mem, eq⟩
    cases s with
    | func g => cases eq; exact mem
    | _ => cases eq
  · exact fun mem => ⟨_, mem, rfl⟩

/-- What the checker and inference know about a program wherever they stand in it. -/
structure Surveyed (p : Program) (hints : Hints) (classes : ClassTable) : Prop where
  proper : properAll p.items
  prototypes : ∀ r ∈ p.items.flatMap Stmt.prototypes,
    hints.params.get? r.symbol = some r.params ∧ hints.results.get? r.symbol = r.result
  same : classes.map ClassDecl.erase = (classesOf p.items).map ClassDecl.erase

namespace Surveyed

variable {p : Program} {classes : ClassTable}

/-- Both stand in the same place if they stand in the same class. -/
theorem toMatches (surveyed : Surveyed p hints classes) (funcs : ctx.funcs = funcsOf p.items)
    (classes_ : ctx.classes = classesOf p.items) (given : ctx'.hints = hints) (table : ctx'.classes = classes)
    (cls : ctx'.cls = ctx.cls) : ctx.Matches ctx' where
  cls := cls
  base := by
    have bases (t : ClassTable) : (t.get? ctx.cls).map ClassDecl.base =
        (ClassTable.get? (t.map ClassDecl.erase) ctx.cls).map ClassDecl.base := by
      rw [ClassTable.get?_erase, Option.map_map]
      rfl
    rw [Infer.baseOf, Context.base, table, cls, classes_, bases classes, surveyed.same, ← bases]
  classes name known := by
    rw [classes_] at known
    rwa [table, ← ClassTable.has_erase, surveyed.same, ClassTable.has_erase]
  results name f found := by
    rw [Context.func?, funcs] at found
    obtain rfl : f.name = name := by simpa using List.find?_some found
    have mem : Stmt.func f ∈ p.items := mem_funcsOf.mp (List.mem_of_find?_eq_some found)
    rw [given]
    exact (surveyed.prototypes _ (List.mem_flatMap.mpr ⟨_, mem, List.mem_singleton_self _⟩)).2

theorem fits (surveyed : Surveyed p hints classes) (explicit : p.Explicit hints) (result : Option Sigil)
    {hasThis : Bool} {params : List Param} {body : Stmt} (funcs : ctx.funcs = funcsOf p.items)
    (classes_ : ctx.classes = classesOf p.items) (given : ctx'.hints = hints) (table : ctx'.classes = classes) (cls : ctx'.cls = ctx.cls)
    (inner : Inner ctx'.routine) (routine : ctx.routine = ctx'.routine)
    (receiver : ctx.receiver = if hasThis then [("this", some (Sigil.object ctx'.cls))] else [])
    (prototype : ⟨ctx'.routine, (if hasThis then [Sigil.object ctx'.cls] else []) ++ paramSigils params, result⟩ ∈
      p.items.flatMap Stmt.prototypes)
    (named : ∀ p ∈ params, Identifier p.name) (proper : body.Proper)
    (mem : variablesOf params ++ body.declarations ∈ p.items.flatMap Stmt.routineVariables) :
    Fits hints ctx ctx' hasThis params body where
  toMatches := surveyed.toMatches funcs classes_ given table cls
  given := given
  outside := by simp [routine, inner.nonempty, inner.other]
  inside := inner.other
  own := by
    rw [ownSigils_eq (given ▸ (surveyed.prototypes _ prototype).1), receiver, List.map_append, variablesOf,
      List.map_map]
    cases hasThis <;> rfl
  named := named
  proper := proper
  explicit := explicit.locals _ mem
  apart v inside := by
    obtain ⟨other, noClass⟩ := explicit.apart _ mem v inside
    exact ⟨fun isGlobal => other (explicit.declared _ isGlobal), classes_ ▸ noClass⟩

variable {d : Declarations} (funcs : d.funcs = funcsOf p.items) (classes_ : d.classes = classesOf p.items)

include funcs classes_

theorem fitsFunc (surveyed : Surveyed p hints classes) (explicit : p.Explicit hints) {f : FuncDecl}
    (mem : f ∈ funcsOf p.items) : FitsFunc hints (.outside d) (.outside hints classes) f := by
  rw [mem_funcsOf] at mem
  obtain ⟨-, named, proper⟩ := Stmt.proper_func.mp (properAll_iff.mp surveyed.proper _ mem)
  apply surveyed.fits explicit f.result funcs classes_ rfl rfl rfl (inner_func f.name) rfl rfl
  case prototype => exact List.mem_flatMap.mpr ⟨_, mem, List.mem_singleton_self _⟩
  case named => exact named
  case proper => exact proper
  case mem => exact List.mem_flatMap.mpr ⟨_, mem, List.mem_singleton_self _⟩

theorem fitsClass (surveyed : Surveyed p hints classes) (explicit : p.Explicit hints) {c : ClassDecl}
    (mem : c ∈ classesOf p.items) : FitsClass hints (.outside d) (.outside hints classes) c := by
  rw [mem_classesOf] at mem
  obtain ⟨name, -, methods, ctors⟩ := Stmt.proper_class.mp (properAll_iff.mp surveyed.proper _ mem)
  have inside : c.name.isEmpty = false := by
    rw [Bool.eq_false_iff]
    exact fun empty => name.nonempty (by simpa using empty)
  constructor
  case toStands => exact ⟨surveyed.toMatches funcs classes_ rfl rfl rfl, rfl, fun _ => rfl, fun _ => rfl⟩
  case methods =>
    intro m own
    obtain ⟨-, named, proper⟩ := properMethods_iff.mp methods m own
    apply surveyed.fits explicit m.result funcs classes_ rfl rfl rfl (inner_methodSymbol c.name m) rfl
    case receiver =>
      show (if c.name.isEmpty || m.isStatic then [] else _) = _
      rw [inside]
      cases m.isStatic <;> rfl
    case prototype =>
      refine List.mem_flatMap.mpr ⟨_, mem, List.mem_append_left _ (List.mem_map.mpr ⟨m, own, ?_⟩)⟩
      cases m.isStatic <;> rfl
    case named => exact named
    case proper => exact proper
    case mem => exact List.mem_flatMap.mpr ⟨_, mem, List.mem_append_left _ (List.mem_map_of_mem own)⟩
  case ctors =>
    intro k own
    obtain ⟨named, proper⟩ := properCtors_iff.mp ctors k own
    apply surveyed.fits explicit none funcs classes_ rfl rfl rfl (inner_ctor c.name k.params.length) rfl
    case receiver =>
      show (if c.name.isEmpty || false then [] else _) = _
      rw [inside]
      rfl
    case prototype =>
      exact List.mem_flatMap.mpr ⟨_, mem, List.mem_append_right _ (List.mem_map_of_mem own)⟩
    case named => exact named
    case proper => exact proper
    case mem => exact List.mem_flatMap.mpr ⟨_, mem, List.mem_append_right _ (List.mem_map_of_mem own)⟩

end Surveyed

end Check

namespace Program

open Check

variable {p p' : Program} {hints : Hints}

theorem askedInDecls_eq {ctx : Context} {st : State} {xs : List Stmt} (about : State → Stmt → List (Option Question))
    (steady : ∀ s ∈ xs, after (decl ctx s) st = st) : askedInDecls about ctx st xs = xs.flatMap (about st) := by
  induction xs with
  | nil => rfl
  | cons s xs ih =>
      obtain ⟨own, others⟩ := List.forall_mem_cons.mp steady
      rw [askedInDecls, own, ih others, List.flatMap_cons]

theorem flatMap_funcsOf {β : Type} {f : Stmt → List β} (g : FuncDecl → List β) (funcs : ∀ d, f (.func d) = g d)
    (others : ∀ s, funcsOf [s] = [] → f s = []) (xs : List Stmt) : xs.flatMap f = (funcsOf xs).flatMap g := by
  induction xs with
  | nil => rfl
  | cons s xs ih =>
      rw [List.flatMap_cons, ih]
      cases s with
      | func d => rw [funcs]; rfl
      | _ => rw [others _ rfl]; rfl

theorem flatMap_classesOf {β : Type} {f : Stmt → List β} (g : ClassDecl → List β) (classes : ∀ d, f (.class_ d) = g d)
    (others : ∀ s, classesOf [s] = [] → f s = []) (xs : List Stmt) : xs.flatMap f = (classesOf xs).flatMap g := by
  induction xs with
  | nil => rfl
  | cons s xs ih =>
      rw [List.flatMap_cons, ih]
      cases s with
      | class_ d => rw [classes]; rfl
      | _ => rw [others _ rfl]; rfl

/-- The globals of an explicit program are gathered with their types, and are all that there are. -/
structure Begun (p : Program) (d : Declarations) (hints : Hints) (st : State) : Prop where
  funcs : d.funcs = funcsOf p.items
  classes : d.classes = classesOf p.items
  explicit : p.Explicit hints
  atTop : AtTop hints d.classes st
  types : ∀ v ∈ p.topVariables, hints.globalTypes.get? v.1 = v.2
  apart : ∀ v ∈ p.topVariables, d.classes.has v.1 = false

namespace Begun

variable {d : Declarations} {begun behind last : State} {xs : List Stmt} {classes : ClassTable} {fs : Infer.Facts}
  {symbols : List String}

theorem follows (start : Begun p d hints begun) (surveyed : Surveyed p hints classes)
    (top : Yields (stmts (.outside d) true false p.items) begun xs behind)
    (bound : behind.hints.globals ⊆ hints.globals) (clear : Clear hints (SymbolName.mainRoutine :: symbols) fs) :
    let r := (Infer.stmts (.outside hints classes) (xs.filter (!·.isDecl))).run fs
    Follows hints d.classes (.outside hints classes) p.topVariables begun fs
      (askedOf (.outside d) begun p.items) (recorded (stmtsSteps (.outside hints classes) r.1)) behind r.2 := by
  have stands : Context.Stands hints (.outside d) (.outside hints classes) :=
    ⟨surveyed.toMatches start.funcs start.classes rfl rfl rfl, rfl, fun _ => rfl, fun _ => rfl⟩
  have knows := start.atTop.knows clear List.mem_cons_self (show (Infer.Context.outside hints classes).hints = hints from rfl)
  apply follows_top surveyed.proper stands top knows bound
  constructor
  case distinct => exact start.explicit.globals.distinct
  case typed => exact start.explicit.globals.typed
  case apart => exact start.apart
  case gathered => exact fun _ => start.types
  case fresh => exact fun inside => absurd rfl inside

/-- Behind the top-level statements the checker has found out nothing new. -/
theorem behind_top (start : Begun p d hints begun) (surveyed : Surveyed p hints classes)
    (top : Yields (stmts (.outside d) true false p.items) begun xs behind)
    (bound : behind.hints.globals ⊆ hints.globals) : AtTop hints d.classes behind :=
  (start.follows surveyed top bound (.start hints [SymbolName.mainRoutine])).knows.atTop rfl rfl start.atTop.types

theorem decls (start : Begun p d hints begun) (surveyed : Surveyed p hints classes)
    (symbols : (p.signatures.map Signature.symbol).Nodup)
    (top : Yields (stmts (.outside d) true false p.items) begun xs behind)
    (rest : Yields (Check.decls (.outside d) xs) behind p'.items last) (bound : last.hints.globals ⊆ hints.globals) :
    last = behind ∧ CheckedDecls (.outside d) behind xs p'.items := by
  obtain ⟨funcs, classes_⟩ := top.declared
  rw [symbols_signatures] at symbols
  have atTop := start.behind_top surveyed top (List.Subset.trans rest.grown bound)
  have fitsFunc (f : FuncDecl) (mem : f ∈ funcsOf xs) : FitsFunc hints (.outside d) (.outside hints classes) f :=
    surveyed.fitsFunc start.funcs start.classes start.explicit (funcs ▸ mem)
  have fitsClass (c : ClassDecl) (mem : c ∈ classesOf xs) :
      FitsClass hints (.outside d) (.outside hints classes) c ∧ c.routineSymbols.Nodup := by
    rw [classes_] at mem
    exact ⟨surveyed.fitsClass start.funcs start.classes start.explicit mem,
      (List.nodup_flatMap.mp (List.nodup_append.mp symbols).2.1).1 c mem⟩
  exact checkedDecls atTop fitsFunc fitsClass rest bound

/-- Behind the top-level statements declarations leave the state as it is. -/
theorem steady (top : Yields (stmts (.outside d) true false p.items) begun xs behind)
    (all : CheckedDecls (.outside d) behind xs p'.items) :
    ∀ s ∈ p.items, after (decl (.outside d) s) behind = behind := by
  intro s mem
  cases isDecl : s.isDecl with
  | true => exact all.steady s (((declarations_stmts _ _ _).of_yields top s isDecl).mpr mem)
  | false => cases s <;> first | rfl | cases isDecl

theorem answers (start : Begun p d hints begun) (surveyed : Surveyed p hints (ClassTable.ofItems p'.items))
    (symbols : (p.signatures.map Signature.symbol).Nodup)
    (top : Yields (stmts (.outside d) true false p.items) begun xs behind)
    (bound : behind.hints.globals ⊆ hints.globals) (all : CheckedDecls (.outside d) behind xs p'.items) :
    let ctx := Context.outside d
    List.Forall₂ Answers (askedInDecls (askedAsFields ctx) ctx behind p.items ++ askedOf ctx begun p.items ++
      askedInDecls (askedAsFunc ctx) ctx behind p.items ++ askedInDecls (askedAsMembers ctx) ctx behind p.items)
      (recorded (p'.walk hints)) := by
  intro ctx
  let ctx' := p'.outside hints
  let F := (funcsOf p.items).map fun f => SymbolName.func f.name
  let M := (classesOf p.items).flatMap ClassDecl.routineSymbols
  have distinct : (F ++ M).Nodup := p.symbols_signatures ▸ symbols
  have atTop := start.behind_top surveyed top bound
  obtain ⟨funcs, classes_⟩ := top.declared
  have fitsFunc (f : FuncDecl) (mem : f ∈ funcsOf p.items) : FitsFunc hints ctx ctx' f :=
    surveyed.fitsFunc start.funcs start.classes start.explicit mem
  have fitsClass (c : ClassDecl) (mem : c ∈ classesOf p.items) : FitsClass hints ctx ctx' c :=
    surveyed.fitsClass start.funcs start.classes start.explicit mem
  let fs := hints.start.setFrame SymbolName.mainRoutine Infer.Frame.empty
  let r₁ := (Infer.classFields ctx' p'.items).run fs
  let r₂ := (Infer.topLevel ctx' r₁.1).run r₁.2
  let r₃ := (Infer.funcs ctx' r₂.1).run r₂.2
  obtain ⟨funcs₁, others₁⟩ := kept_classFields ctx' p'.items fs
  obtain ⟨funcs₂, classes₂⟩ := kept_topLevel ctx' r₁.1 r₁.2
  have classes₃ := kept_funcs ctx' r₂.1 r₂.2
  have clear : Clear hints (SymbolName.mainRoutine :: (F ++ M)) fs := by
    refine ⟨rfl, fun r _ => ?_⟩
    rw [Infer.Facts.frame_setFrame]
    split <;> rfl
  have here : ctx'.routine ∈ SymbolName.mainRoutine :: (F ++ M) := List.mem_cons_self
  obtain ⟨fields_, members⟩ := follows_classFields atTop here clear fitsClass (classes_ ▸ all.classes)
  have top_ : Follows hints d.classes ctx' p.topVariables begun r₁.2 (askedOf ctx begun p.items)
      (recorded (r₂.1.flatMap (Stmt.topSteps ctx'))) behind r₂.2 := by
    obtain ⟨steps, facts⟩ := run_topLevel ctx' r₁.1 r₁.2
    rw [steps, facts, others₁, all.others]
    exact start.follows surveyed top bound fields_.clear
  have clear₂ : Clear hints (F ++ M) r₂.2 := by
    refine ⟨top_.knows.globals, fun r mem => ?_⟩
    have inner : Inner r := inner_of_mem (p.symbols_signatures ▸ mem)
    rw [top_.grows.others r inner.other]
    exact fields_.clear.frames r (List.mem_cons_of_mem _ mem)
  have bodies : List.Forall₂ (CheckedFunc ctx behind) (funcsOf p.items) (funcsOf r₂.1) := by
    rw [funcs₂, funcs₁, ← funcs]
    exact all.funcs
  have funcs_ := follows_funcs atTop distinct clear₂ fitsFunc bodies
  rw [← classes₂, ← classes₃] at members
  have members_ := follows_classRoutines atTop (List.nodup_append.mp distinct).2.1 funcs_.clear fitsClass members
  have steady := steady top all
  rw [recorded_walk, askedInDecls_eq _ steady, askedInDecls_eq _ steady, askedInDecls_eq _ steady]
  have fieldQuestions := flatMap_classesOf (f := askedAsFields ctx behind) _ (fun _ => rfl)
    (by intro s none; cases s <;> first | rfl | cases none) p.items
  have funcQuestions := flatMap_funcsOf (f := askedAsFunc ctx behind) _ (fun _ => rfl)
    (by intro s none; cases s <;> first | rfl | cases none) p.items
  have memberQuestions := flatMap_classesOf (f := askedAsMembers ctx behind) _ (fun _ => rfl)
    (by intro s none; cases s <;> first | rfl | cases none) p.items
  rw [fieldQuestions, funcQuestions, memberQuestions]
  exact List.rel_append (List.rel_append (List.rel_append fields_.answers top_.answers) funcs_.answers) members_

end Begun

/-- Where every variable and parameter of a checked program is declared once and with a type, inference answers every
    question of the checker: it records the type that the checker finds, unless that is a guess. -/
theorem types_agree {file : Nat} {source : String} (accepted : accept? file source = some (p, p', hints))
    (explicit : p.Explicit hints) : List.Forall₂ Answers p.questions (recorded (p'.walk hints)) := by
  obtain ⟨proper, checked⟩ := of_accept? accepted
  obtain ⟨d, last, gathered, yields, same⟩ := of_check checked
  obtain ⟨distinct, funcs, classes⟩ := (gives_gather Declarations.distinct_empty p.items).of_outcome gathered
  have classes : d.classes = classesOf p.items := classes
  have prototypes := (gives_hints_gather Declarations.empty p.items).of_outcome gathered
  have symbols := nodup_signatures proper distinct funcs classes
  have kept := p.erase_check.of_outcome checked
  unfold items at yields
  obtain ⟨_, begun, globals, yields⟩ := yields.of_bind
  obtain ⟨xs, behind, top, rest⟩ := yields.of_bind
  have nothing : Gathered d.hints [] ⟨[[]], d.hints⟩ := {
    held := ⟨[], rfl, fun _ => rfl⟩
    globals := fun x => by simp [prototypes, Declarations.empty, Hints.empty, Assoc.has]
    types := fun x => by simp [prototypes, Declarations.empty, Hints.empty, Assoc.get?]
    params := rfl
    results := rfl }
  obtain ⟨found, apart⟩ := gathers_stmts d.classes _ globals nothing explicit.globals.distinct explicit.globals.typed
  have found : Gathered d.hints p.topVariables begun := found
  have start : Begun p d begun.hints begun := {
    funcs := funcs
    classes := classes
    explicit := { explicit with declared := fun x mem => Assoc.has_iff_mem_names.mp ((found.globals x).mp mem) }
    atTop := found.atTop explicit.globals.typed apart
    types := fun v mem => by rw [found.types, Assoc.get?_of_mem explicit.globals.distinct mem]; rfl
    apart := apart }
  have surveyed : Surveyed p begun.hints (ClassTable.ofItems p'.items) := {
    proper := proper
    prototypes := fun r mem => by
      rw [found.params, found.results, prototypes]
      exact Hints.get?_addPrototypes (p.perm_prototypes.nodup_iff.mpr symbols) mem rfl
    same := by
      rw [← ClassTable.ofItems_erase, kept, ClassTable.ofItems_erase,
        ClassTable.ofItems_eq (classes ▸ distinct.classes)] }
  have bound : last.hints.globals ⊆ begun.hints.globals := by
    intro x mem
    rw [same] at mem
    exact (found.globals x).mpr (Assoc.has_iff_mem_names.mpr (explicit.declared x mem))
  obtain ⟨rfl, all⟩ := start.decls surveyed symbols top rest bound
  have begun_ : hints = begun.hints := same.symm.trans (start.behind_top surveyed top bound).found
  have := steady_gatherGlobalsOf (R := MoreGlobals) d.classes (p.items.filter (!·.isDecl))
  rw [questions, gathered, begun_]
  dsimp only
  rw [globals.moves, top.moves]
  exact start.answers surveyed symbols top bound all

/-- A class, globals, a function with a local, and expressions of all types. -/
def typed : String :=
  "class P \x7b var n: int = 1; func get(): int \x7b return this.n; \x7d \x7d var p: P = new P(); " ++
    "func f(x: int, y: string): string \x7b var z: string = y + \"d\"; return x < 2 ? y : z; \x7d " ++
    "print(f(p.get(), [\"a\"][0]));"

/-- The checker finds a type for each of its twenty expressions, and inference records that type. -/
theorem types_agree_typed : ∃ p p' hints, accept? 0 typed = some (p, p', hints) ∧ p.Explicit hints ∧
    List.Forall₂ Answers p.questions (recorded (p'.walk hints)) ∧
    (p.questions.filterMap fun q? => q?.bind fun q => type? q.ctx q.state q.value).length = 20 ∧
    (recorded (p'.walk hints)).map (·.info.sigil) =
      p.questions.map fun q? => q?.bind fun q => type? q.ctx q.state q.value := by
  have computed : (accept? 0 typed).any fun r => r.1.Explicit r.2.2 ∧
      (r.1.questions.filterMap fun q? => q?.bind fun q => type? q.ctx q.state q.value).length = 20 ∧
      (recorded (r.2.1.walk r.2.2)).map (·.info.sigil) =
        r.1.questions.map fun q? => q?.bind fun q => type? q.ctx q.state q.value := by
    rewrite [show accept? 0 typed = accept? 0 (String.ofList _ ++ String.ofList _ ++ String.ofList _) from rfl,
      ← String.ofList_append, accept?_append]
    decide +kernel
  obtain ⟨⟨p, p', hints⟩, accepted, computed⟩ := (Option.any_eq_true _ _).mp computed
  simp only [decide_eq_true_eq] at computed
  obtain ⟨explicit, types, records⟩ := computed
  exact ⟨p, p', hints, accepted, explicit, types_agree accepted explicit, types, records⟩

/-- A sum of a string whose type the checker does not know and one whose type it knows. -/
def guessing : String := "var s: string = str(1) + \"a\";"

/-- The checker guesses that the sum is an integer; inference records a string. -/
theorem types_guessed : ∃ p p' hints, accept? 0 guessing = some (p, p', hints) ∧ p.Explicit hints ∧
    ∃ q e, (some q, e) ∈ p.questions.zip (recorded (p'.walk hints)) ∧ e.span = q.value.span ∧
      q.value.joined.map (type? q.ctx q.state) = [none, some .str] ∧
      type? q.ctx q.state q.value = some .int ∧ e.info.sigil = some .str := by
  have computed : (accept? 0 guessing).any fun r => r.1.Explicit r.2.2 ∧
      (r.1.questions.zip (recorded (r.2.1.walk r.2.2))).any fun x => x.1.any fun q => x.2.span = q.value.span ∧
        q.value.joined.map (type? q.ctx q.state) = [none, some .str] ∧
        type? q.ctx q.state q.value = some .int ∧ x.2.info.sigil = some .str := by decide +kernel
  simp only [Option.any_eq_true, List.any_eq_true, decide_eq_true_eq] at computed
  obtain ⟨⟨p, p', hints⟩, accepted, explicit, ⟨q?, e⟩, mem, q, asked, found⟩ := computed
  obtain rfl : q? = some q := asked
  exact ⟨p, p', hints, accepted, explicit, q, e, mem, found⟩

end Program

end Lantern
