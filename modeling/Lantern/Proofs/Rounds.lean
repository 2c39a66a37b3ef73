import Lantern.Proofs.Answers
import Lantern.Proofs.Prototypes

/-!
# Rounds

The checker goes over a program twice, over its top-level statements and then over its declarations, and inference four
times: over fields, top-level statements, functions, and the other routines. Each pass of inference answers what the
checker is asked on its way there.
-/

namespace Lantern

namespace Infer.Context

/-- Outside of routines and classes. -/
def outside (hints : Hints) (classes : ClassTable) : Context := ⟨hints, classes, SymbolName.mainRoutine, ""⟩

/-- The place of a class. -/
def inClass (ctx : Context) (c : ClassDecl) : Context := { ctx with cls := c.name }

/-- The place of a function. -/
def inFunc (ctx : Context) (f : FuncDecl) : Context := { ctx with routine := SymbolName.func f.name }

end Infer.Context

namespace Check

/-! ## What is asked about items -/

namespace Context

/-- The place of a class. -/
def inClass (ctx : Context) (c : ClassDecl) : Context := { ctx with cls := c.name }

/-- The place of a function. -/
def inFunc (ctx : Context) (f : FuncDecl) : Context := { ctx with routine := SymbolName.func f.name }

end Context

/-- Checks an item if it is a declaration. -/
def decl (ctx : Context) : Stmt → Checking Stmt
  | .func f => do return .func (← func ctx f)
  | .class_ c => do return .class_ (← class_ ctx c)
  | s => return s

theorem decls_cons (ctx : Context) (s : Stmt) (rest : List Stmt) :
    decls ctx (s :: rest) = do
      let s ← decl ctx s
      return s :: (← decls ctx rest) := by
  cases s <;> simp only [decls, decl, bind_assoc, pure_bind]

instance {R : State → State → Prop} [Growth R] (ctx : Context) (s : Stmt) : Steady R (decl ctx s) := by
  cases s <;> (unfold decl; infer_instance)

/-- The questions about declarations, each asked behind the declarations before it. -/
def askedInDecls (about : State → Stmt → List (Option Question)) (ctx : Context) (st : State) :
    List Stmt → List (Option Question)
  | [] => []
  | s :: rest => about st s ++ askedInDecls about ctx (after (decl ctx s) st) rest

/-- The expressions in the fields of an item. -/
def askedAsFields (ctx : Context) (st : State) : Stmt → List (Option Question)
  | .class_ c => askedInFields (ctx.inClass c) st c.fields
  | _ => []

/-- The expressions in an item that is a function. -/
def askedAsFunc (ctx : Context) (st : State) : Stmt → List (Option Question)
  | .func f => askedInRoutine (ctx.inFunc f) st f.params f.body
  | _ => []

/-- The expressions in the methods and constructors of an item. -/
def askedAsMembers (ctx : Context) (st : State) : Stmt → List (Option Question)
  | .class_ c => askedInMethods (ctx.inClass c) st c.methods ++
      askedInCtors (ctx.inClass c) (after (methods (ctx.inClass c) c.methods) st) c.ctors
  | _ => []

end Check

/-- The expressions of a program as the checker comes to them, in the order in which inference does. -/
def Program.questions (p : Program) : List (Option Check.Question) :=
  match (Check.gather Check.Declarations.empty p.items).outcome.1 with
  | none => []
  | some d =>
    let ctx := Check.Context.outside d
    let begun := Check.after (Check.gatherGlobalsOf d.classes (p.items.filter (!·.isDecl))) ⟨[[]], d.hints⟩
    let behind := Check.after (Check.stmts ctx true false p.items) begun
    Check.askedInDecls (Check.askedAsFields ctx) ctx behind p.items ++ Check.askedOf ctx begun p.items ++
      Check.askedInDecls (Check.askedAsFunc ctx) ctx behind p.items ++
      Check.askedInDecls (Check.askedAsMembers ctx) ctx behind p.items

namespace Check

variable {hints : Hints} {classes : ClassTable} {ctx : Context} {ctx' : Infer.Context} {st st' : State}
  {fs fs' : Infer.Facts} {symbols : List String}

/-! ## Declarations -/

/-- A function is checked, and the state is left as it is. -/
structure CheckedFunc (ctx : Context) (st : State) (f f' : FuncDecl) : Prop where
  name : f'.name = f.name
  params : f'.params = f.params
  body : Yields (routine (ctx.inFunc f) f.params f.body) st f'.body st

/-- The routines of a class are checked, and the state is left as it is. -/
structure CheckedMembers (ctx : Context) (st : State) (c c' : ClassDecl) : Prop where
  name : c'.name = c.name
  methods : Yields (methods (ctx.inClass c) c.methods) st c'.methods st
  ctors : Yields (ctors (ctx.inClass c) c.ctors) st c'.ctors st

/-- A class is checked, and the state is left as it is. -/
structure CheckedClass (ctx : Context) (st : State) (c c' : ClassDecl) : Prop extends CheckedMembers ctx st c c' where
  fields : Yields (fields (ctx.inClass c) c.fields) st c'.fields st

/-- The routines of a function declaration fit. -/
abbrev FitsFunc (hints : Hints) (ctx : Context) (ctx' : Infer.Context) (f : FuncDecl) : Prop :=
  Fits hints (ctx.inFunc f) (ctx'.inFunc f) false f.params f.body

/-- The routines of a class fit. -/
structure FitsClass (hints : Hints) (ctx : Context) (ctx' : Infer.Context) (c : ClassDecl) : Prop extends
    (ctx.inClass c).Stands hints (ctx'.inClass c) where
  methods : ∀ m ∈ c.methods,
    Fits hints ((ctx.inClass c).inMethod m) ((ctx'.inClass c).inMethod m) (!m.isStatic) m.params m.body
  ctors : ∀ k ∈ c.ctors, Fits hints ((ctx.inClass c).inCtor k) ((ctx'.inClass c).inCtor k) true k.params k.body

theorem Clear.start (hints : Hints) (symbols : List String) : Clear hints symbols hints.start := ⟨rfl, fun _ _ => rfl⟩

/-- Declarations are checked, and the state is left as it is. Other items are passed over. -/
structure CheckedDecls (ctx : Context) (st : State) (xs xs' : List Stmt) : Prop where
  funcs : List.Forall₂ (CheckedFunc ctx st) (funcsOf xs) (funcsOf xs')
  classes : List.Forall₂ (CheckedClass ctx st) (classesOf xs) (classesOf xs')
  others : xs'.filter (!·.isDecl) = xs.filter (!·.isDecl)
  steady : ∀ s ∈ xs, after (decl ctx s) st = st

variable {xs xs' : List Stmt}

theorem checkedFunc {f : FuncDecl} {s : Stmt} (fits : FitsFunc hints ctx ctx' f) (atTop : AtTop hints ctx.classes st)
    (yields : Yields (decl ctx (.func f)) st s st') (bound : st'.hints.globals ⊆ hints.globals) :
    st' = st ∧ ∃ f', s = .func f' ∧ CheckedFunc ctx st f f' := by
  unfold decl func at yields
  obtain ⟨f', st₁, inside, yields⟩ := yields.of_bind
  obtain ⟨rfl, rfl⟩ := yields.of_pure
  obtain ⟨body, st₁, checked, yields⟩ := inside.of_bind
  obtain ⟨rfl, rfl⟩ := yields.of_pure
  obtain ⟨rfl, -⟩ := follows_routine fits atTop (List.nodup_singleton _) (.start hints _) checked bound
  exact ⟨rfl, _, rfl, rfl, rfl, checked⟩

theorem checkedClass {c : ClassDecl} {s : Stmt} (fits : FitsClass hints ctx ctx' c) (distinct : c.routineSymbols.Nodup)
    (atTop : AtTop hints ctx.classes st) (yields : Yields (decl ctx (.class_ c)) st s st')
    (bound : st'.hints.globals ⊆ hints.globals) : st' = st ∧ ∃ c', s = .class_ c' ∧ CheckedClass ctx st c c' := by
  unfold decl class_ at yields
  obtain ⟨c', st₁, checked, yields⟩ := yields.of_bind
  obtain ⟨rfl, rfl⟩ := yields.of_pure
  dsimp only at checked
  obtain ⟨xs, fields, checked⟩ := checked.of_seq
  obtain ⟨ms, st₁, methods, checked⟩ := checked.of_bind
  obtain ⟨ks, st₂, ctors, checked⟩ := checked.of_bind
  obtain ⟨rfl, rfl⟩ := checked.of_pure
  obtain ⟨ofMethods, ofCtors, -⟩ := List.nodup_append.mp distinct
  rw [← List.append_nil (List.map _ _)] at ofMethods ofCtors
  have atTop' : AtTop hints (ctx.inClass c).classes st := atTop
  obtain ⟨rfl, -⟩ := follows_methods atTop' fits.methods ofMethods (.start hints _) methods
    (List.Subset.trans ctors.grown bound)
  obtain ⟨rfl, -⟩ := follows_ctors atTop' fits.ctors ofCtors (.start hints _) ctors bound
  exact ⟨rfl, _, rfl, ⟨rfl, methods, ctors⟩, fields⟩

theorem checkedDecls (atTop : AtTop hints ctx.classes st) (funcs : ∀ f ∈ funcsOf xs, FitsFunc hints ctx ctx' f)
    (classes : ∀ c ∈ classesOf xs, FitsClass hints ctx ctx' c ∧ c.routineSymbols.Nodup)
    (yields : Yields (decls ctx xs) st xs' st') (bound : st'.hints.globals ⊆ hints.globals) :
    st' = st ∧ CheckedDecls ctx st xs xs' := by
  induction xs generalizing xs' st' with
  | nil =>
      unfold decls at yields
      obtain ⟨rfl, rfl⟩ := yields.of_pure
      exact ⟨rfl, .nil, .nil, rfl, nofun⟩
  | cons s xs ih =>
      rw [decls_cons] at yields
      obtain ⟨s', st₁, first, yields⟩ := yields.of_bind
      obtain ⟨xs', st₂, rest, yields⟩ := yields.of_bind
      obtain ⟨rfl, rfl⟩ := yields.of_pure
      have bound₁ := List.Subset.trans rest.grown bound
      have moves := first.moves
      cases s with
      | func f =>
          obtain ⟨own, others⟩ := List.forall_mem_cons.mp (show ∀ g ∈ f :: funcsOf xs,
            FitsFunc hints ctx ctx' g from funcs)
          obtain ⟨rfl, f', rfl, checked⟩ := checkedFunc own atTop first bound₁
          obtain ⟨rfl, all⟩ := ih others classes rest bound
          exact ⟨rfl, .cons checked all.funcs, all.classes, all.others, List.forall_mem_cons.mpr ⟨moves, all.steady⟩⟩
      | class_ c =>
          obtain ⟨own, others⟩ := List.forall_mem_cons.mp (show ∀ d ∈ c :: classesOf xs,
            FitsClass hints ctx ctx' d ∧ d.routineSymbols.Nodup from classes)
          obtain ⟨rfl, c', rfl, checked⟩ := checkedClass own.1 own.2 atTop first bound₁
          obtain ⟨rfl, all⟩ := ih funcs others rest bound
          exact ⟨rfl, all.funcs, .cons checked all.classes, all.others, List.forall_mem_cons.mpr ⟨moves, all.steady⟩⟩
      | _ =>
          obtain ⟨rfl, rfl⟩ := first.of_pure
          obtain ⟨rfl, all⟩ := ih funcs classes rest bound
          exact ⟨rfl, all.funcs, all.classes, congrArg (_ :: ·) all.others,
            List.forall_mem_cons.mpr ⟨moves, all.steady⟩⟩

/-! ## Passes of inference -/

variable {cs : List ClassDecl} {gs : List FuncDecl} {ys : List Stmt}

/-- Inference goes over the fields of classes and leaves their routines as they are. -/
theorem follows_classFields (atTop : AtTop hints ctx.classes st) (mem : ctx'.routine ∈ symbols)
    (clear : Clear hints symbols fs) (fits : ∀ c ∈ cs, FitsClass hints ctx ctx' c)
    (all : List.Forall₂ (CheckedClass ctx st) cs (classesOf ys)) :
    let r := (Infer.classFields ctx' ys).run fs
    Pass hints symbols (cs.flatMap fun c => askedInFields (ctx.inClass c) st c.fields)
      (recorded (r.1.flatMap (Stmt.fieldSteps ctx'))) r.2 ∧
      List.Forall₂ (CheckedMembers ctx st) cs (classesOf r.1) := by
  induction ys generalizing cs fs with
  | nil =>
      cases all
      exact ⟨.nothing clear, .nil⟩
  | cons s ys ih =>
      cases s with
      | class_ c' =>
          obtain ⟨c, cs, checked, others, rfl⟩ := List.forall₂_cons_right_iff.mp
            (show List.Forall₂ (CheckedClass ctx st) cs (c' :: classesOf ys) from all)
          obtain ⟨own, fits⟩ := List.forall_mem_cons.mp fits
          have here : ctx'.inClass c' = ctx'.inClass c := by rw [Infer.Context.inClass, checked.name]; rfl
          have first := follows_fields own.toStands atTop mem clear checked.fields
          rw [← here] at first
          obtain ⟨second, members⟩ := ih first.clear fits others
          constructor
          · show Pass hints symbols _ (recorded (List.flatMap (Field.steps (ctx'.inClass c')) _ ++ _)) _
            rw [List.flatMap_cons, recorded_append]
            exact first.seq second
          · exact .cons ⟨checked.name, checked.methods, checked.ctors⟩ members
      | _ => exact ih clear fits all

theorem follows_funcs (atTop : AtTop hints ctx.classes st)
    (distinct : (gs.map (fun f => SymbolName.func f.name) ++ symbols).Nodup)
    (clear : Clear hints (gs.map (fun f => SymbolName.func f.name) ++ symbols) fs)
    (fits : ∀ f ∈ gs, FitsFunc hints ctx ctx' f) (all : List.Forall₂ (CheckedFunc ctx st) gs (funcsOf ys)) :
    let r := (Infer.funcs ctx' ys).run fs
    Pass hints symbols (gs.flatMap fun f => askedInRoutine (ctx.inFunc f) st f.params f.body)
      (recorded (r.1.flatMap (Stmt.funcSteps ctx'))) r.2 := by
  induction ys generalizing gs fs with
  | nil =>
      cases all
      exact .nothing clear
  | cons s ys ih =>
      cases s with
      | func f' =>
          obtain ⟨f, gs, checked, others, rfl⟩ := List.forall₂_cons_right_iff.mp
            (show List.Forall₂ (CheckedFunc ctx st) gs (f' :: funcsOf ys) from all)
          obtain ⟨own, fits⟩ := List.forall_mem_cons.mp fits
          have here : ctx'.inFunc f' = ctx'.inFunc f := by rw [Infer.Context.inFunc, checked.name]; rfl
          let r := (Infer.routine (ctx'.inFunc f') false f'.params f'.body).run fs
          have first : Pass hints (gs.map (fun f => SymbolName.func f.name) ++ symbols)
              (askedInRoutine (ctx.inFunc f) st f.params f.body)
              (recorded (Infer.routineSteps (ctx'.inFunc f') false f'.params r.1)) r.2 := by
            unfold r
            rw [here, checked.params]
            exact (follows_routine own atTop distinct clear checked.body atTop.bound).2
          have second := ih (List.nodup_cons.mp distinct).2 first.clear fits others
          show Pass hints symbols _ (recorded (Infer.routineSteps (ctx'.inFunc f') false f'.params _ ++ _)) _
          rw [List.flatMap_cons, recorded_append]
          exact first.seq second
      | _ => exact ih distinct clear fits all

theorem follows_classRoutines (atTop : AtTop hints ctx.classes st)
    (distinct : (cs.flatMap ClassDecl.routineSymbols).Nodup)
    (clear : Clear hints (cs.flatMap ClassDecl.routineSymbols) fs) (fits : ∀ c ∈ cs, FitsClass hints ctx ctx' c)
    (all : List.Forall₂ (CheckedMembers ctx st) cs (classesOf ys)) :
    let r := (Infer.classRoutines ctx' ys).run fs
    List.Forall₂ Answers (cs.flatMap fun c => askedInMethods (ctx.inClass c) st c.methods ++
      askedInCtors (ctx.inClass c) (after (methods (ctx.inClass c) c.methods) st) c.ctors)
      (recorded (r.1.flatMap (Stmt.memberSteps ctx'))) := by
  induction ys generalizing cs fs with
  | nil =>
      cases all
      exact .nil
  | cons s ys ih =>
      cases s with
      | class_ c' =>
          obtain ⟨c, cs, checked, others, rfl⟩ := List.forall₂_cons_right_iff.mp
            (show List.Forall₂ (CheckedMembers ctx st) cs (c' :: classesOf ys) from all)
          obtain ⟨own, fits⟩ := List.forall_mem_cons.mp fits
          have here : ctx'.inClass c' = ctx'.inClass c := by rw [Infer.Context.inClass, checked.name]; rfl
          rw [List.flatMap_cons, ClassDecl.routineSymbols, List.append_assoc] at distinct clear
          have atTop' : AtTop hints (ctx.inClass c).classes st := atTop
          obtain ⟨-, first⟩ := follows_methods atTop' own.methods distinct clear checked.methods atTop'.bound
          obtain ⟨-, second⟩ := follows_ctors atTop' own.ctors (List.nodup_append.mp distinct).2.1 first.clear
            checked.ctors atTop'.bound
          rw [← here] at first second
          have third := ih (List.nodup_append.mp (List.nodup_append.mp distinct).2.1).2.1 second.clear fits others
          show List.Forall₂ Answers _ (recorded ((List.flatMap (Method.steps (ctx'.inClass c')) _ ++
            List.flatMap (Ctor.steps (ctx'.inClass c')) _) ++ _))
          rw [List.flatMap_cons, recorded_append, recorded_append, checked.methods.moves]
          exact List.rel_append (first.seq second).answers third
      | _ => exact ih distinct clear fits all

/-! ### Top-level statements -/

/-- A declaration is passed over. -/
theorem Yields.of_cons_decl {left : Bool} {s : Stmt} (yields : Yields (stmts ctx true left (s :: xs)) st ys st')
    (isDecl : s.isDecl) : ∃ ys', Yields (stmts ctx true left xs) st ys' st' ∧ ys = s :: ys' := by
  unfold stmts at yields
  dsimp only at yields
  rw [if_pos (by simp [isDecl])] at yields
  obtain ⟨ys', st₁, others, yields⟩ := yields.of_bind
  obtain ⟨rfl, rfl⟩ := yields.of_pure
  exact ⟨ys', others, rfl⟩

/-- A top-level statement stays one. -/
theorem Yields.isDecl_eq {s s' : Stmt} (yields : Yields (stmt ctx s) st s' st') : s'.isDecl = s.isDecl := by
  rw [← s'.isDecl_erase, (erase_stmt ctx s).of_yields yields, s.isDecl_erase]

theorem funcsOf_cons_of_plain {s : Stmt} (plain : s.isDecl = false) : funcsOf (s :: xs) = funcsOf xs := by
  cases s <;> first | rfl | cases plain

theorem classesOf_cons_of_plain {s : Stmt} (plain : s.isDecl = false) : classesOf (s :: xs) = classesOf xs := by
  cases s <;> first | rfl | cases plain

theorem Yields.declared {left : Bool} (yields : Yields (stmts ctx true left xs) st xs' st') :
    funcsOf xs' = funcsOf xs ∧ classesOf xs' = classesOf xs := by
  induction xs generalizing left st xs' with
  | nil =>
      unfold stmts at yields
      obtain ⟨rfl, -⟩ := yields.of_pure
      exact ⟨rfl, rfl⟩
  | cons s xs ih =>
      cases isDecl : s.isDecl with
      | true =>
          obtain ⟨ys, others, rfl⟩ := yields.of_cons_decl isDecl
          obtain ⟨funcs, classes⟩ := ih others
          cases s with
          | func f => exact ⟨congrArg (f :: ·) funcs, classes⟩
          | class_ c => exact ⟨funcs, congrArg (c :: ·) classes⟩
          | _ => cases isDecl
      | false =>
          obtain ⟨s', st₁, ys, first, others, rfl⟩ := yields.of_cons (by simp [isDecl])
          have plain := first.isDecl_eq.trans isDecl
          rw [funcsOf_cons_of_plain isDecl, funcsOf_cons_of_plain plain, classesOf_cons_of_plain isDecl,
            classesOf_cons_of_plain plain]
          exact ih others

/-- Of the items, inference goes over the top-level statements. -/
theorem run_topLevel (ctx' : Infer.Context) (ys : List Stmt) (fs : Infer.Facts) :
    let r := (Infer.topLevel ctx' ys).run fs
    let r' := (Infer.stmts ctx' (ys.filter (!·.isDecl))).run fs
    r.1.flatMap (Stmt.topSteps ctx') = stmtsSteps ctx' r'.1 ∧ r.2 = r'.2 := by
  induction ys generalizing fs with
  | nil => exact ⟨rfl, rfl⟩
  | cons s ys ih =>
      cases isDecl : s.isDecl with
      | true =>
          have run : (Infer.topLevel ctx' (s :: ys)).run fs =
              (s :: ((Infer.topLevel ctx' ys).run fs).1, ((Infer.topLevel ctx' ys).run fs).2) := by
            rw [Infer.topLevel, if_pos isDecl]
            rfl
          rw [run, List.filter_cons_of_neg (by simp [isDecl])]
          dsimp only
          rw [List.flatMap_cons, Stmt.topSteps, if_pos isDecl, List.nil_append]
          exact ih fs
      | false =>
          let s' := (Infer.stmt ctx' s).run fs
          have run : (Infer.topLevel ctx' (s :: ys)).run fs =
              (s'.1 :: ((Infer.topLevel ctx' ys).run s'.2).1, ((Infer.topLevel ctx' ys).run s'.2).2) := by
            rw [Infer.topLevel, if_neg (by simp [isDecl])]
            rfl
          have plain : s'.1.isDecl = false := by
            rw [← s'.1.isDecl_erase, Infer.erase_stmt ctx' s fs, s.isDecl_erase, isDecl]
          obtain ⟨steps, facts⟩ := ih s'.2
          rw [run, List.filter_cons_of_pos (by simp [isDecl])]
          dsimp only
          rw [List.flatMap_cons, steps, facts, Stmt.topSteps, if_neg (by simp [plain])]
          exact ⟨rfl, rfl⟩

theorem after_stmt_of_isDecl (ctx : Context) (st : State) {s : Stmt} (isDecl : s.isDecl) :
    after (stmt ctx s) st = st ∧ asked ctx st s = [] := by
  cases s with
  | func f => exact ⟨by unfold stmt; rfl, rfl⟩
  | class_ c => exact ⟨by unfold stmt; rfl, rfl⟩
  | _ => cases isDecl

theorem follows_top (proper : properAll xs) {left : Bool} (stands : ctx.Stands hints ctx')
    (yields : Yields (stmts ctx true left xs) st xs' st') (knows : Knows hints ctx.classes st ctx' fs)
    (bound : st'.hints.globals ⊆ hints.globals)
    (room : Room hints ctx.classes ctx' fs (declarationsOf (xs.filter (!·.isDecl)))) :
    let r := (Infer.stmts ctx' (xs'.filter (!·.isDecl))).run fs
    Follows hints ctx.classes ctx' (declarationsOf (xs.filter (!·.isDecl))) st fs (askedOf ctx st xs)
      (recorded (stmtsSteps ctx' r.1)) st' r.2 := by
  induction xs generalizing left st fs xs' with
  | nil =>
      unfold stmts at yields
      obtain ⟨rfl, rfl⟩ := yields.of_pure
      exact .nothing knows
  | cons s xs ih =>
      cases isDecl : s.isDecl with
      | true =>
          obtain ⟨ys, others, rfl⟩ := yields.of_cons_decl isDecl
          obtain ⟨moves, nothing⟩ := after_stmt_of_isDecl ctx st isDecl
          rw [List.filter_cons_of_neg (a := s) (by simp [isDecl])] at room ⊢
          rw [List.filter_cons_of_neg (a := s) (by simp [isDecl]), askedOf, moves, nothing, List.nil_append]
          exact ih proper.2 others knows room
      | false =>
          obtain ⟨s', st₁, ys, checked, others, rfl⟩ := yields.of_cons (by simp [isDecl])
          have plain := checked.isDecl_eq.trans isDecl
          rw [List.filter_cons_of_pos (a := s) (by simp [isDecl])] at room ⊢
          rw [List.filter_cons_of_pos (a := s') (by simp [plain])]
          have first := stmtFollows ctx s proper.1 stands checked knows (List.Subset.trans others.grown bound) room.left
          have rest := ih proper.2 others first.knows (room.right first.grows)
          show Follows _ _ _ _ _ _ (asked ctx st s ++ askedOf ctx (after (stmt ctx s) st) xs)
            (recorded (Stmt.steps ctx' _ ++ stmtsSteps ctx' _)) _ _
          rw [recorded_append, checked.moves]
          exact first.seq rest

/-! ### Pass after pass -/

theorem kept_classFields (ctx' : Infer.Context) (ys : List Stmt) : Infer.Gives (Infer.classFields ctx' ys) fun r =>
    funcsOf r = funcsOf ys ∧ r.filter (!·.isDecl) = ys.filter (!·.isDecl) := by
  induction ys with
  | nil => exact fun _ => ⟨rfl, rfl⟩
  | cons s ys ih =>
      intro fs
      cases s with
      | class_ c => exact ih _
      | func f => exact ⟨congrArg (f :: ·) (ih fs).1, (ih fs).2⟩
      | _ => exact ⟨(ih fs).1, congrArg (_ :: ·) (ih fs).2⟩

theorem kept_topLevel (ctx' : Infer.Context) (ys : List Stmt) : Infer.Gives (Infer.topLevel ctx' ys) fun r =>
    funcsOf r = funcsOf ys ∧ classesOf r = classesOf ys := by
  induction ys with
  | nil => exact fun _ => ⟨rfl, rfl⟩
  | cons s ys ih =>
      rw [Infer.topLevel]
      split
      · next isDecl =>
          refine ih.bind fun r kept => Infer.gives_pure ?_
          obtain ⟨funcs, classes⟩ := kept
          cases s with
          | func f => exact ⟨congrArg (f :: ·) funcs, classes⟩
          | class_ c => exact ⟨funcs, congrArg (c :: ·) classes⟩
          | _ => cases isDecl
      · next plain =>
          refine (Infer.erase_stmt ctx' s).bind fun s' same => ih.bind fun r kept => Infer.gives_pure ?_
          have plain : s.isDecl = false := by simpa using plain
          have plain' : s'.isDecl = false := by rw [← s'.isDecl_erase, same, s.isDecl_erase, plain]
          rwa [funcsOf_cons_of_plain plain, funcsOf_cons_of_plain plain', classesOf_cons_of_plain plain,
            classesOf_cons_of_plain plain']

theorem kept_funcs (ctx' : Infer.Context) (ys : List Stmt) : Infer.Gives (Infer.funcs ctx' ys) fun r =>
    classesOf r = classesOf ys := by
  induction ys with
  | nil => exact fun _ => rfl
  | cons s ys ih =>
      intro fs
      cases s with
      | class_ c => exact congrArg (c :: ·) (ih fs)
      | _ => exact ih _

end Check

namespace Program

open Infer

/-- What the four passes of inference over a program record, one after the other. -/
theorem recorded_walk (p : Program) (hints : Hints) :
    let ctx := p.outside hints
    let r₁ := (classFields ctx p.items).run (hints.start.setFrame SymbolName.mainRoutine Frame.empty)
    let r₂ := (topLevel ctx r₁.1).run r₁.2
    let r₃ := (funcs ctx r₂.1).run r₂.2
    let r₄ := (classRoutines ctx r₃.1).run r₃.2
    Check.recorded (p.walk hints) = Check.recorded (r₁.1.flatMap (Stmt.fieldSteps ctx)) ++
      Check.recorded (r₂.1.flatMap (Stmt.topSteps ctx)) ++ Check.recorded (r₃.1.flatMap (Stmt.funcSteps ctx)) ++
        Check.recorded (r₄.1.flatMap (Stmt.memberSteps ctx)) := by
  intro ctx r₁ r₂ r₃ r₄
  obtain ⟨_, ⟨-, fields₂⟩, -⟩ := leads_topLevel ctx r₁.1 r₁.2
  obtain ⟨_, ⟨-, top₃, fields₃⟩, -⟩ := leads_funcs ctx r₂.1 r₂.2
  obtain ⟨_, ⟨-, funcs₄, top₄, fields₄⟩, -⟩ := leads_classRoutines ctx r₃.1 r₃.2
  have whole : p.walk hints = itemsSteps ctx r₄.1 := rfl
  have silent (steps : List Step) : Check.recorded (.enter SymbolName.mainRoutine :: steps) = Check.recorded steps :=
    List.filterMap_cons_none rfl
  rw [whole, itemsSteps, silent, fields₄, fields₃, fields₂, top₄, top₃, funcs₄]
  simp only [Check.recorded_append]

end Program

end Lantern
