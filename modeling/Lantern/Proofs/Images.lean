import Lantern.Proofs.Programs

/-!
# Images of programs

The routines of an image stand in the order of the functions, methods and constructors they come
from, under the same symbols, so that a symbol finds the code of the definition it finds.
-/

namespace Lantern

open Assembly Meaning

namespace Emit

/-- A routine to be generated. -/
structure Source extends Definition where
  /-- Its symbol. -/
  symbol : String
  /-- The class around; empty if there is none. -/
  cls : String

namespace Source

/-- A function. -/
def func? : Stmt → Option Source
  | .func f => some ⟨⟨f.params.map Param.name, f.body⟩, SymbolName.func f.name, ""⟩
  | _ => none

/-- A method of a class. -/
def method (c : ClassDecl) (m : Method) : Source :=
  if m.isStatic then
    ⟨⟨m.params.map Param.name, m.body⟩, SymbolName.staticMethod c.name m.name, c.name⟩
  else ⟨⟨"this" :: m.params.map Param.name, m.body⟩, SymbolName.method c.name m.name, c.name⟩

/-- A constructor of a class. -/
def ctor (c : ClassDecl) (k : Ctor) : Source :=
  ⟨⟨"this" :: k.params.map Param.name, k.body⟩, SymbolName.ctor c.name k.params.length, c.name⟩

/-- The methods and constructors of a class. -/
def ofClass (c : ClassDecl) : List Source :=
  c.methods.map (method c) ++ (ctorsByArity c.ctors).map (ctor c)

/-- The environment in which its code is generated. -/
def env (s : Source) (env : Env) : Env :=
  { env with routine := s.symbol, cls := s.cls, locals := s.locals }

/-- Generates its code. -/
def emit (env : Env) (s : Source) : Emitting Routine :=
  finish s.symbol s.locals.length do
    loadParams (s.env env) 0 s.names
    let t ← newTail
    stmt ((s.env env).enter t) s.body
    routineEnd t

end Source

/-- All routines to be generated but the main routine. -/
def sources (classes : ClassTable) (items : List Stmt) : List Source :=
  items.filterMap Source.func? ++ classes.flatMap Source.ofClass

theorem funcRoutines_eq (env : Env) (items : List Stmt) :
    funcRoutines env items = (items.filterMap Source.func?).mapM (Source.emit env) := by
  induction items with
  | nil => simp [funcRoutines]
  | cons s items ih =>
      cases s with
      | func f =>
          simp only [funcRoutines, ih, Source.func?, List.filterMap_cons, List.mapM_cons]
          rfl
      | _ => simp only [funcRoutines, ih, Source.func?, List.filterMap_cons]

theorem classRoutines_eq (env : Env) (c : ClassDecl) :
    classRoutines env c = (Source.ofClass c).mapM (Source.emit env) := by
  have methods : (fun m : Method =>
      if m.isStatic then
        routine env (SymbolName.staticMethod c.name m.name) c.name false m.params m.body
      else routine env (SymbolName.method c.name m.name) c.name true m.params m.body) =
      fun m => Source.emit env (Source.method c m) := by
    funext m
    simp only [Source.method]
    split <;> rfl
  simp only [classRoutines, methods, Source.ofClass, List.mapM_append, List.mapM_map]
  rfl

theorem routines_eq (env : Env) (seed : Int64) (items : List Stmt) : routines env seed items = (do
    let rs ← (sources env.classes items).mapM (Source.emit env)
    let m ← mainRoutine env seed (items.filter (!·.isDecl))
    return rs ++ [m]) := by
  have classes (cs : List ClassDecl) : List.flatten <$> cs.mapM (classRoutines env) =
      (cs.flatMap Source.ofClass).mapM (Source.emit env) := by
    induction cs with
    | nil => simp
    | cons c cs ih =>
        simp only [List.mapM_cons, List.flatMap_cons, List.mapM_append, ← ih, classRoutines_eq]
        simp
  simp only [routines, sources, List.mapM_append, funcRoutines_eq, ← classes]
  simp

/-! ## Generating routines -/

/-- The state in which the generator starts a routine. -/
def Gen.cleared (g : Gen) : Gen :=
  { g with code := #[], temps := 0, maxTemps := 0, maxCallArgs := 0 }

/-- The state behind the code of a routine. -/
def Source.after (env : Env) (s : Source) (g : Gen) : Gen :=
  ((routineCode (s.env env) s.names s.body).run g.cleared).2

/-- The generator comes from the first state to the second, whatever routines lie between. -/
structure Gen.Leads (g g' : Gen) : Prop where
  pool : g.pool <+: g'.pool
  labels : g.labels ≤ g'.labels
  externs : g.externs ⊆ g'.externs

theorem Gen.Leads.trans {g g' g'' : Gen} (first : g.Leads g') (second : g'.Leads g'') : g.Leads g'' :=
  ⟨first.pool.trans second.pool, first.labels.trans second.labels,
    List.Subset.trans first.externs second.externs⟩

theorem Source.leads_after (env : Env) (s : Source) (g : Gen) : g.Leads (s.after env g) := by
  have before := (inferInstance : Grows (routineCode (s.env env) s.names s.body)).grow g.cleared
  exact ⟨before.pool, before.labels, before.externs⟩

/-- Routines generated one after the other. -/
inductive Made (env : Env) : List Source → Gen → List Routine → Gen → Prop where
  | nil (g : Gen) : Made env [] g [] g
  | cons {s : Source} {ss : List Source} {g g' : Gen} {r : Routine} {rs : List Routine}
      (name : r.name = s.symbol) (code : r.code = (s.after env g).code.toList)
      (rest : Made env ss (s.after env g) rs g') : Made env (s :: ss) g (r :: rs) g'

theorem made_sources (env : Env) (ss : List Source) (g : Gen) :
    Made env ss g ((ss.mapM (Source.emit env)).run g).1 ((ss.mapM (Source.emit env)).run g).2 := by
  induction ss generalizing g with
  | nil => exact .nil g
  | cons s ss ih =>
      rw [List.mapM_cons]
      exact .cons rfl rfl (ih (s.after env g))

theorem Made.leads {env : Env} {ss : List Source} {g g' : Gen} {rs : List Routine}
    (made : Made env ss g rs g') : g.Leads g' := by
  induction made with
  | nil g => exact ⟨List.prefix_rfl, le_rfl, List.Subset.refl _⟩
  | @cons s ss g g' r rs name code rest ih => exact (s.leads_after env g).trans ih

theorem Made.mem {env : Env} {ss : List Source} {g g' : Gen} {rs : List Routine}
    (made : Made env ss g rs g') {r : Routine} (inside : r ∈ rs) :
    ∃ s h, r.code = (Source.after env s h).code.toList ∧ (Source.after env s h).Leads g' := by
  induction made with
  | nil => cases inside
  | @cons s ss g g' r' rs name code rest ih =>
      rcases List.mem_cons.mp inside with rfl | later
      · exact ⟨s, g, code, rest.leads⟩
      · exact ih later

/-- A routine is what the generator makes of its source somewhere on the way to a pool. -/
def Source.Makes (env : Env) (pool : List String) (s : Source) (r : Routine) : Prop :=
  r.name = s.symbol ∧ ∃ g, r.code = (s.after env g).code.toList ∧ (s.after env g).pool <+: pool

theorem Made.makes {env : Env} {pool : List String} {ss : List Source} {g g' : Gen} {rs : List Routine}
    (made : Made env ss g rs g') (inside : g'.pool <+: pool) :
    List.Forall₂ (Source.Makes env pool) ss rs := by
  induction made with
  | nil => exact .nil
  | @cons s ss g g' r rs name code rest ih =>
      exact .cons ⟨name, g, code, rest.leads.pool.trans inside⟩ (ih inside)

theorem names_of_makes {env : Env} {pool : List String} {ss : List Source} {rs : List Routine}
    (made : List.Forall₂ (Source.Makes env pool) ss rs) :
    rs.map Routine.name = ss.map Source.symbol := by
  induction made with
  | nil => rfl
  | cons one _ ih => simp [one.1, ih]

theorem Made.names {env : Env} {ss : List Source} {g g' : Gen} {rs : List Routine}
    (made : Made env ss g rs g') : rs.map Routine.name = ss.map Source.symbol :=
  names_of_makes (made.makes List.prefix_rfl)

theorem find_of_makes {env : Env} {pool : List String} {ss : List Source} {rs : List Routine}
    (made : List.Forall₂ (Source.Makes env pool) ss rs) {symbol : String} {s : Source}
    (found : ss.find? (·.symbol == symbol) = some s) :
    ∃ r, rs.find? (·.name == symbol) = some r ∧ s.Makes env pool r := by
  induction made with
  | nil => cases found
  | @cons s' r ss rs one _ ih =>
      rw [List.find?_cons] at found ⊢
      rw [one.1]
      cases same : s'.symbol == symbol with
      | true =>
          simp only [same] at found ⊢
          obtain rfl := Option.some.inj found
          exact ⟨r, rfl, one⟩
      | false =>
          simp only [same] at found ⊢
          exact ih found

/-! ## The main routine -/

instance (env : Env) (c : ClassDecl) : Tidy 0 (methodTable env c) := by
  have (table : Operand) (m : MethodEntry) :
      Tidy 0 (do call "lm_map_set" [table, ← str m.key, .addr m.symbol, imm 0] : Emitting Unit) := by
    infer_instance
  unfold methodTable
  have (table : Operand) (entries : List MethodEntry) : Tidy 0 (entries.forM fun m => do
      call "lm_map_set" [table, ← str m.key, .addr m.symbol, imm 0]) :=
    tidy_forM fun m _ => this table m
  infer_instance

instance (env : Env) [env.Tidy] (c : ClassDecl) : Tidy 0 (staticInit env c) := by
  refine tidy_forM fun f _ => ?_
  cases f.init <;> infer_instance

/-- What the main routine does before the top-level statements. -/
def prelude (env : Env) (seed : Int64) : Emitting Unit := do
  if 0 ≤ seed then call "lm_seed" [.imm seed]
  env.classes.forM (methodTable env)
  env.classes.forM (staticInit env)

instance (env : Env) [env.Tidy] (seed : Int64) : Tidy 0 (prelude env seed) := by
  have : Tidy 0 (env.classes.forM (methodTable env)) := tidy_forM fun _ _ => inferInstance
  have : Tidy 0 (env.classes.forM (staticInit env)) := tidy_forM fun _ _ => inferInstance
  unfold prelude
  infer_instance

/-- The instructions of the main routine, in the order of generation. -/
def mainCode (env : Env) (seed : Int64) (items : List Stmt) : Emitting Unit := do
  emit .prologue []
  let t ← newTail
  prelude (env.enter t) seed
  stmts (env.enter t) items
  mainEnd t

instance (t : Tail) : Grows (mainEnd t) := by
  unfold mainEnd
  infer_instance

instance (env : Env) (seed : Int64) (items : List Stmt) : Tidy 0 (mainCode env seed items) := by
  have : Grows (mainCode env seed items) := by unfold mainCode; infer_instance
  refine tidy_of_lays fun T g _ g' lays n => ?_
  simp only [mainCode, newTail, mainEnd, lays_bind, lays_emit, lays_pure, layout, shown] at lays
  obtain ⟨-, _, rfl, _, rfl, g₁, before, g₂, inner, -, -, -, -, g₃, report, -, -, -, rfl⟩ := lays
  have := number_tag "ret" g.labels rfl
  have := number_tag "unwind" g.bump.labels rfl
  have := number_tag "epi" g.bump.bump.labels rfl
  have := before.at n
  have := inner.at n
  have := report.at n
  simp only [tally] at *
  grind

/-- The state behind the code of the main routine. -/
def afterMain (env : Env) (seed : Int64) (items : List Stmt) (g : Gen) : Gen :=
  ((mainCode env seed items).run g.cleared).2

theorem mainRoutine_eq (env : Env) (seed : Int64) (items : List Stmt) :
    mainRoutine env seed items = finish SymbolName.mainRoutine 0 (do
      let t ← newTail
      prelude (env.enter t) seed
      stmts (env.enter t) items
      mainEnd t) := by
  by_cases given : 0 ≤ seed <;> simp [mainRoutine, prelude, given]

theorem mainRoutine_run (env : Env) (seed : Int64) (items : List Stmt) (g : Gen) :
    ∃ r, (mainRoutine env seed items).run g = (r, afterMain env seed items g) ∧
      r.name = SymbolName.mainRoutine ∧ r.code = (afterMain env seed items g).code.toList := by
  rw [mainRoutine_eq]
  exact ⟨_, rfl, rfl, rfl⟩

theorem leads_afterMain (env : Env) (seed : Int64) (items : List Stmt) (g : Gen) :
    g.Leads (afterMain env seed items g) := by
  have before := (inferInstance : Grows (mainCode env seed items)).grow g.cleared
  exact ⟨before.pool, before.labels, before.externs⟩

/-! ## Symbols -/

theorem symbol_of_mem {classes : ClassTable} {items : List Stmt} {s : Source}
    (mem : s ∈ sources classes items) : ∃ rest, s.symbol = "fn_" ++ rest ∨ s.symbol = "__" ++ rest := by
  simp only [sources, List.mem_append, List.mem_filterMap, List.mem_flatMap] at mem
  obtain ⟨item, -, made⟩ | ⟨c, -, inside⟩ := mem
  · cases item with
    | func f =>
        obtain rfl := Option.some.inj made
        exact ⟨f.name, .inl rfl⟩
    | _ => cases made
  · simp only [Source.ofClass, List.mem_append, List.mem_map] at inside
    obtain ⟨m, -, rfl⟩ | ⟨k, -, rfl⟩ := inside
    · unfold Source.method
      split
      · exact ⟨c.name ++ ".static." ++ m.name, .inr (by simp [SymbolName.staticMethod, String.append_assoc])⟩
      · exact ⟨c.name ++ "." ++ m.name, .inr (by simp [SymbolName.method, String.append_assoc])⟩
    · exact ⟨c.name ++ ".constructor." ++ toString (k.params.length : Int), .inr (by
        simp [Source.ctor, SymbolName.ctor, String.append_assoc])⟩

/-- No routine of a program takes the place of one of the library's. -/
theorem symbol_not_library {classes : ClassTable} {items : List Stmt} {s : Source}
    (mem : s ∈ sources classes items) : s.symbol ∉ library := by
  obtain ⟨rest, eq | eq⟩ := symbol_of_mem mem
  · rw [eq]
    simp only [library, List.mem_cons, List.not_mem_nil, or_false, not_or]
    refine ⟨?_, ?_, ?_, ?_, ?_, ?_⟩ <;>
      exact fun h => by simpa using congrArg String.toList h
  · rw [eq]
    simp only [library, List.mem_cons, List.not_mem_nil, or_false, not_or]
    refine ⟨?_, ?_, ?_, ?_, ?_, ?_⟩ <;>
      exact fun h => by simpa using congrArg String.toList h

theorem pool_of_strings (pool : List String) : (poolStrings pool).map StringLit.value = pool := by
  simp [poolStrings, List.mapIdx_eq_zipIdx_map, Function.comp_def]

end Emit

/-! ## Images -/

namespace Inference

variable (t : Inference) (hints : Hints)

/-- The state in which the generator starts the main routine. -/
def startOfMain : Emit.Gen :=
  (((Emit.sources t.classes t.program.items).mapM (Emit.Source.emit (t.env hints))).run
    (t.start hints)).2

/-- The function, method or constructor of a symbol. -/
def source? (symbol : String) : Option Emit.Source :=
  (Emit.sources t.classes t.program.items).find? (·.symbol == symbol)

/-- The top-level statements. -/
def topLevel : List Stmt := t.program.items.filter (!·.isDecl)

/-- A program as its image is linked with a run-time library. -/
def linked {W : Type} (seed : Int64) (host : Host W) : Linked W :=
  let image := (t.generate hints seed).1
  ⟨host, t.classes, image.strings.map StringLit.value,
    fun symbol => (t.source? symbol).map Emit.Source.toDefinition, image.routines⟩

/-- The state in which the generator ends. -/
def finish (seed : Int64) : Emit.Gen :=
  Emit.afterMain (t.env hints) seed t.topLevel (t.startOfMain hints)

theorem generate_eq (seed : Int64) : ∃ (rs : List Routine) (main : Routine),
    t.generate hints seed = (⟨Emit.sorted (t.finish hints seed).externs,
      Emit.poolStrings (t.finish hints seed).pool,
      Emit.sorted (Emit.globalWords hints t.classes t.program.items), rs ++ [main]⟩,
      (t.finish hints seed).log.toList) ∧
    Emit.Made (t.env hints) (Emit.sources t.classes t.program.items) (t.start hints) rs
      (t.startOfMain hints) ∧
    main.name = SymbolName.mainRoutine ∧ main.code = (t.finish hints seed).code.toList := by
  obtain ⟨main, run, name, code⟩ :=
    Emit.mainRoutine_run (t.env hints) seed t.topLevel (t.startOfMain hints)
  let made := ((Emit.sources t.classes t.program.items).mapM (Emit.Source.emit (t.env hints))).run
    (t.start hints)
  have all : (Emit.routines (t.env hints) seed t.program.items).run (t.start hints) =
      (made.1 ++ [main], t.finish hints seed) := by
    rw [Emit.routines_eq]
    show (made.1 ++ [((Emit.mainRoutine (t.env hints) seed t.topLevel).run (t.startOfMain hints)).1],
      ((Emit.mainRoutine (t.env hints) seed t.topLevel).run (t.startOfMain hints)).2) = _
    rw [run]
    rfl
  have whole : t.generate hints seed =
      (⟨Emit.sorted ((Emit.routines (t.env hints) seed t.program.items).run (t.start hints)).2.externs,
        Emit.poolStrings ((Emit.routines (t.env hints) seed t.program.items).run (t.start hints)).2.pool,
        Emit.sorted (Emit.globalWords hints t.classes t.program.items),
        ((Emit.routines (t.env hints) seed t.program.items).run (t.start hints)).1⟩,
        ((Emit.routines (t.env hints) seed t.program.items).run (t.start hints)).2.log.toList) := rfl
  refine ⟨made.1, main, ?_, Emit.made_sources _ _ _, name, code⟩
  rw [whole, all]

/-- The routines of an image and its pool. -/
theorem routines_generate (seed : Int64) : ∃ (rs : List Routine) (main : Routine),
    (t.generate hints seed).1.routines = rs ++ [main] ∧
    (t.generate hints seed).1.strings.map StringLit.value =
      (Emit.afterMain (t.env hints) seed t.topLevel (t.startOfMain hints)).pool ∧
    List.Forall₂ (Emit.Source.Makes (t.env hints)
      (Emit.afterMain (t.env hints) seed t.topLevel (t.startOfMain hints)).pool)
      (Emit.sources t.classes t.program.items) rs ∧
    main.name = SymbolName.mainRoutine ∧
    main.code = (Emit.afterMain (t.env hints) seed t.topLevel (t.startOfMain hints)).code.toList := by
  obtain ⟨rs, main, image, made, name, code⟩ := t.generate_eq hints seed
  rw [image]
  exact ⟨rs, main, rfl, Emit.pool_of_strings _, made.makes (Emit.leads_afterMain _ _ _ _).pool, name, code⟩

end Inference

end Lantern
