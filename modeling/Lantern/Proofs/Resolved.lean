import Lantern.Proofs.Labels
import Lantern.Proofs.Remarks

/-!
# Resolved programs

A program that passes the checks is generated without a loss: the generator finds a variable, function,
method or loop for every name, and every remark it makes is one of the few that are excused.
-/

namespace Lantern

open Assembly

namespace Emit

/-! ## Names in the data section and in frames -/

mutual

theorem declaredNames_sublist (s : Stmt) : (declaredNames s).Sublist (assignedNames s) := by
  cases s with
  | varDecl s name type init => exact .refl _
  | block s body => exact declaredNamesOf_sublist body
  | ifElse s c a b =>
      unfold declaredNames assignedNames
      cases b with
      | none => exact (declaredNames_sublist a).append (.refl _)
      | some b => exact (declaredNames_sublist a).append (declaredNames_sublist b)
  | while_ s c body | doWhile s body c => exact declaredNames_sublist body
  | for_ s init cond post body =>
      unfold declaredNames assignedNames
      refine .append ?_ (declaredNames_sublist body)
      cases init with
      | none => exact List.nil_sublist _
      | some i => exact (declaredNames_sublist i).trans (List.sublist_append_left _ _)
  | switch s e cs => exact declaredInClauses_sublist cs
  | try_ s body cs last =>
      unfold declaredNames assignedNames
      refine ((declaredNames_sublist body).append (declaredInCatches_sublist cs)).append ?_
      cases last with
      | none => exact .refl _
      | some l => exact declaredNames_sublist l
  | _ => exact List.nil_sublist _

theorem declaredNamesOf_sublist (ss : List Stmt) : (declaredNamesOf ss).Sublist (assignedNamesOf ss) := by
  cases ss with
  | nil => exact .refl _
  | cons s ss => exact (declaredNames_sublist s).append (declaredNamesOf_sublist ss)

theorem declaredInClauses_sublist (cs : List Clause) :
    (declaredInClauses cs).Sublist (assignedInClauses cs) := by
  match cs with
  | [] => exact .refl _
  | .case_ s v body :: cs | .default_ s body :: cs =>
      exact (declaredNamesOf_sublist body).append (declaredInClauses_sublist cs)

theorem declaredInCatches_sublist (cs : List Catch) :
    (declaredInCatches cs).Sublist (assignedInCatches cs) := by
  match cs with
  | [] => exact .refl _
  | ⟨s, type, name, body⟩ :: cs =>
      exact ((declaredNames_sublist body).cons_cons name).append (declaredInCatches_sublist cs)

end

theorem isVariable_iff {env : Env} {name : String} :
    env.isVariable name ↔ name ∈ env.locals ∨ SymbolName.globalVar name ∈ env.words := by
  unfold Env.isVariable Env.lookup?
  split
  · next i slot => simp [List.isSome_idxOf?.mp (Option.isSome_of_eq_some slot)]
  · next none_ => simp [List.idxOf?_eq_none_iff.mp none_]

/-! ## Routines -/

/-- The names of a routine stand for something where its parameters are known. -/
def Source.Resolves (C : Setting) (s : Source) : Prop :=
  ∃ (receiver : Bool) (params : List Param),
    s.names = (if receiver then ["this"] else []) ++ params.map Param.name ∧ (receiver → s.cls ≠ "") ∧
    s.body.Resolves (C.inside receiver) (Scopes.entry receiver params)

section Routines

variable {C : Setting} {env : Env}

/-- In the frame of a routine its parameters are found, and what is found outside of it. -/
theorem Env.Finds.inSource (finds : env.Finds C []) (bare : env.locals = []) {s : Source} {receiver : Bool}
    {params : List Param} (names : s.names = (if receiver then ["this"] else []) ++ params.map Param.name)
    (named : receiver → s.cls ≠ "") (tail : Tail) :
    ((s.env env).enter tail).Finds (C.inside receiver) (Scopes.entry receiver params) where
  known name known := by
    have param (mem : name ∈ s.names) : ((s.env env).enter tail).isVariable name :=
      isVariable_iff.mpr (.inl (Meaning.Definition.mem_locals mem))
    rcases known with ⟨isMethod, rfl⟩ | own | global
    · exact param (by simp [names, show receiver = true from isMethod])
    · exact param (by simpa [names, Scopes.entry, or_comm] using own)
    · have found := isVariable_iff.mp (finds.known name (.inr (.inr global)))
      rw [bare] at found
      exact isVariable_iff.mpr (.inr (found.resolve_left List.not_mem_nil))
  classes := finds.classes
  funcs := finds.funcs
  receiver isMethod :=
    ⟨Meaning.Definition.mem_locals (by simp [names, show receiver = true from isMethod]), named isMethod⟩
  initials := finds.initials

instance (env : Env) (t : ClassTable) (tail : Tail) : (env.enter tail).Quiet t := ⟨nofun⟩

instance (t : ClassTable) : Quiet t newTail := by
  unfold newTail
  infer_instance

instance (t : ClassTable) (tail : Tail) : Quiet t (routineEnd tail) := by
  unfold routineEnd
  infer_instance

instance (t : ClassTable) (tail : Tail) : Quiet t (mainEnd tail) := by
  unfold mainEnd
  infer_instance

instance (t : ClassTable) (env : Env) (i : Nat) (names : List String) : Quiet t (loadParams env i names) := by
  induction names generalizing i with
  | nil => exact inferInstanceAs (Quiet t (pure ()))
  | cons name names ih => unfold loadParams; infer_instance

theorem quiet_finish {t : ClassTable} (name : String) (locals : Nat) {body : Emitting Unit} (quiet : Quiet t body) :
    Quiet t (finish name locals body) := by
  have : Quiet t (modify fun g => { g with code := #[], temps := 0, maxTemps := 0, maxCallArgs := 0 } :
      Emitting Unit) := quiet_of_log fun _ => rfl
  have : Quiet t (get : Emitting Gen) := quiet_of_log fun _ => rfl
  unfold finish
  infer_instance

theorem quiet_mapM {t : ClassTable} {α β : Type} {f : α → Emitting β} {xs : List α}
    (each : ∀ x ∈ xs, Quiet t (f x)) : Quiet t (xs.mapM f) := by
  induction xs with
  | nil => exact inferInstanceAs (Quiet t (pure []))
  | cons x xs ih =>
      obtain ⟨own, others⟩ := List.forall_mem_cons.mp each
      have := ih others
      rw [List.mapM_cons]
      infer_instance

theorem leaves_nothing (env : Env) {C : Setting} (breaks : C.breaks = false) (continues : C.continues = false) :
    env.Leaves C := ⟨by simp [breaks], by simp [continues]⟩

theorem quiet_source (finds : env.Finds C []) (bare : env.locals = []) (breaks : C.breaks = false)
    (continues : C.continues = false) {s : Source} (resolves : s.Resolves C) : Quiet C.classes (s.emit env) := by
  obtain ⟨receiver, params, names, named, resolves⟩ := resolves
  have (tail : Tail) : Quiet C.classes (stmt ((s.env env).enter tail) s.body) :=
    quiet_stmt (finds.inSource bare names named tail) (leaves_nothing _ breaks continues) s.body resolves
      fun x mem => isVariable_iff.mpr (.inl (mem_foldl_addNew.mpr (.inr (List.mem_append_right _ mem))))
  exact quiet_finish _ _ inferInstance

instance (t : ClassTable) (env : Env) (c : ClassDecl) : Quiet t (methodTable env c) := by
  have (table : Operand) (entries : List MethodEntry) : Quiet t (entries.forM fun m => do
      call "lm_map_set" [table, ← str m.key, .addr m.symbol, imm 0]) := quiet_forM fun _ _ => inferInstance
  unfold methodTable
  infer_instance

theorem quiet_staticInit [env.Quiet C.classes] (finds : env.Finds C []) {c : ClassDecl}
    (resolves : ∀ f ∈ c.fields, ∀ e ∈ f.init, e.Resolves C []) : Quiet C.classes (staticInit env c) := by
  refine quiet_forM fun f mem => ?_
  cases init : f.init with
  | none => infer_instance
  | some e =>
      have := quiet_expr finds (resolves f (List.mem_of_mem_filter mem) e init)
      infer_instance

/-- Outside of routines statements declare only globals, so each resolves by itself. -/
theorem stmtsResolve_of_forall (outside : C.inRoutine = false) {ss : List Stmt} (each : ∀ s ∈ ss, s.Resolves C []) :
    stmtsResolve C [] ss := by
  induction ss with
  | nil => trivial
  | cons s ss ih =>
      obtain ⟨own, others⟩ := List.forall_mem_cons.mp each
      refine ⟨own, ?_⟩
      rw [outside]
      exact ih others

theorem quiet_mainRoutine (finds : env.Finds C []) (seed : Int64) (outside : C.outside = C)
    (fields : ∀ c ∈ env.classes, ∀ f ∈ c.fields, ∀ e ∈ f.init, e.Resolves C []) {items : List Stmt}
    (resolves : ∀ s ∈ items, s.Resolves C []) (declared : ∀ x ∈ declaredNamesOf items, env.isVariable x) :
    Quiet C.classes (mainRoutine env seed items) := by
  have finds' (tail : Tail) : (env.enter tail).Finds C [] := { finds with }
  have (tail : Tail) : Quiet C.classes ((env.enter tail).classes.forM (methodTable (env.enter tail))) :=
    quiet_forM fun _ _ => inferInstance
  have (tail : Tail) : Quiet C.classes ((env.enter tail).classes.forM (staticInit (env.enter tail))) :=
    quiet_forM fun c mem => quiet_staticInit (finds' tail) (fields c mem)
  have (tail : Tail) : Quiet C.classes (stmts (env.enter tail) items) :=
    quiet_stmts (finds' tail) (leaves_nothing _ (by rw [← outside]; rfl) (by rw [← outside]; rfl)) items
      (stmtsResolve_of_forall (by rw [← outside]; rfl) resolves) declared
  exact quiet_finish _ _ inferInstance

end Routines

theorem mem_of_mem_ctorsByArity {ctors : List Ctor} {k : Ctor} (mem : k ∈ ctorsByArity ctors) : k ∈ ctors := by
  have kept (ks : List Ctor) (mem : k ∈ ctors.foldl (fun ks k =>
      ks.filter (·.params.length != k.params.length) ++ [k]) ks) : k ∈ ks ∨ k ∈ ctors := by
    clear * - mem
    induction ctors generalizing ks with
    | nil => exact .inl mem
    | cons k' ctors ih => grind
  simpa using kept [] (List.mem_mergeSort.mp mem)

/-- The routines of a program whose items resolve do so too. -/
theorem Source.resolves_of_mem {C : Setting} {classes : ClassTable} {items : List Stmt}
    (resolves : ∀ s ∈ items, s.ItemResolves C) (members : ∀ c ∈ classes, c.name ≠ "" ∧ c.Resolves C)
    {s : Source} (mem : s ∈ sources classes items) : s.Resolves C := by
  simp only [sources, List.mem_append, List.mem_filterMap, List.mem_flatMap] at mem
  obtain ⟨item, inside, made⟩ | ⟨c, inside, member⟩ := mem
  · cases item with
    | func f =>
        obtain rfl := Option.some.inj made
        exact ⟨false, f.params, rfl, fun isMember => absurd isMember Bool.false_ne_true, resolves _ inside⟩
    | _ => cases made
  · obtain ⟨named, own⟩ := members c inside
    simp only [Source.ofClass, List.mem_append, List.mem_map] at member
    obtain ⟨m, inside, rfl⟩ | ⟨k, inside, rfl⟩ := member
    · have body := own.methods m inside
      cases isStatic : m.isStatic with
      | true =>
          rw [isStatic] at body
          exact ⟨false, m.params, by simp [Source.method, isStatic], fun isMember => absurd isMember Bool.false_ne_true,
            by simpa [Source.method, isStatic] using body⟩
      | false =>
          rw [isStatic] at body
          exact ⟨true, m.params, by simp [Source.method, isStatic], fun _ => by simpa [Source.method, isStatic] using named,
            by simpa [Source.method, isStatic] using body⟩
    · exact ⟨true, k.params, rfl, fun _ => named, own.ctors k (mem_of_mem_ctorsByArity inside)⟩

theorem mem_of_mem_flatFields {t : ClassTable} {cls : String} {f : Field} (mem : f ∈ t.flatFields cls) :
    ∃ c ∈ t, f ∈ c.fields := by
  obtain ⟨c, inside, own⟩ := List.mem_flatMap.mp ((mem_of_mem_upserts mem).resolve_left List.not_mem_nil)
  exact ⟨c, ClassTable.mem_of_mem_lineage (List.mem_reverse.mp inside), List.mem_of_mem_filter own⟩

end Emit

/-! ## Programs -/

theorem mem_funcNames {items : List Stmt} {name : String} :
    name ∈ Emit.funcNames items ↔ name ∈ (funcsOf items).map FuncDecl.name := by
  have same : Emit.funcNames items = (funcsOf items).map FuncDecl.name := by
    induction items with
    | nil => rfl
    | cons s items ih =>
        cases s with
        | func f => exact congrArg (f.name :: ·) ih
        | _ => exact ih
  rw [same]

/-- A variable assigned to at the top level has a word of its own. -/
theorem Inference.isVariable_env (t : Inference) (hints : Hints) {name : String}
    (global : name ∈ hints.globals ∨ name ∈ Emit.assignedNamesOf t.topLevel) : (t.env hints).isVariable name :=
  Emit.isVariable_iff.mpr (.inr (mem_foldl_addNew.mpr (.inr
    (List.mem_append_left _ (List.mem_map_of_mem (List.mem_append.mpr global))))))

/-- The generator finds what the names of a checked program stand for. -/
theorem Program.finds {p p' : Program} {hints : Hints} (kept : eraseStmts p'.items = eraseStmts p.items)
    (names : ((classesOf p.items).map ClassDecl.name).Nodup)
    (members : ∀ c ∈ (p'.infer hints).classes, c.Resolves (p.setting hints)) :
    ((p'.infer hints).env hints).Finds (p.setting hints) [] where
  known name known := by
    have global : name ∈ hints.globals := by simpa [Setting.Knows, Program.setting] using known
    exact Inference.isVariable_env _ hints (.inl global)
  classes := (Program.erase_classes hints names kept).trans (by rw [ClassTable.ofItems_eq names]; rfl)
  funcs name mem := mem_funcNames.mpr (Program.names_funcs hints kept ▸ mem)
  receiver := nofun
  initials cls f mem := by
    obtain ⟨c, inside, own⟩ := Emit.mem_of_mem_flatFields mem
    exact (members c inside).fields f own

/-- Where every item resolves, so does the whole program. -/
theorem Inference.quiet_routines {t : Inference} {hints : Hints} {C : Setting} (finds : (t.env hints).Finds C [])
    (outside : C.outside = C) (items : ∀ s ∈ t.program.items, s.ItemResolves C)
    (members : ∀ c ∈ t.classes, c.name ≠ "" ∧ c.Resolves C) (seed : Int64) :
    Emit.Quiet C.classes (Emit.routines (t.env hints) seed t.program.items) := by
  have sources : Emit.Quiet C.classes
      ((Emit.sources t.classes t.program.items).mapM (Emit.Source.emit (t.env hints))) := Emit.quiet_mapM fun s mem =>
    Emit.quiet_source finds rfl (by rw [← outside]; rfl) (by rw [← outside]; rfl)
      (Emit.Source.resolves_of_mem items members mem)
  have main : Emit.Quiet C.classes (Emit.mainRoutine (t.env hints) seed t.topLevel) := by
    refine Emit.quiet_mainRoutine finds seed outside (fun c mem => (members c mem).2.fields) (fun s mem => ?_)
      fun x mem => t.isVariable_env hints (.inr ((Emit.declaredNamesOf_sublist _).subset mem))
    obtain ⟨inside, plain⟩ := List.mem_filter.mp mem
    exact (Stmt.itemResolves_iff (by simpa using plain)).mp (items s inside)
  rw [Emit.routines_eq]
  exact sources.seq fun _ => main.seq fun _ => inferInstance

/-- The classes of a checked program have names of their own. -/
theorem Program.classNames_nodup {file : Nat} {source : String} {p p' : Program} {hints : Hints}
    (accepted : Program.accept? file source = some (p, p', hints)) :
    ((classesOf p.items).map ClassDecl.name).Nodup := by
  obtain ⟨proper, checked⟩ := Program.of_accept? accepted
  obtain ⟨ds, distinct, -, classes, -, -⟩ := (p.gives_declared proper).of_outcome checked
  exact classes ▸ distinct.classes

/-- Inference leaves the items and classes of a checked program resolved. -/
theorem Program.resolves_infer {file : Nat} {source : String} {p p' : Program} {hints : Hints}
    (accepted : Program.accept? file source = some (p, p', hints)) :
    (∀ s ∈ (p'.infer hints).program.items, s.ItemResolves (p.setting hints)) ∧
      ∀ c ∈ (p'.infer hints).classes, c.name ≠ "" ∧ c.Resolves (p.setting hints) := by
  obtain ⟨proper, checked⟩ := Program.of_accept? accepted
  have kept := p.erase_check.of_outcome checked
  have resolves := (p.gives_resolves proper).of_outcome checked
  have names := Program.classNames_nodup accepted
  refine ⟨itemResolves_of_erase ((Program.erase_infer p' hints).trans kept) resolves, fun c mem => ?_⟩
  have erased := Program.erase_classes hints names kept
  rw [ClassTable.ofItems_eq names] at erased
  obtain ⟨d, declared, same⟩ := List.mem_map.mp (erased ▸ List.mem_map_of_mem mem)
  have item := mem_classesOf.mp declared
  have named := (Stmt.proper_class.mp (properAll_iff.mp proper _ item)).1.nonempty
  have own : d.Resolves (p.setting hints) := resolves _ item
  exact ⟨(ClassDecl.names_of_erase same).1 ▸ named,
    ClassDecl.resolves_erase.mp (same ▸ ClassDecl.resolves_erase.mpr own)⟩

/-- Code generation resolves every name of a checked program. The remarks it makes are on classes used as
    values, on objects of no class, on missing constructors and on missing static fields. -/
theorem Program.remarks_excused {file : Nat} {source : String} {p p' : Program} {hints : Hints}
    (accepted : Program.accept? file source = some (p, p', hints)) (seed : Int64) :
    ∀ d ∈ (p'.generate hints seed).2,
      d.severity = .warning .codegen ∧ Emit.Excused (ClassTable.ofItems p.items) d.message := by
  obtain ⟨-, checked⟩ := Program.of_accept? accepted
  have kept := p.erase_check.of_outcome checked
  have names := Program.classNames_nodup accepted
  obtain ⟨items, members⟩ := Program.resolves_infer accepted
  have finds := Program.finds kept names fun c mem => (members c mem).2
  intro d mem
  rw [ClassTable.ofItems_eq names]
  have quiet := Inference.quiet_routines finds rfl items members seed
  exact (quiet.remarks ((p'.infer hints).start hints) d (Array.mem_toList_iff.mp mem)).resolve_left
    (Array.not_mem_empty d)

/-- A function that asks for a static field its class lacks, from within a block that is run last. -/
def unresolved : String :=
  "class A \x7b static var k = 1; \x7d func f(x) \x7b try \x7b return A.k; \x7d finally \x7b " ++
    "n = A.j; \x7d \x7d f(new A(f(2)));"

theorem Program.remarks_excused_unresolved : ∃ p p' hints,
    Program.accept? 0 unresolved = some (p, p', hints) ∧
    (p'.generate hints 0).2.map Diagnostic.message = ["Class 'A' has no static field 'j'",
      "Class 'A' has no static field 'j'", "Class 'A' has no static field 'j'",
      "Class 'A' has no constructor taking 1 arguments"] ∧
    ∀ d ∈ (p'.generate hints 0).2, Emit.Excused (ClassTable.ofItems p.items) d.message := by
  have remarks : (Program.accept? 0 unresolved).map
      (fun r => (r.2.1.generate r.2.2 0).2.map Diagnostic.message) = some ["Class 'A' has no static field 'j'",
        "Class 'A' has no static field 'j'", "Class 'A' has no static field 'j'",
        "Class 'A' has no constructor taking 1 arguments"] := by
    rewrite [show Program.accept? 0 unresolved = _ from Program.accept?_append 0 _ _]
    decide +kernel
  obtain ⟨⟨p, p', hints⟩, accepted, remarks⟩ := Option.map_eq_some_iff.mp remarks
  exact ⟨p, p', hints, accepted, remarks, fun d mem => (Program.remarks_excused accepted 0 d mem).2⟩

end Lantern
