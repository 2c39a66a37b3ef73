import Lantern.Proofs.Licences
import Lantern.Proofs.Resolved

/-!
# The literal pool

The pool is filled by a walk over the program before any code is generated, and the generator looks up
in it what it needs. A walk knows no locals. In a program whose checked names are resolved it meets every
string that the generator asks for, unless a local has the name of a class.
-/

namespace Lantern

open Assembly

namespace Emit

/-! ## Strings of programs -/

section Strings

variable {w : Surroundings}

theorem stmtStrings_func (f : FuncDecl) : stmtStrings w (.func f) = stmtStrings w f.body := by
  cases f
  rw [stmtStrings]

theorem stmtStrings_class (c : ClassDecl) : stmtStrings w (.class_ c) =
    w.classStrings c.name ++ c.fields.flatMap (fieldStrings { w with cls := c.name }) ++
      methodsStrings { w with cls := c.name } c.methods ++ ctorsStrings { w with cls := c.name } c.ctors := by
  cases c
  rw [stmtStrings]

theorem mem_stmtsStrings {items : List Stmt} {v : String} :
    v ∈ stmtsStrings w items ↔ ∃ s ∈ items, v ∈ stmtStrings w s := by
  induction items with
  | nil => simp [stmtsStrings]
  | cons s items ih => simp [stmtsStrings, ih]

theorem mem_methodsStrings {ms : List Method} {m : Method} (mem : m ∈ ms) {v : String}
    (inside : v ∈ stmtStrings w m.body) : v ∈ methodsStrings w ms := by
  induction ms with
  | nil => cases mem
  | cons m' ms ih =>
      cases m'
      rcases List.mem_cons.mp mem with rfl | later
      · exact List.mem_append_left _ inside
      · exact List.mem_append_right _ (ih later)

theorem mem_ctorsStrings {ks : List Ctor} {k : Ctor} (mem : k ∈ ks) {v : String}
    (inside : v ∈ stmtStrings w k.body) : v ∈ ctorsStrings w ks := by
  induction ks with
  | nil => cases mem
  | cons k' ks ih =>
      cases k'
      rcases List.mem_cons.mp mem with rfl | later
      · exact List.mem_append_left _ inside
      · exact List.mem_append_right _ (ih later)

-- The linter looks at each theorem of the block below by itself.
set_option linter.unusedSectionVars false

variable {C : Setting} (outside : C.receiver = false) (cls : String)

include outside

mutual

/-- Only calls of inherited methods depend on the class around, and there are none without a receiver. -/
theorem exprStrings_cls {V : Scopes} (e : Expr) (resolves : e.Resolves C V) :
    exprStrings { w with cls := cls } e = exprStrings w e := by
  cases e with
  | str | number | bool | ident | super | funcRef => rfl
  | binary i op l r => simp only [exprStrings, exprStrings_cls l resolves.1, exprStrings_cls r resolves.2]
  | unary i op e => exact exprStrings_cls e resolves
  | ternary i c a b =>
      simp only [exprStrings, exprStrings_cls c resolves.1, exprStrings_cls a resolves.2.1,
        exprStrings_cls b resolves.2.2]
  | list i es => exact exprsStrings_cls es resolves
  | map i es => exact entriesStrings_cls es resolves
  | index i b k => simp only [exprStrings, exprStrings_cls b resolves.1, exprStrings_cls k resolves.2]
  | member i o name => simp only [exprStrings, exprStrings_cls o resolves]
  | call i callee args => exact exprsStrings_cls args resolves.2
  | method i r name args =>
      have own : Surroundings.methodStrings { w with cls := cls } r name = w.methodStrings r name := by
        cases r with
        | super j =>
            have receiver : C.receiver = true := resolves.2.1
            rw [outside] at receiver
            cases receiver
        | _ => rfl
      simp only [exprStrings, own, exprStrings_cls r resolves.2.1, exprsStrings_cls args resolves.2.2]
  | new_ i cls' args => exact exprsStrings_cls args resolves
  | step i op first t => exact exprStrings_cls t resolves.2

theorem exprsStrings_cls {V : Scopes} (es : List Expr) (resolves : allResolve C V es) :
    exprsStrings { w with cls := cls } es = exprsStrings w es := by
  cases es with
  | nil => rfl
  | cons e es => simp only [exprsStrings, exprStrings_cls e resolves.1, exprsStrings_cls es resolves.2]

theorem entriesStrings_cls {V : Scopes} (es : List (Expr × Expr)) (resolves : entriesResolve C V es) :
    entriesStrings { w with cls := cls } es = entriesStrings w es := by
  match es with
  | [] => rfl
  | (k, v) :: es =>
      simp only [entriesStrings, exprStrings_cls k resolves.1, exprStrings_cls v resolves.2.1,
        entriesStrings_cls es resolves.2.2]

end

theorem fieldStrings_cls {f : Field} (resolves : ∀ e ∈ f.init, e.Resolves C []) :
    fieldStrings { w with cls := cls } f = fieldStrings w f := by
  unfold fieldStrings optionStrings
  cases init : f.init with
  | none => rfl
  | some e =>
      simp only [Option.toList_some, List.flatMap_singleton, exprStrings_cls outside cls e (resolves e init)]

end Strings

theorem named_of_mem_flatFields {t : ClassTable} {cls : String} {f : Field} (mem : f ∈ t.flatFields cls) :
    ∃ c ∈ t, c.name = cls := by
  cases known : t.get? cls with
  | some c => exact ⟨c, List.mem_of_find?_eq_some known, by simpa using List.find?_some known⟩
  | none =>
      have nothing : t.lineage cls = [] := by
        unfold ClassTable.lineage
        cases t <;> simp [ClassTable.lineageFrom, known]
      simp [ClassTable.flatFields, ClassTable.ancestry, nothing] at mem

/-! ## Strings of routines -/

/-- What routines generated one after the other ask for. -/
theorem Made.pool {S : String → Prop} {env : Env} {ss : List Source} {g g' : Gen} {rs : List Routine}
    (made : Made env ss g rs g') (each : ∀ s ∈ ss,
      Within ⟨S, s.locals.length⟩ (routineCode (s.env env) s.names s.body)) :
    ∃ asked : List String, (∀ v ∈ asked, S v) ∧ g'.pool = asked.foldl addNew g.pool := by
  induction made with
  | nil => exact ⟨[], nofun, rfl⟩
  | @cons s ss g g' r rs name code rest ih =>
      obtain ⟨own, others⟩ := List.forall_mem_cons.mp each
      obtain ⟨first, granted, eq⟩ := own.pool g.cleared
      obtain ⟨later, granted', eq'⟩ := ih others
      have eq : (s.after env g).pool = first.foldl addNew g.pool := eq
      refine ⟨first ++ later, List.forall_mem_append.mpr ⟨granted, granted'⟩, ?_⟩
      rw [eq', eq, List.foldl_append]

end Emit

/-! ## Programs -/

namespace Inference

variable (t : Inference) (hints : Hints)

/-- Where a walk over the program starts. -/
def around : Emit.Surroundings := ⟨t.classes, Emit.globalWords hints t.classes t.program.items, ""⟩

/-- The strings that the walk over a program collects. -/
def collected : List String := Emit.literalPool t.classes (t.around hints).words t.program.items

/-- No local of a routine has the name of a class. -/
def Apart : Prop := ∀ s ∈ Emit.sources t.classes t.program.items, ∀ x ∈ s.locals, t.classes.has x = false

instance : Decidable t.Apart := inferInstanceAs (Decidable (∀ _ ∈ _, ∀ _ ∈ _, _ = _))

variable {t hints}

theorem mem_collected {v : String} :
    v ∈ t.collected hints ↔ ∃ s ∈ t.program.items, v ∈ Emit.stmtStrings (t.around hints) s := by
  rw [collected, Emit.literalPool, mem_foldl_addNew]
  simp only [List.not_mem_nil, false_or]
  exact Emit.mem_stmtsStrings

/-- What is asked for while a program is generated joins the strings that were collected. -/
theorem pool_finish {S : String → Prop} (seed : Int64)
    (sources : ∀ s ∈ Emit.sources t.classes t.program.items,
      Emit.Within ⟨S, s.locals.length⟩ (Emit.routineCode (s.env (t.env hints)) s.names s.body))
    (main : Emit.Within ⟨S, 0⟩ (Emit.mainCode (t.env hints) seed t.topLevel)) :
    ∃ asked : List String, (∀ v ∈ asked, S v) ∧
      (t.finish hints seed).pool = asked.foldl addNew (t.collected hints) := by
  obtain ⟨rs, _, -, made, -, -⟩ := t.generate_eq hints seed
  obtain ⟨first, granted, eq⟩ := made.pool sources
  obtain ⟨later, granted', eq'⟩ := main.pool (t.startOfMain hints).cleared
  have ends : (t.finish hints seed).pool = later.foldl addNew (t.startOfMain hints).pool := eq'
  refine ⟨first ++ later, List.forall_mem_append.mpr ⟨granted, granted'⟩, ?_⟩
  rw [ends, eq, List.foldl_append]
  rfl

theorem pool_finish_any (t : Inference) (hints : Hints) (seed : Int64) :
    ∃ asked : List String, (t.finish hints seed).pool = asked.foldl addNew (t.collected hints) := by
  obtain ⟨asked, -, eq⟩ := pool_finish seed (fun s _ => Emit.Source.within_any (t.env hints) rfl s)
    (Emit.within_any_main (t.env hints) rfl rfl seed t.topLevel)
  exact ⟨asked, eq⟩

/-! ### Programs whose names are resolved -/

section Resolved

variable {C : Setting} (outside : C.receiver = false) (items : ∀ c ∈ t.classes, .class_ c ∈ t.program.items)
  (members : ∀ c ∈ t.classes, c.Resolves C)

theorem mem_classStrings (t : Inference) (hints : Hints) {cls v : String}
    (inside : v = SymbolName.methodTableKey ∨ (∃ f ∈ t.classes.flatFields cls, v = f.name) ∨
      ∃ m ∈ t.classes.flatMethods cls ++ t.classes.superEntries cls, v = m.key) :
    v ∈ (t.around hints).classStrings cls := by
  simp only [Emit.Surroundings.classStrings, around, List.cons_append, List.mem_cons, List.mem_append,
    List.mem_map]
  rcases inside with rfl | ⟨f, mem, rfl⟩ | ⟨m, mem, rfl⟩
  · exact .inl rfl
  · exact .inr (.inl (.inl ⟨f, mem, rfl⟩))
  · rcases List.mem_append.mp mem with own | inherited
    · exact .inr (.inl (.inr ⟨m, own, rfl⟩))
    · exact .inr (.inr ⟨m, inherited, rfl⟩)

include items

/-- What a class needs is collected. -/
theorem collected_class {c : ClassDecl} (mem : c ∈ t.classes) {v : String}
    (inside : v ∈ (t.around hints).classStrings c.name ∨
      (∃ f ∈ c.fields, v ∈ Emit.fieldStrings { t.around hints with cls := c.name } f) ∨
      (∃ m ∈ c.methods, v ∈ Emit.stmtStrings { t.around hints with cls := c.name } m.body) ∨
      ∃ k ∈ c.ctors, v ∈ Emit.stmtStrings { t.around hints with cls := c.name } k.body) :
    v ∈ t.collected hints := by
  refine mem_collected.mpr ⟨_, items c mem, ?_⟩
  rw [Emit.stmtStrings_class]
  simp only [List.mem_append, List.mem_flatMap]
  rcases inside with own | ⟨f, field, inside⟩ | ⟨m, method, inside⟩ | ⟨k, ctor, inside⟩
  · exact .inl (.inl (.inl own))
  · exact .inl (.inl (.inr ⟨f, field, inside⟩))
  · exact .inl (.inr (Emit.mem_methodsStrings method inside))
  · exact .inr (Emit.mem_ctorsStrings ctor inside)

include outside members

/-- What the fields of a class need is collected, whatever routine makes the object. -/
theorem collected_field {c : ClassDecl} (mem : c ∈ t.classes) {f : Field} (field : f ∈ c.fields) (cls : String)
    {v : String} (inside : v ∈ Emit.fieldStrings { t.around hints with cls := cls } f) :
    v ∈ t.collected hints := by
  refine collected_class items mem (.inr (.inl ⟨f, field, ?_⟩))
  have resolves := (members c mem).fields f field
  rwa [Emit.fieldStrings_cls outside _ resolves] at inside ⊢

theorem within_env (env : Emit.Env) (classes : env.classes = t.classes) (words : env.words = (t.around hints).words)
    (none_ : env.lasts = []) (apart : ∀ x ∈ env.locals, t.classes.has x = false)
    (named : env.cls ≠ "" → t.classes ≠ []) : env.Within ⟨(· ∈ t.collected hints), env.locals.length⟩ where
  slot := rfl
  lasts := by simp [none_]
  apart name mem known := by
    rw [classes, apart name mem] at known
    cases known
  table some_ := by
    obtain ⟨c, rest, eq⟩ := List.exists_cons_of_ne_nil (some_.elim named fun some_ => classes ▸ some_)
    exact collected_class items (eq ▸ List.mem_cons_self) (.inl (t.mem_classStrings hints (.inl rfl)))
  fields cls f mem := by
    rw [classes] at mem
    have around : env.around = { t.around hints with cls := env.cls } := by
      rw [Emit.Env.around, classes, words]
      rfl
    obtain ⟨c, inside, field⟩ := Emit.mem_of_mem_flatFields mem
    obtain ⟨d, known, rfl⟩ := Emit.named_of_mem_flatFields mem
    refine List.forall_mem_cons.mpr ⟨?_, fun v strings => ?_⟩
    · exact collected_class items known (.inl (t.mem_classStrings hints (.inr (.inl ⟨f, mem, rfl⟩))))
    · exact collected_field outside items members inside field env.cls (around ▸ strings)

/-- The routines of a program ask for what was collected. -/
theorem within_source (apart : t.Apart) {s : Emit.Source} (mem : s ∈ Emit.sources t.classes t.program.items) :
    Emit.Within ⟨(· ∈ t.collected hints), s.locals.length⟩
      (Emit.routineCode (s.env (t.env hints)) s.names s.body) := by
  have origin := mem
  simp only [Emit.sources, List.mem_append, List.mem_filterMap, List.mem_flatMap] at origin
  have body : (s.cls ≠ "" → t.classes ≠ []) ∧
      ∀ v ∈ Emit.stmtStrings { t.around hints with cls := s.cls } s.body, v ∈ t.collected hints := by
    obtain ⟨item, inside, made⟩ | ⟨c, inside, member⟩ := origin
    · cases item with
      | func f =>
          obtain rfl := Option.some.inj made
          refine ⟨fun named => absurd rfl named, fun v strings => mem_collected.mpr ⟨_, inside, ?_⟩⟩
          rw [Emit.stmtStrings_func]
          exact strings
      | _ => cases made
    · simp only [Emit.Source.ofClass, List.mem_append, List.mem_map] at member
      obtain ⟨m, method, rfl⟩ | ⟨k, ctor, rfl⟩ := member
      · refine ⟨fun _ => List.ne_nil_of_mem inside, fun v strings =>
          collected_class items inside (.inr (.inr (.inl ⟨m, method, ?_⟩)))⟩
        unfold Emit.Source.method at strings
        split at strings <;> exact strings
      · exact ⟨fun _ => List.ne_nil_of_mem inside, fun v strings =>
          collected_class items inside (.inr (.inr (.inr ⟨k, Emit.mem_of_mem_ctorsByArity ctor, strings⟩)))⟩
  have : (s.env (t.env hints)).Within ⟨(· ∈ t.collected hints), s.locals.length⟩ :=
    within_env outside items members (s.env (t.env hints)) rfl rfl rfl (apart s mem) body.1
  exact Emit.within_routineCode _ (fun _ mem => Meaning.Definition.mem_locals mem) body.2

theorem within_main (seed : Int64) :
    Emit.Within ⟨(· ∈ t.collected hints), 0⟩ (Emit.mainCode (t.env hints) seed t.topLevel) := by
  have : (t.env hints).Within ⟨(· ∈ t.collected hints), 0⟩ :=
    within_env outside items members (t.env hints) rfl rfl rfl (fun _ => nofun) fun named => absurd rfl named
  refine Emit.within_mainCode _ seed (fun c mem m entry => ?_) (fun c mem f field v => ?_) fun v strings => ?_
  · exact collected_class items mem (.inl (t.mem_classStrings hints (.inr (.inr ⟨m, entry, rfl⟩))))
  · exact collected_field outside items members mem field ""
  · obtain ⟨s, mem, inside⟩ := Emit.mem_stmtsStrings.mp strings
    exact mem_collected.mpr ⟨s, List.mem_of_mem_filter mem, inside⟩

/-- Where no local has the name of a class, the walk collects all that is asked for. -/
theorem pool_eq_collected (apart : t.Apart) (seed : Int64) : (t.finish hints seed).pool = t.collected hints := by
  obtain ⟨asked, known, eq⟩ := pool_finish seed (fun s mem => within_source outside items members apart mem)
    (within_main outside items members seed)
  rw [eq]
  exact foldl_addNew_eq known

end Resolved

end Inference

namespace Emit

/-- The strings of a pool have labels of their own. -/
theorem label_inj {pool : List String} {l l' : StringLit} (mem : l ∈ poolStrings pool) (mem' : l' ∈ poolStrings pool)
    (same : l.label = l'.label) : l = l' := by
  have distinct : ((poolStrings pool).map StringLit.label).Nodup :=
    Inference.labels_poolStrings pool ▸ Inference.nodup_poolLabels pool.length
  exact List.inj_on_of_nodup_map distinct mem mem' same

/-- What asking for a string gives, whatever joins the pool later. -/
theorem str_names {pool : List String} {g : Gen} {v : String} (inside : ((str v).run g).2.pool <+: pool) :
    ∃ l ∈ poolStrings pool, ((str v).run g).1 = .addr l.label ∧ l.value = v := by
  have known : v ∈ pool := inside.subset (mem_addNew.mpr (.inr rfl))
  refine ⟨⟨poolLabel (pool.idxOf v), v⟩, ?_, ?_, rfl⟩
  · exact List.mem_mapIdx.mpr ⟨_, List.idxOf_lt_length_of_mem known, by simp⟩
  · exact congrArg (fun n => Operand.addr (poolLabel n)) (idxOf_of_addNew inside)

end Emit

theorem ClassTable.mem_of_mem_add {t : ClassTable} {c d : ClassDecl} (mem : c ∈ t.add d) : c ∈ t ∨ c = d := by
  unfold add at mem
  split at mem
  · obtain ⟨e, inside, rfl⟩ := List.mem_map.mp mem
    split
    · exact .inr rfl
    · exact .inl inside
  · simpa using mem

theorem ClassTable.mem_of_mem_ofItems {items : List Stmt} {c : ClassDecl} (mem : c ∈ ofItems items) :
    .class_ c ∈ items := by
  unfold ofItems at mem
  have found {t : ClassTable} (start : [] = t) : c ∈ t ∨ .class_ c ∈ items := by
    rw [start] at mem
    clear start
    induction items generalizing t with
    | nil => exact .inl mem
    | cons s items ih =>
        rcases ih mem with old | later
        · cases s with
          | class_ d =>
              rcases mem_of_mem_add old with older | rfl
              · exact .inl older
              · exact .inr List.mem_cons_self
          | _ => exact .inl old
        · exact .inr (List.mem_cons_of_mem _ later)
  exact (found rfl).resolve_left List.not_mem_nil

/-- The strings of a checked program's image are distinct, each under the label of its place, and every
    label that was asked for is that of the string it was asked for. The strings that were collected
    come first; where no local has the name of a class, there are no others. -/
theorem Program.pool_complete {file : Nat} {source : String} {p p' : Program} {hints : Hints}
    (accepted : Program.accept? file source = some (p, p', hints)) (seed : Int64) :
    let strings := (p'.generate hints seed).1.strings
    let collected := (p'.infer hints).collected hints
    (∀ (i : Nat) (l : StringLit), strings[i]? = some l → l.label = "str" ++ toString i) ∧
    (strings.map StringLit.value).Nodup ∧
    collected <+: strings.map StringLit.value ∧
    ((p'.infer hints).Apart → strings.map StringLit.value = collected) ∧
    ∀ (g : Emit.Gen) (v : String), ((Emit.str v).run g).2.pool <+: strings.map StringLit.value →
      ∃ l ∈ strings, ((Emit.str v).run g).1 = .addr l.label ∧ l.value = v ∧
        ∀ l' ∈ strings, l'.label = l.label → l' = l := by
  intro strings collected
  obtain ⟨rs, main, image, -⟩ := (p'.infer hints).generate_eq hints seed
  have same : strings = Emit.poolStrings ((p'.infer hints).finish hints seed).pool :=
    congrArg (fun r => r.1.strings) image
  have values : strings.map StringLit.value = ((p'.infer hints).finish hints seed).pool := by
    rw [same, Emit.pool_of_strings]
  obtain ⟨asked, grown⟩ := (p'.infer hints).pool_finish_any hints seed
  refine ⟨fun i l place => ?_, ?_, ?_, fun apart => ?_, fun g v inside => ?_⟩
  · rw [same, Emit.poolStrings, List.getElem?_mapIdx] at place
    obtain ⟨v, -, rfl⟩ := Option.map_eq_some_iff.mp place
    rfl
  · rw [values, grown]
    exact nodup_foldl_addNew (nodup_foldl_addNew List.nodup_nil _) asked
  · rw [values, grown]
    exact prefix_foldl_addNew _ asked
  · rw [values]
    refine Inference.pool_eq_collected (C := p.setting hints) rfl (fun c => ClassTable.mem_of_mem_ofItems)
      (fun c mem => ((Program.resolves_infer accepted).2 c mem).2) apart seed
  · rw [values] at inside
    obtain ⟨l, mem, named, value⟩ := Emit.str_names inside
    refine ⟨l, same ▸ mem, named, value, fun l' mem' equal => ?_⟩
    exact Emit.label_inj (same ▸ mem') mem equal

/-- A method that calls the one it replaces, and an object that is made in a function. -/
def inherited : String :=
  "class B \x7b func m() \x7b return \"b\"; \x7d \x7d class A extends B \x7b var f: string; " ++
    "func m() \x7b return super.m() + this.f; \x7d \x7d func g(a) \x7b print(a.m()); \x7d g(new A());"

theorem Program.pool_complete_inherited : ∃ p p' hints,
    Program.accept? 0 inherited = some (p, p', hints) ∧
    (p'.generate hints 0).1.strings.map StringLit.value = (p'.infer hints).collected hints := by
  have apart : (Program.accept? 0 inherited).map (fun r => decide (r.2.1.infer r.2.2).Apart) = some true := by
    rewrite [show Program.accept? 0 inherited = _ from Program.accept?_append 0 _ _]
    decide +kernel
  obtain ⟨⟨p, p', hints⟩, accepted, apart⟩ := Option.map_eq_some_iff.mp apart
  exact ⟨p, p', hints, accepted, (Program.pool_complete accepted 0).2.2.2.1 (of_decide_eq_true apart)⟩

/-- A parameter that has the name of a class. -/
def classNamed : String :=
  "class A \x7b static func m() \x7b \x7d \x7d func f(A) \x7b A.m(); print(\"z\"); \x7d"

/-- A walk takes the parameter for the class, whose static method needs no string. The generator calls a
    method of the parameter by its name. -/
theorem Program.pool_grows : ∃ p p' hints, Program.accept? 0 classNamed = some (p, p', hints) ∧
    (p'.infer hints).collected hints = ["__vtable", "z"] ∧
    (p'.generate hints 0).1.strings.map StringLit.value = ["__vtable", "z", "m"] := by
  have pools : (Program.accept? 0 classNamed).map (fun r => ((r.2.1.infer r.2.2).collected r.2.2,
      (r.2.1.generate r.2.2 0).1.strings.map StringLit.value)) = some (["__vtable", "z"], ["__vtable", "z", "m"]) := by
    rewrite [show Program.accept? 0 classNamed = _ from Program.accept?_ofList 0 _]
    decide +kernel
  obtain ⟨⟨p, p', hints⟩, accepted, pools⟩ := Option.map_eq_some_iff.mp pools
  simp only [Prod.mk.injEq] at pools
  exact ⟨p, p', hints, accepted, pools⟩

end Lantern
