import Lantern.Proofs.Labels
import Lantern.Proofs.Settling

/-!
# Prototypes

A routine is declared with the types of its parameters and of its result. When the declarations of a program are
gathered, the hints hold these for every routine under its symbol, because no two routines have the same symbol.
-/

namespace Lantern

/-- The symbols of the methods and constructors of a class. -/
def ClassDecl.routineSymbols (c : ClassDecl) : List String :=
  c.methods.map (Check.methodSymbol c.name) ++ c.ctors.map fun k => SymbolName.ctor c.name k.params.length

/-- What a routine is declared with, by its symbol. -/
structure Prototype where
  /-- The symbol of the routine. -/
  symbol : String
  /-- The types of its parameters, the receiver first where there is one. -/
  params : List Sigil
  /-- The declared type of its result. -/
  result : Option Sigil

/-- The prototypes of the routines that an item declares. -/
def Stmt.prototypes : Stmt → List Prototype
  | .func f => [⟨SymbolName.func f.name, Check.paramSigils f.params, f.result⟩]
  | .class_ c =>
    c.methods.map (fun m => ⟨Check.methodSymbol c.name m,
      (if m.isStatic then [] else [.object c.name]) ++ Check.paramSigils m.params, m.result⟩) ++
    c.ctors.map fun k => ⟨SymbolName.ctor c.name k.params.length, [.object c.name] ++ Check.paramSigils k.params, none⟩
  | _ => []

/-! ## Hints of several routines -/

namespace Hints

/-- Adds prototypes. -/
def addPrototypes (h : Hints) (ps : List Prototype) : Hints :=
  ps.foldl (fun h p => h.addRoutine p.symbol p.params p.result) h

variable {h : Hints} {p : Prototype} {ps qs : List Prototype} {symbol : String}

theorem addPrototypes_append : h.addPrototypes (ps ++ qs) = (h.addPrototypes ps).addPrototypes qs := List.foldl_append

theorem addPrototypes_cons : h.addPrototypes (p :: ps) = (h.addRoutine p.symbol p.params p.result).addPrototypes ps :=
  rfl

@[simp] theorem globals_addPrototypes (h : Hints) (ps : List Prototype) :
    (h.addPrototypes ps).globals = h.globals := by
  induction ps generalizing h with
  | nil => rfl
  | cons p ps ih => rw [addPrototypes_cons, ih]; rfl

@[simp] theorem globalTypes_addPrototypes (h : Hints) (ps : List Prototype) :
    (h.addPrototypes ps).globalTypes = h.globalTypes := by
  induction ps generalizing h with
  | nil => rfl
  | cons p ps ih => rw [addPrototypes_cons, ih]; rfl

theorem get?_params_addRoutine (h : Hints) (symbol other : String) (params : List Sigil) (result : Option Sigil) :
    (h.addRoutine symbol params result).params.get? other =
      if other = symbol then some params else h.params.get? other :=
  Assoc.get?_put _ _ _ _

theorem get?_results_addRoutine (h : Hints) (symbol other : String) (params : List Sigil) (result : Option Sigil) :
    (h.addRoutine symbol params result).results.get? other =
      if other = symbol then result.or (h.results.get? other) else h.results.get? other := by
  cases result with
  | none => simp [addRoutine]
  | some r => exact Assoc.get?_put _ _ _ _

/-- Nothing is found out about other symbols. -/
theorem get?_addPrototypes_of_notMem (other : symbol ∉ ps.map Prototype.symbol) :
    (h.addPrototypes ps).params.get? symbol = h.params.get? symbol ∧
      (h.addPrototypes ps).results.get? symbol = h.results.get? symbol := by
  induction ps generalizing h with
  | nil => exact ⟨rfl, rfl⟩
  | cons p ps ih =>
      rw [List.map_cons, List.mem_cons, not_or] at other
      obtain ⟨params, results⟩ := ih other.2 (h := h.addRoutine p.symbol p.params p.result)
      rw [addPrototypes_cons, params, results, get?_params_addRoutine, get?_results_addRoutine, if_neg other.1,
        if_neg other.1]
      exact ⟨rfl, rfl⟩

/-- Each routine is found with its own prototype if no two have the same symbol. -/
theorem get?_addPrototypes (distinct : (ps.map Prototype.symbol).Nodup) (mem : p ∈ ps)
    (fresh : h.results.get? p.symbol = none) :
    (h.addPrototypes ps).params.get? p.symbol = some p.params ∧
      (h.addPrototypes ps).results.get? p.symbol = p.result := by
  induction ps generalizing h with
  | nil => cases mem
  | cons q ps ih =>
      obtain ⟨first, others⟩ := List.nodup_cons.mp distinct
      rw [addPrototypes_cons]
      rcases List.mem_cons.mp mem with rfl | later
      · obtain ⟨params, results⟩ := get?_addPrototypes_of_notMem first (h := h.addRoutine p.symbol p.params p.result)
        rw [params, results, get?_params_addRoutine, get?_results_addRoutine, if_pos rfl, if_pos rfl, fresh,
          Option.or_none]
        exact ⟨rfl, rfl⟩
      · apply ih others later
        have apart : p.symbol ≠ q.symbol := fun same => first (same ▸ List.mem_map_of_mem later)
        rwa [get?_results_addRoutine, if_neg apart]

end Hints

/-! ## Gathering -/

namespace Check

theorem classHints_eq (h : Hints) (c : ClassDecl) : classHints h c = h.addPrototypes (Stmt.class_ c).prototypes := by
  rw [Stmt.prototypes, Hints.addPrototypes_append, Hints.addPrototypes, Hints.addPrototypes, List.foldl_map,
    List.foldl_map]
  rfl

theorem gives_hints_addFunc (d : Declarations) (f : FuncDecl) :
    (addFunc d f).Gives fun d' => d'.hints = d.hints.addPrototypes (Stmt.func f).prototypes := by
  unfold addFunc
  dsimp only
  split
  · exact Checked.gives_fail.bind (P := fun _ => False) nofun
  · split
    · exact Checked.gives_fail.bind (P := fun _ => False) nofun
    · exact Checked.gives_pure rfl

theorem gives_hints_addClass (d : Declarations) (c : ClassDecl) :
    (addClass d c).Gives fun d' => d'.hints = d.hints.addPrototypes (Stmt.class_ c).prototypes := by
  have fails {β : Type} {Q : β → Prop} {at_ : Span} {message : String} {f : Unit → Checked β} :
      Checked.Gives (Checked.fail at_ message >>= f) Q :=
    Checked.gives_fail.bind (P := fun _ => False) nofun
  unfold addClass
  dsimp only
  split
  · exact fails
  · split
    · exact fails
    · split
      · exact fails
      · split
        · exact fails
        · exact Checked.gives_pure (classHints_eq d.hints c)

/-- What is gathered about routines are their prototypes. -/
theorem gives_hints_gather (d : Declarations) (items : List Stmt) :
    (gather d items).Gives fun d' => d'.hints = d.hints.addPrototypes (items.flatMap Stmt.prototypes) := by
  induction items generalizing d with
  | nil => exact Checked.gives_pure rfl
  | cons s items ih =>
      have rest {d₁ d' : Declarations} (own : d₁.hints = d.hints.addPrototypes s.prototypes)
          (others : d'.hints = d₁.hints.addPrototypes (items.flatMap Stmt.prototypes)) :
          d'.hints = d.hints.addPrototypes ((s :: items).flatMap Stmt.prototypes) := by
        rw [others, own, List.flatMap_cons, Hints.addPrototypes_append]
      cases s with
      | func f => exact (gives_hints_addFunc d f).bind fun d₁ own => (ih d₁).mono fun d' => rest own
      | class_ c => exact (gives_hints_addClass d c).bind fun d₁ own => (ih d₁).mono fun d' => rest own
      | _ => exact (ih d).mono fun d' => rest rfl

end Check

/-! ## Symbols of routines -/

/-- Constructors that take different numbers of arguments are all kept. -/
theorem Emit.perm_ctorsByArity {ks : List Ctor} (distinct : (ks.map fun k => k.params.length).Nodup) :
    (ctorsByArity ks).Perm ks := by
  have kept (ks done : List Ctor) (distinct : ((done ++ ks).map fun k => k.params.length).Nodup) :
      ks.foldl (fun ks k => ks.filter (·.params.length != k.params.length) ++ [k]) done = done ++ ks := by
    induction ks generalizing done with
    | nil => rw [List.foldl_nil, List.append_nil]
    | cons k ks ih =>
        have others : done.filter (·.params.length != k.params.length) = done := by
          rw [List.filter_eq_self]
          intro k' mem
          rw [List.map_append, List.map_cons, List.nodup_append] at distinct
          exact bne_iff_ne.mpr (distinct.2.2 _ (List.mem_map_of_mem mem) _ List.mem_cons_self)
        rw [List.append_cons] at distinct ⊢
        rw [List.foldl_cons, others]
        exact ih (done ++ [k]) distinct
  rw [ctorsByArity, kept ks [] distinct]
  exact List.mergeSort_perm _ _

theorem Emit.text_methodKind (c : ClassDecl) (m : Method) : (methodKind c m).text = Check.methodSymbol c.name m := by
  unfold methodKind Check.methodSymbol
  split <;> rfl

namespace Program

theorem perm_prototypes (p : Program) :
    ((p.items.flatMap Stmt.prototypes).map Prototype.symbol).Perm (p.signatures.map Signature.symbol) := by
  have own (s : Stmt) : s.prototypes.map Prototype.symbol =
      s.funcSignatures.map Signature.symbol ++ s.memberSignatures.map Signature.symbol := by
    cases s with
    | class_ c => simp [Stmt.prototypes, Stmt.funcSignatures, Stmt.memberSignatures, Signature.of, Function.comp_def]
    | _ => rfl
  rw [signatures, List.map_append, List.map_flatMap, List.map_flatMap, List.map_flatMap, funext own]
  exact (List.flatMap_append_perm _ _ _).symm

theorem symbols_signatures (p : Program) : p.signatures.map Signature.symbol =
    (funcsOf p.items).map (fun f => SymbolName.func f.name) ++
      (classesOf p.items).flatMap ClassDecl.routineSymbols := by
  rw [signatures, List.map_append, List.map_flatMap, List.map_flatMap]
  have funcs : p.items.flatMap (fun s => s.funcSignatures.map Signature.symbol) =
      (funcsOf p.items).map fun f => SymbolName.func f.name := by
    induction p.items with
    | nil => rfl
    | cons s items ih =>
        cases s with
        | func f => exact congrArg (SymbolName.func f.name :: ·) ih
        | _ => exact ih
  have members : p.items.flatMap (fun s => s.memberSignatures.map Signature.symbol) =
      (classesOf p.items).flatMap ClassDecl.routineSymbols := by
    induction p.items with
    | nil => rfl
    | cons s items ih =>
        cases s with
        | class_ c =>
            have own : (Stmt.class_ c).memberSignatures.map Signature.symbol = c.routineSymbols := by
              simp [Stmt.memberSignatures, ClassDecl.routineSymbols, Signature.of, Function.comp_def]
            rw [List.flatMap_cons, own, ih]
            rfl
        | _ => exact ih
  rw [funcs, members]

theorem perm_signatures {p : Program} (ctors : ∀ c ∈ classesOf p.items, (c.ctors.map fun k => k.params.length).Nodup) :
    (p.signatures.map Signature.symbol).Perm
      ((Emit.symbols (classesOf p.items) p.items).map SymbolName.Symbol.text) := by
  rw [symbols_signatures, Emit.symbols, List.map_append, List.map_map, List.map_flatMap]
  apply List.Perm.append_left
  apply List.Perm.flatMap_left
  intro c mem
  have arities := (Emit.perm_ctorsByArity (ctors c mem)).map fun k => SymbolName.ctor c.name k.params.length
  simp only [ClassDecl.routineSymbols, Emit.classSymbols, List.map_append, List.map_map, Function.comp_def,
    Emit.text_methodKind]
  exact arities.symm.append_left _

/-- No two routines of a program that passes the checks have the same symbol. -/
theorem nodup_signatures {p : Program} (proper : properAll p.items) {d : Check.Declarations} (distinct : d.Distinct)
    (funcs : d.funcs = funcsOf p.items) (classes : d.classes = classesOf p.items) :
    (p.signatures.map Signature.symbol).Nodup := by
  have own (c : ClassDecl) (mem : c ∈ classesOf p.items) :=
    Stmt.proper_class.mp (properAll_iff.mp proper _ (mem_classesOf.mp mem))
  have named : Inference.Distinct ⟨p, ⟨[], [], []⟩, classesOf p.items⟩ := {
    funcs := funcs ▸ distinct.funcs
    funcNames := fun f mem => identifier_of_mem_funcsOf proper mem
    classes := classes ▸ distinct.classes
    classNames := fun c mem => (own c mem).1
    methods := fun c mem => distinct.methods c (classes ▸ mem)
    methodNames := fun c mem m inside => (properMethods_iff.mp (own c mem).2.2.1 m inside).1
    fieldNames := fun c mem f inside => ((own c mem).2.1 f inside).1 }
  rw [(perm_signatures fun c mem => distinct.ctors c (classes ▸ mem)).nodup_iff]
  exact named.nodup_names

end Program

end Lantern
