import Mathlib
import Lantern.Proofs.Erasure
import Lantern.Proofs.Reading

/-!
# What checked programs declare

The functions and classes of a program that passes the checks have names of their own, and so have the
members of each class. The bases of a class are classes of the program and come to an end.
-/

namespace Lantern

/-- The functions among the items of a program. -/
def funcsOf (items : List Stmt) : List FuncDecl :=
  items.filterMap fun
    | .func f => some f
    | _ => none

/-- The classes among the items of a program. -/
def classesOf (items : List Stmt) : List ClassDecl :=
  items.filterMap fun
    | .class_ c => some c
    | _ => none

/-! ## Chains of bases -/

namespace ClassTable

/-- A class of the given name and its bases, nearest first, down to one without a base. -/
inductive Chain (t : ClassTable) : String → List ClassDecl → Prop
  | stop {name : String} (unknown : t.get? name = none) : Chain t name []
  | base {name : String} {c : ClassDecl} {cs : List ClassDecl} (known : t.get? name = some c)
      (rest : Chain t c.base cs) : Chain t name (c :: cs)

variable {t : ClassTable} {name : String} {cs : List ClassDecl}

theorem name_of_get? {c : ClassDecl} (known : t.get? name = some c) : c.name = name := by
  simpa using List.find?_some known

theorem mem_of_get? {c : ClassDecl} (known : t.get? name = some c) : c ∈ t :=
  List.mem_of_find?_eq_some known

theorem Chain.unique {cs' : List ClassDecl} (chain : Chain t name cs) (other : Chain t name cs') :
    cs = cs' := by
  induction chain generalizing cs' with
  | stop unknown =>
      cases other with
      | stop => rfl
      | base known => rw [unknown] at known; cases known
  | base known rest ih =>
      cases other with
      | stop unknown => rw [unknown] at known; cases known
      | base known' rest' =>
          obtain rfl := Option.some.inj (known.symm.trans known')
          rw [ih rest']

/-- A chain holds the chains of its classes. -/
theorem Chain.suffix (chain : Chain t name cs) {c : ClassDecl} (mem : c ∈ cs) :
    ∃ ds, Chain t c.name (c :: ds) ∧ c :: ds <:+ cs := by
  induction chain with
  | stop => cases mem
  | @base name d ds known rest ih =>
      rcases List.mem_cons.mp mem with rfl | later
      · rw [name_of_get? known]
        exact ⟨ds, .base known rest, List.suffix_rfl⟩
      · obtain ⟨es, chain, suffix⟩ := ih later
        exact ⟨es, chain, suffix.trans (List.suffix_cons _ _)⟩

theorem Chain.mem (chain : Chain t name cs) : ∀ c ∈ cs, t.get? c.name = some c := by
  intro c mem
  obtain ⟨ds, own, -⟩ := chain.suffix mem
  cases own with
  | base known => exact known

/-- No class is met twice: the chain from there on would be longer than itself. -/
theorem Chain.names_nodup (chain : Chain t name cs) : (cs.map ClassDecl.name).Nodup := by
  induction chain with
  | stop => exact List.nodup_nil
  | @base name c cs known rest ih =>
      refine List.nodup_cons.mpr ⟨fun again => ?_, ih⟩
      obtain ⟨d, mem, same⟩ := List.mem_map.mp again
      obtain ⟨ds, chain, suffix⟩ := rest.suffix mem
      have whole : Chain t d.name (c :: cs) := by
        rw [same, name_of_get? known]
        exact .base known rest
      have := suffix.length_le
      rw [← whole.unique chain] at this
      simp at this

theorem Chain.length_le (chain : Chain t name cs) : cs.length ≤ t.length := by
  have nodup : cs.Nodup := chain.names_nodup.of_map
  exact (nodup.subperm fun c mem => mem_of_get? (chain.mem c mem)).length_le

theorem Chain.lineageFrom_eq (chain : Chain t name cs) {bound : Nat} {seen : List String}
    (enough : cs.length ≤ bound) (fresh : ∀ c ∈ cs, c.name ∉ seen) :
    lineageFrom t bound seen name = cs := by
  induction chain generalizing bound seen with
  | stop unknown =>
      cases bound with
      | zero => rfl
      | succ bound =>
          unfold lineageFrom
          split
          · rfl
          · rw [unknown]
  | @base name c cs known rest ih =>
      obtain ⟨bound, rfl⟩ : ∃ n, bound = n + 1 := ⟨bound - 1, by simp at enough; omega⟩
      have own := name_of_get? known
      have unseen : ¬ seen.contains name := by simpa [own] using fresh c List.mem_cons_self
      have distinct := (Chain.base known rest).names_nodup
      rw [List.map_cons, List.nodup_cons] at distinct
      rw [lineageFrom, if_neg unseen, known]
      refine congrArg (c :: ·) (ih (by simpa using enough) fun d mem => ?_)
      rw [List.mem_cons, not_or]
      refine ⟨fun same => distinct.1 ?_, fresh d (List.mem_cons_of_mem _ mem)⟩
      rw [own, ← same]
      exact List.mem_map_of_mem mem

/-- The walk over a class and its bases meets the whole chain. -/
theorem Chain.lineage_eq (chain : Chain t name cs) : t.lineage name = cs :=
  chain.lineageFrom_eq chain.length_le (by simp)

end ClassTable

/-! ## Declarations -/

namespace Check

open ClassTable

/-- What is declared has names of its own. -/
structure Declarations.Distinct (d : Declarations) : Prop where
  funcs : (d.funcs.map FuncDecl.name).Nodup
  library : ∀ f ∈ d.funcs, ¬ isLibrary f.name
  classes : (d.classes.map ClassDecl.name).Nodup
  fields : ∀ c ∈ d.classes, (c.fields.map Field.name).Nodup
  methods : ∀ c ∈ d.classes, (c.methods.map Method.name).Nodup
  ctors : ∀ c ∈ d.classes, (c.ctors.map fun k => k.params.length).Nodup

theorem nodup_of_firstRepeated? {α β : Type} [BEq β] [LawfulBEq β] {key : α → β} {seen : List β}
    {xs : List α} (none_ : firstRepeated? key seen xs = none) :
    (xs.map key).Nodup ∧ ∀ x ∈ xs, key x ∉ seen := by
  induction xs generalizing seen with
  | nil => exact ⟨List.nodup_nil, nofun⟩
  | cons x xs ih =>
      unfold firstRepeated? at none_
      split at none_
      · cases none_
      · next fresh =>
          obtain ⟨nodup, others⟩ := ih none_
          refine ⟨List.nodup_cons.mpr ⟨fun again => ?_, nodup⟩, List.forall_mem_cons.mpr ⟨?_, fun y mem => ?_⟩⟩
          · obtain ⟨y, mem, same⟩ := List.mem_map.mp again
            exact others y mem (by simp [same])
          · simpa using fresh
          · exact fun old => others y mem (List.mem_cons_of_mem _ old)

theorem nodup_concat {xs : List String} {x : String} (nodup : xs.Nodup) (fresh : x ∉ xs) :
    (xs ++ [x]).Nodup := by
  rw [List.nodup_append_comm]
  exact List.nodup_cons.mpr ⟨fresh, nodup⟩

theorem gives_addFunc {d : Declarations} (distinct : d.Distinct) (f : FuncDecl) :
    (addFunc d f).Gives fun d' =>
      d'.Distinct ∧ d'.funcs = d.funcs ++ [f] ∧ d'.classes = d.classes := by
  unfold addFunc
  dsimp only
  split
  · exact Checked.gives_fail.bind (P := fun _ => False) nofun
  · next notLibrary =>
      split
      · exact Checked.gives_fail.bind (P := fun _ => False) nofun
      · next unknown =>
          refine Checked.gives_pure ⟨{ distinct with funcs := ?_, library := ?_ }, rfl, rfl⟩
          · rw [List.map_append]
            refine nodup_concat distinct.funcs fun again => unknown ?_
            obtain ⟨g, mem, same⟩ := List.mem_map.mp again
            exact List.find?_isSome.mpr ⟨g, mem, by simp [same]⟩
          · intro g mem
            rcases List.mem_append.mp mem with old | new
            · exact distinct.library g old
            · obtain rfl := List.mem_singleton.mp new
              exact notLibrary

theorem gives_addClass {d : Declarations} (distinct : d.Distinct) (c : ClassDecl) :
    (addClass d c).Gives fun d' =>
      d'.Distinct ∧ d'.funcs = d.funcs ∧ d'.classes = d.classes ++ [c] := by
  have fails {β : Type} {Q : β → Prop} {at_ : Span} {message : String} {f : Unit → Checked β} :
      Checked.Gives (Checked.fail at_ message >>= f) Q :=
    Checked.gives_fail.bind (P := fun _ => False) nofun
  have each {P : ClassDecl → Prop} (old : ∀ e ∈ d.classes, P e) (new : P c) :
      ∀ e ∈ d.classes ++ [c], P e := by
    simpa [or_imp, forall_and] using ⟨old, new⟩
  unfold addClass
  dsimp only
  split
  · exact fails
  · next unknown =>
      split
      · exact fails
      · next noField =>
          split
          · exact fails
          · next noMethod =>
              split
              · exact fails
              · next noCtor =>
                  have added : d.classes.add c = d.classes ++ [c] := if_neg unknown
                  refine Checked.gives_pure ⟨?_, rfl, added⟩
                  constructor <;> dsimp only
                  case funcs => exact distinct.funcs
                  case library => exact distinct.library
                  all_goals rw [added]
                  case classes =>
                    rw [List.map_append]
                    refine nodup_concat distinct.classes fun again => unknown ?_
                    obtain ⟨e, mem, same⟩ := List.mem_map.mp again
                    exact List.any_eq_true.mpr ⟨e, mem, by simp [same]⟩
                  case fields => exact each distinct.fields (nodup_of_firstRepeated? (Option.eq_none_iff_forall_ne_some.mpr noField)).1
                  case methods =>
                    exact each distinct.methods (nodup_of_firstRepeated? (Option.eq_none_iff_forall_ne_some.mpr noMethod)).1
                  case ctors => exact each distinct.ctors (nodup_of_firstRepeated? (Option.eq_none_iff_forall_ne_some.mpr noCtor)).1

theorem gives_gather {d : Declarations} (distinct : d.Distinct) (items : List Stmt) :
    (gather d items).Gives fun d' =>
      d'.Distinct ∧ d'.funcs = d.funcs ++ funcsOf items ∧ d'.classes = d.classes ++ classesOf items := by
  induction items generalizing d with
  | nil => exact Checked.gives_pure ⟨distinct, by simp [funcsOf], by simp [classesOf]⟩
  | cons s items ih =>
      cases s with
      | func f =>
          refine (gives_addFunc distinct f).bind fun d' ⟨own, funcs, classes⟩ => (ih own).mono ?_
          rintro d'' ⟨all, funcs', classes'⟩
          exact ⟨all, by simp [funcs', funcs, funcsOf], by simp [classes', classes, classesOf]⟩
      | class_ c =>
          refine (gives_addClass distinct c).bind fun d' ⟨own, funcs, classes⟩ => (ih own).mono ?_
          rintro d'' ⟨all, funcs', classes'⟩
          exact ⟨all, by simp [funcs', funcs, funcsOf], by simp [classes', classes, classesOf]⟩
      | _ => exact ih distinct

/-! ## Bases -/

/-- The bases of a class come to an end, and its name is no function's. -/
def Grounded (d : Declarations) (c : ClassDecl) : Prop :=
  d.func? c.name = none ∧ baseFault? d.classes (d.classes.length + 1) [c.name] c.base = none

theorem gives_checkBases (d : Declarations) (c : ClassDecl) :
    (checkBases d c).Gives fun _ => Grounded d c := by
  unfold checkBases
  dsimp only
  split
  · exact Checked.gives_fail.bind (P := fun _ => False) nofun
  · next unknown =>
      split
      · exact Checked.gives_fail
      · exact Checked.gives_fail
      · next grounded => exact fun _ _ _ => ⟨by simpa using unknown, grounded⟩

theorem gives_checkHierarchy (d : Declarations) (order : List ClassDecl) :
    (checkHierarchy d order).Gives fun _ => ∀ c ∈ order, Grounded d c := by
  induction order with
  | nil => exact fun _ _ _ => nofun
  | cons c cs ih =>
      refine (gives_checkBases d c).bind fun _ first => ih.mono fun _ rest => ?_
      exact List.forall_mem_cons.mpr ⟨first, rest⟩

theorem chain_of_baseFault? {t : ClassTable} (named : t.get? "" = none) {bound : Nat}
    {seen : List String} {base : String} (none_ : baseFault? t bound seen base = none) :
    ∃ cs, Chain t base cs := by
  induction bound generalizing seen base with
  | zero => cases none_
  | succ bound ih =>
      unfold baseFault? at none_
      split at none_
      · next empty =>
          obtain rfl : base = "" := by simpa using empty
          exact ⟨[], .stop named⟩
      · split at none_
        · cases none_
        · next b known =>
            split at none_
            · cases none_
            · obtain ⟨cs, chain⟩ := ih none_
              exact ⟨b :: cs, .base known chain⟩

end Check

/-! ## Class tables of checked programs -/

/-- The classes of a program that passes the checks. -/
structure ClassTable.Sound (t : ClassTable) : Prop where
  names : (t.map ClassDecl.name).Nodup
  identifiers : ∀ c ∈ t, Identifier c.name
  methodNames : ∀ c ∈ t, ∀ m ∈ c.methods, Identifier m.name
  methods : ∀ c ∈ t, (c.methods.map Method.name).Nodup
  chains : ∀ c ∈ t, ∃ cs, ClassTable.Chain t c.name cs

theorem ClassTable.get?_of_mem {t : ClassTable} (names : (t.map ClassDecl.name).Nodup)
    {c : ClassDecl} (mem : c ∈ t) : t.get? c.name = some c := by
  induction t with
  | nil => cases mem
  | cons d t ih =>
      rw [List.map_cons, List.nodup_cons] at names
      unfold get?
      rw [List.find?_cons]
      rcases List.mem_cons.mp mem with rfl | later
      · simp
      · have other : d.name ≠ c.name := fun same => names.1 (same ▸ List.mem_map_of_mem later)
        rw [beq_eq_false_iff_ne.mpr other]
        exact ih names.2 later

theorem properMethods_iff {ms : List Method} : properMethods ms ↔
    ∀ m ∈ ms, Identifier m.name ∧ (∀ p ∈ m.params, Identifier p.name) ∧ m.body.Proper := by
  induction ms with
  | nil => simp [properMethods]
  | cons m ms ih => cases m; simp [properMethods, ih, and_assoc]

theorem properCtors_iff {ks : List Ctor} : properCtors ks ↔
    ∀ k ∈ ks, (∀ p ∈ k.params, Identifier p.name) ∧ k.body.Proper := by
  induction ks with
  | nil => simp [properCtors]
  | cons k ks ih => cases k; simp [properCtors, ih, and_assoc]

theorem Stmt.proper_func {f : FuncDecl} : (Stmt.func f).Proper ↔
    Identifier f.name ∧ (∀ p ∈ f.params, Identifier p.name) ∧ f.body.Proper := by
  cases f
  exact Iff.rfl

theorem Stmt.proper_class {c : ClassDecl} : (Stmt.class_ c).Proper ↔ Identifier c.name ∧
    (∀ f ∈ c.fields, Identifier f.name ∧ ∀ e ∈ f.init, e.Proper) ∧ properMethods c.methods ∧
    properCtors c.ctors := by
  cases c
  exact Iff.rfl

theorem properAll_iff {ss : List Stmt} : properAll ss ↔ ∀ s ∈ ss, s.Proper := by
  induction ss with
  | nil => simp [properAll]
  | cons s ss ih => simp [properAll, ih]

theorem mem_classesOf {items : List Stmt} {c : ClassDecl} : c ∈ classesOf items ↔ .class_ c ∈ items := by
  simp only [classesOf, List.mem_filterMap]
  constructor
  · rintro ⟨s, mem, eq⟩
    cases s with
    | class_ d => cases eq; exact mem
    | _ => cases eq
  · exact fun mem => ⟨_, mem, rfl⟩

theorem Check.Declarations.distinct_empty : Check.Declarations.empty.Distinct :=
  ⟨List.nodup_nil, nofun, List.nodup_nil, nofun, nofun, nofun⟩

/-- What is declared by a program that passes the checks. -/
theorem Program.gives_declared (p : Program) (proper : properAll p.items) :
    p.check.Gives fun _ => ∃ d : Check.Declarations, d.Distinct ∧ d.funcs = funcsOf p.items ∧
      d.classes = classesOf p.items ∧ (∀ c ∈ d.classes, Check.Grounded d c) ∧ d.classes.Sound := by
  refine (Check.gives_gather Check.Declarations.distinct_empty p.items).bind fun d ⟨distinct, funcs, classes⟩ =>
    (Check.gives_checkHierarchy d d.classes).bind fun _ grounded => Checked.gives_true.bind fun _ _ =>
      Checked.gives_pure ?_
  have classes : d.classes = classesOf p.items := classes
  have own (c : ClassDecl) (mem : c ∈ d.classes) :=
    Stmt.proper_class.mp (properAll_iff.mp proper _ (mem_classesOf.mp (classes ▸ mem)))
  have unnamed : d.classes.get? "" = none := by
    refine List.find?_eq_none.mpr fun c mem empty => (own c mem).1.nonempty ?_
    simpa using empty
  refine ⟨d, distinct, funcs, classes, grounded, distinct.classes, fun c mem => (own c mem).1,
    fun c mem m inside => (properMethods_iff.mp (own c mem).2.2.1 m inside).1, distinct.methods,
    fun c mem => ?_⟩
  obtain ⟨cs, chain⟩ := Check.chain_of_baseFault? unnamed (grounded c mem).2
  exact ⟨c :: cs, .base (ClassTable.get?_of_mem distinct.classes mem) chain⟩

/-! ## Accepted programs -/

/-- The program a text spells, what checking makes of it, and the hints, if there is no error. -/
def Program.accept? (file : Nat) (source : String) : Option (Program × Program × Hints) := do
  let tokens ← (Token.readAll file source).outcome.1
  let p ← (Program.ofTokens tokens).outcome.1
  let (p', hints) ← p.check.outcome.1
  return (p, p', hints)

/-- A text is read from its characters. Where a text is given the kernel comes to them much faster this way than by
    decoding it. -/
theorem Program.accept?_ofList (file : Nat) (cs : List Char) : accept? file (String.ofList cs) = (do
    let tokens ← (Token.readFrom file (cs.length + 1) Mark.start cs).outcome.1
    let p ← (Program.ofTokens tokens).outcome.1
    let (p', hints) ← p.check.outcome.1
    return (p, p', hints)) := by
  rw [accept?, Token.readAll, String.toList_ofList]

theorem Program.accept?_append (file : Nat) (cs ds : List Char) :
    accept? file (String.ofList cs ++ String.ofList ds) = (do
    let tokens ← (Token.readFrom file ((cs ++ ds).length + 1) Mark.start (cs ++ ds)).outcome.1
    let p ← (Program.ofTokens tokens).outcome.1
    let (p', hints) ← p.check.outcome.1
    return (p, p', hints)) := by
  rw [← String.ofList_append, accept?_ofList]

theorem Program.of_accept? {file : Nat} {source : String} {p p' : Program} {hints : Hints}
    (accepted : Program.accept? file source = some (p, p', hints)) :
    properAll p.items ∧ p.check.outcome.1 = some (p', hints) := by
  simp only [accept?, Option.bind_eq_bind, Option.bind_eq_some_iff] at accepted
  obtain ⟨tokens, read, q, parsed, ⟨q', hints'⟩, checked, same⟩ := accepted
  obtain ⟨rfl, rfl, rfl⟩ : q = p ∧ q' = p' ∧ hints' = hints := by simpa using same
  have named := (Token.gives_readAll file source).of_outcome read
  exact ⟨(Program.gives_ofTokens named).of_outcome parsed, checked⟩

end Lantern
