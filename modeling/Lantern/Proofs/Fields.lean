import Lantern.Proofs.MethodTables
import Lantern.Proofs.References

/-!
# Fields of classes and objects

The checker looks for static and instance fields together, nearest class first. Generated code keeps the two
apart: a static field is a word of the class that declares it, and an object holds the instance fields of its
class and the bases, each by its most derived declaration. A field that is found is where code reads it as
long as it is of the kind that is read, which the checker makes sure of only where a class is named.
-/

namespace Lantern

/-! ## Nearest fields -/

namespace ClassTable

/-- The class itself declares a field of the given name. -/
def hasField (name : String) (c : ClassDecl) : Prop := ∃ f ∈ c.fields, f.name = name

/-- The class itself declares a field of the given name for its objects. -/
def hasOwnField (name : String) (c : ClassDecl) : Prop :=
  ∃ f ∈ c.fields, f.name = name ∧ f.isStatic = false

/-- The fields of objects for classes given nearest first. -/
def fieldsOf (cs : List ClassDecl) : List Field :=
  (cs.reverse.flatMap fun c => c.fields.filter (!·.isStatic)).foldl (upsert Field.name) []

theorem fieldsOf_cons (c : ClassDecl) (cs : List ClassDecl) :
    fieldsOf (c :: cs) = (c.fields.filter (!·.isStatic)).foldl (upsert Field.name) (fieldsOf cs) := by
  simp [fieldsOf, List.flatMap_append]

theorem flatFields_eq (t : ClassTable) (name : String) : t.flatFields name = fieldsOf (t.lineage name) :=
  rfl

theorem get?_of_mem_flatFields {t : ClassTable} {f : Field} {name : String} (mem : f ∈ t.flatFields name) :
    ∃ c, t.get? name = some c := by
  by_contra unknown
  have unknown : t.get? name = none := Option.eq_none_iff_forall_ne_some.mpr fun c known => unknown ⟨c, known⟩
  have empty (bound : Nat) : t.lineageFrom bound [] name = [] := by
    cases bound with
    | zero => rfl
    | succ bound => simp [lineageFrom, unknown]
  rw [flatFields_eq, lineage, empty] at mem
  cases mem

theorem nodup_fieldsOf (cs : List ClassDecl) : ((fieldsOf cs).map Field.name).Nodup :=
  nodup_foldl_upsert List.nodup_nil

theorem mem_names_own {c : ClassDecl} {name : String} :
    name ∈ (c.fields.filter (!·.isStatic)).map Field.name ↔ hasOwnField name c := by
  simp only [hasOwnField, List.mem_map, List.mem_filter, Bool.not_eq_true']
  exact exists_congr fun f => by tauto

variable {t : ClassTable} {cls name : String} {cs : List ClassDecl} {f : Field}

/-- An object holds the nearest declaration of each field. -/
theorem Chain.mem_fieldsOf (chain : Chain t cls cs) (distinct : ∀ c ∈ cs, (c.fields.map Field.name).Nodup) :
    f ∈ fieldsOf cs ↔ ∃ k, Nearest t (hasOwnField f.name) cls k ∧ f ∈ k.fields ∧ f.isStatic = false := by
  induction chain with
  | stop unknown =>
      refine ⟨nofun, ?_⟩
      rintro ⟨k, nearest, -⟩
      cases nearest with
      | here known | above known => rw [unknown] at known; cases known
  | @base cls c cs known rest ih =>
      obtain ⟨own, others⟩ := List.forall_mem_cons.mp distinct
      have nodup := own.sublist (List.filter_sublist (p := (!·.isStatic)).map Field.name)
      rw [fieldsOf_cons, mem_foldl_upsert nodup, ih others, mem_names_own, List.mem_filter, Bool.not_eq_true']
      constructor
      · rintro (⟨inside, isOwn⟩ | ⟨⟨k, nearest, inside, isOwn⟩, absent⟩)
        · exact ⟨c, .here known ⟨f, inside, rfl, isOwn⟩, inside, isOwn⟩
        · exact ⟨k, .above known absent nearest, inside, isOwn⟩
      · rintro ⟨k, nearest, inside, isOwn⟩
        cases nearest with
        | here known' declared =>
            obtain rfl := Option.some.inj (known.symm.trans known')
            exact .inl ⟨inside, isOwn⟩
        | above known' absent nearest =>
            obtain rfl := Option.some.inj (known.symm.trans known')
            exact .inr ⟨⟨k, nearest, inside, isOwn⟩, absent⟩

/-- The search of the checker stops at the nearest class with a field of the name, of either kind. -/
theorem Chain.nearest_of_findField (chain : Chain t cls cs)
    (found : (cs.findSome? fun c => c.fields.find? (·.name == name)) = some f) :
    f.name = name ∧ ∃ k, Nearest t (hasField name) cls k ∧ f ∈ k.fields := by
  induction chain with
  | stop => cases found
  | @base cls c cs known rest ih =>
      rw [List.findSome?_cons] at found
      cases own : c.fields.find? (·.name == name) with
      | some g =>
          rw [own] at found
          obtain rfl := Option.some.inj found
          have inside := List.mem_of_find?_eq_some own
          have called : g.name = name := by simpa using List.find?_some own
          exact ⟨called, c, .here known ⟨g, inside, called⟩, inside⟩
      | none =>
          rw [own] at found
          have absent : ∀ g ∈ c.fields, g.name ≠ name := by simpa using own
          obtain ⟨called, k, nearest, inside⟩ := ih found
          refine ⟨called, k, .above known ?_ nearest, inside⟩
          rintro ⟨g, mem, same⟩
          exact absent g mem same

/-- The nearest class with a field is the nearest with an instance field if the field found is one. -/
theorem Nearest.own {k : ClassDecl} (nearest : Nearest t (hasField name) cls k) (called : f.name = name)
    (inside : f ∈ k.fields) (isOwn : f.isStatic = false) : Nearest t (hasOwnField name) cls k := by
  induction nearest with
  | here known => exact .here known ⟨f, inside, called, isOwn⟩
  | above known absent _ ih =>
      refine .above known ?_ (ih inside)
      rintro ⟨g, mem, same, -⟩
      exact absent ⟨g, mem, same⟩

theorem Chain.find?_static (chain : Chain t cls cs) {k : ClassDecl} (nearest : Nearest t (hasField name) cls k)
    (called : f.name = name) (inside : f ∈ k.fields) (isStatic : f.isStatic) :
    (cs.find? fun c => c.fields.any fun f => f.isStatic && f.name == name) = some k := by
  induction chain with
  | stop unknown =>
      cases nearest with
      | here known | above known => rw [unknown] at known; cases known
  | @base cls c cs known rest ih =>
      cases nearest with
      | here known' =>
          obtain rfl := Option.some.inj (known.symm.trans known')
          refine List.find?_cons_of_pos (List.any_eq_true.mpr ⟨f, inside, ?_⟩)
          simp [isStatic, called]
      | above known' absent nearest =>
          obtain rfl := Option.some.inj (known.symm.trans known')
          rw [List.find?_cons_of_neg, ih nearest]
          intro found
          obtain ⟨g, mem, same⟩ := List.any_eq_true.mp found
          rw [Bool.and_eq_true, beq_iff_eq] at same
          exact absent ⟨g, mem, same.2⟩

/-! ### Fields of erased classes -/

theorem upsert_erase (xs : List Field) (f : Field) :
    upsert Field.name (xs.map Field.erase) f.erase = (upsert Field.name xs f).map Field.erase := by
  have called (f : Field) : f.erase.name = f.name := rfl
  simp only [upsert, List.any_map, Function.comp_def, called]
  split
  · rw [List.map_map, List.map_map]
    refine List.map_congr_left fun g _ => ?_
    simp only [Function.comp_apply, called]
    split <;> rfl
  · rw [List.map_append, List.map_singleton]

theorem fieldsOf_erase (cs : List ClassDecl) :
    fieldsOf (cs.map ClassDecl.erase) = (fieldsOf cs).map Field.erase := by
  have fold (fs xs : List Field) : (fs.map Field.erase).foldl (upsert Field.name) (xs.map Field.erase) =
      (fs.foldl (upsert Field.name) xs).map Field.erase := by
    induction fs generalizing xs with
    | nil => rfl
    | cons f fs ih => rw [List.map_cons, List.foldl_cons, upsert_erase, ih, List.foldl_cons]
  have own (c : ClassDecl) : c.erase.fields.filter (!·.isStatic) =
      (c.fields.filter (!·.isStatic)).map Field.erase := by
    simp only [ClassDecl.erase, List.filter_map]
    rfl
  simp only [fieldsOf, ← List.map_reverse, List.flatMap_map, own]
  rw [← List.map_flatMap]
  exact fold _ []

theorem flatFields_erase (t : ClassTable) (name : String) :
    flatFields (t.map ClassDecl.erase) name = (t.flatFields name).map Field.erase := by
  rw [flatFields_eq, flatFields_eq, lineage_erase, fieldsOf_erase]

/-- The field of an object under a name. -/
def objectField? (t : ClassTable) (cls name : String) : Option Field :=
  (t.flatFields cls).find? (·.name == name)

theorem objectField?_erase (t : ClassTable) (cls name : String) :
    objectField? (t.map ClassDecl.erase) cls name = (t.objectField? cls name).map Field.erase := by
  rw [objectField?, flatFields_erase, List.find?_map]
  rfl

end ClassTable

theorem find?_of_mem {α : Type} {key : α → String} {xs : List α} (nodup : (xs.map key).Nodup) {x : α} (mem : x ∈ xs) :
    xs.find? (key · == key x) = some x := by
  induction xs with
  | nil => cases mem
  | cons y ys ih =>
      rw [List.map_cons, List.nodup_cons] at nodup
      rcases List.mem_cons.mp mem with rfl | later
      · simp
      · have other : key y ≠ key x := fun same => nodup.1 (same ▸ List.mem_map_of_mem later)
        rw [List.find?_cons_of_neg (by simpa using other), ih nodup.2 later]

namespace ClassTable

variable {t : ClassTable} {cls name : String} {f : Field}

/-- What the checker finds is a word of the class where it is found if it is static, and what an object
    holds under the name exactly if it is not. -/
theorem Sound.of_findField? (sound : t.Sound) (distinct : ∀ c ∈ t, (c.fields.map Field.name).Nodup)
    (found : t.findField? cls name = some f) : ∃ k, Nearest t (hasField name) cls k ∧ f ∈ k.fields ∧
      (f.isStatic → t.staticField? cls name = some (SymbolName.staticField k.name name)) ∧
      (f.isStatic = false ↔ (t.objectField? cls name).map Field.erase = some f.erase) := by
  have chain := sound.chain_lineage cls
  have own (c : ClassDecl) (mem : c ∈ t.lineage cls) := distinct c (mem_of_get? (chain.mem c mem))
  obtain ⟨called, k, nearest, inside⟩ := chain.nearest_of_findField found
  refine ⟨k, nearest, inside, fun isStatic => ?_, fun isOwn => ?_, fun same => ?_⟩
  · rw [staticField?, chain.find?_static nearest called inside isStatic]
    rfl
  · have mem := (chain.mem_fieldsOf own).mpr ⟨k, called ▸ nearest.own called inside isOwn, inside, isOwn⟩
    rw [objectField?, ← called, flatFields_eq, find?_of_mem (nodup_fieldsOf _) mem]
    rfl
  · obtain ⟨g, held, same⟩ := Option.map_eq_some_iff.mp same
    obtain ⟨-, -, -, isOwn⟩ := (chain.mem_fieldsOf own).mp (List.mem_of_find?_eq_some held)
    exact (congrArg Field.isStatic same).symm.trans isOwn

end ClassTable

/-! ## What the checker finds -/

namespace Check

variable {α β : Type}

/-- A step of checking that is started in a state ends with a result in another. -/
def Yields (x : Checking α) (st : State) (a : α) (st' : State) : Prop :=
  ∃ log log', StateT.run (ExceptT.run (x.run st)) log = (.ok (a, st'), log')

section Yields

variable {x : Checking α} {f : α → Checking β} {st st' : State} {a : α} {b : β}

theorem Yields.of_bind (yields : Yields (x >>= f) st b st') :
    ∃ a st₁, Yields x st a st₁ ∧ Yields (f a) st₁ b st' := by
  obtain ⟨log, log', run⟩ := yields
  rw [StateT.run_bind, Checked.run_bind] at run
  cases first : StateT.run (ExceptT.run (x.run st)) log with
  | mk r log₁ =>
      rw [first] at run
      cases r with
      | ok r => exact ⟨r.1, r.2, ⟨log, log₁, first⟩, log₁, log', run⟩
      | error d => cases run

theorem Yields.of_pure {c : α} (yields : Yields (pure c) st a st') : c = a ∧ st = st' := by
  obtain ⟨log, log', run⟩ := yields
  cases run
  exact ⟨rfl, rfl⟩

theorem not_yields_fail {at_ : Span} {message : String} : ¬ Yields (fail at_ message : Checking α) st a st' := by
  rintro ⟨log, log', run⟩
  cases run

theorem not_yields_refused {at_ : Span} {message : String} : ¬ Yields (fail at_ message >>= f) st b st' :=
  fun yields => have ⟨_, _, failed, _⟩ := yields.of_bind; not_yields_fail failed

end Yields

/-- An expression is a bare name that no scope holds. -/
def NamesClass (scopes : List Scope) (e : Expr) : Prop := ∃ name, e.identName? = some name ∧ lookup? scopes name = none

theorem Yields.of_isClassRef {e : Expr} {b : Bool} {st st' : State} (yields : Yields (isClassRef e) st b st') :
    st = st' ∧ (b = true ↔ NamesClass st.scopes e) := by
  unfold isClassRef at yields
  split at yields
  · next i name =>
      obtain ⟨log, log', run⟩ := yields
      cases run
      refine ⟨rfl, ?_⟩
      simp [NamesClass, Expr.identName?]
  · next other =>
      obtain ⟨rfl, rfl⟩ := yields.of_pure
      refine ⟨rfl, fun named => absurd named Bool.false_ne_true, ?_⟩
      rintro ⟨name, isName, -⟩
      unfold Expr.identName? at isName
      split at isName
      · exact (other _ _ rfl).elim
      · cases isName

/-- The type that a field is declared with or that its initial value shows. -/
def fieldType (f : Field) : Option Sigil := f.type.or (f.init.bind literalType)

variable {ctx : Context} {st st' : State} {name : String} {s : Sigil}

/-- Where a member has a type, its receiver is an object of a class through which a field of that type is
    found, and if the receiver is the name of a class, the field is static. -/
theorem Yields.of_memberType {at_ : Span} {object : Expr} {type : Option Sigil}
    (yields : Yields (memberType ctx at_ object type name) st (some s) st') :
    ∃ cls f, type = some (.object cls) ∧ ctx.classes.findField? cls name = some f ∧ fieldType f = some s ∧
      (NamesClass st.scopes object → f.isStatic) := by
  unfold memberType at yields
  split at yields
  · cases yields.of_pure.1
  · next cls receiver =>
      obtain ⟨classRef, st₁, decided, yields⟩ := yields.of_bind
      obtain ⟨rfl, decides⟩ := decided.of_isClassRef
      have object : type = some (.object cls) := by
        unfold receiverClass? at receiver
        split at receiver
        · split at receiver
          · cases receiver
          · rw [Option.some.inj receiver]
        · cases receiver
      split at yields
      · dsimp only at yields
        split at yields
        · obtain ⟨_, _, -, yields⟩ := yields.of_bind
          cases yields.of_pure.1
        · cases yields.of_pure.1
      · next f found =>
          refine ⟨cls, f, object, found, ?_⟩
          dsimp only at yields
          split at yields
          · exact (not_yields_refused yields).elim
          · next allowed =>
              constructor
              · unfold fieldType
                split at yields
                · next type declared => rw [declared, ← yields.of_pure.1]; rfl
                · next undeclared => rw [undeclared, yields.of_pure.1]; rfl
              · intro names
                rw [decides.mpr names] at allowed
                simpa using allowed

/-- A member access that has a type: its receiver is checked first. -/
theorem Yields.of_member {i : Info} {o e : Expr} (yields : Yields (expr ctx (.member i o name)) st (e, some s) st') :
    ∃ o' type st₁, e = .member { i with resolved := some s } o' name ∧ Yields (expr ctx o) st (o', type) st₁ ∧
      Yields (memberType ctx i.span o' type name) st₁ (some s) st' := by
  unfold expr at yields
  obtain ⟨⟨o', type⟩, st₁, receiver, yields⟩ := yields.of_bind
  obtain ⟨found, st₂, typed, yields⟩ := yields.of_bind
  obtain ⟨same, rfl⟩ := yields.of_pure
  obtain ⟨rfl, rfl⟩ := Prod.mk.inj same
  exact ⟨o', type, st₁, rfl, receiver, typed⟩

end Check

/-! ## What new objects hold -/

namespace Emit

open Assembly

/-- The instructions that give an object a field; `pool` holds the key. -/
def fieldCode (pool : List String) (obj flag : Operand) (name : String) : List Instr :=
  [⟨.setarg, [.arg 0, obj], ""⟩, ⟨.setarg, [.arg 1, .addr (poolLabel (pool.idxOf name))], ""⟩,
    ⟨.setarg, [.arg 2, rax], ""⟩, ⟨.setarg, [.arg 3, flag], ""⟩, ⟨.call, [.label "lm_map_set"], ""⟩]

/-- The name of a field is in the pool, and instructions that give it to an object stand in the code. -/
def Fielded (pool : List String) (name : String) (g : Gen) : Prop :=
  name ∈ g.pool ∧ (g.pool <+: pool → ∃ obj flag, fieldCode pool obj flag name <:+: g.code.toList)

theorem stable_fielded (pool : List String) (name : String) : Stable (Fielded pool name) :=
  fun _ _ before ⟨key, code⟩ => ⟨before.pool.subset key, fun inside =>
    have ⟨obj, flag, given⟩ := code (before.pool.trans inside)
    ⟨obj, flag, given.trans before.code.isInfix⟩⟩

variable {pool : List String} {initial : Expr → Emitting Unit} {f : Field} {fs : List Field}

theorem settles_setField (pool : List String) (obj flag : Operand) (name : String) :
    Settles (Fielded pool name) (do call "lm_map_set" [obj, ← str name, rax, flag] : Emitting Unit) := by
  intro g
  refine ⟨mem_addNew.mpr (.inr rfl), fun inside => ⟨obj, flag, ?_⟩⟩
  have adds : Adds pool (do call "lm_map_set" [obj, ← str name, rax, flag] : Emitting Unit)
      (fieldCode pool obj flag name) := adds_str (adds_call _ rfl)
  rw [adds g inside]
  exact (List.suffix_append _ _).isInfix

theorem settles_setFields (obj : Operand) [each : ∀ e, Tidy 0 (initial e)] (mem : f ∈ fs) :
    Settles (Fielded pool f.name) (setFields obj initial fs) := by
  have stable := stable_fielded pool f.name
  induction fs with
  | nil => cases mem
  | cons k fs ih =>
      have rest (flag : Operand) : Settles (Fielded pool f.name) (do
          call "lm_map_set" [obj, ← str k.name, rax, flag]
          setFields obj initial fs) := by
        rcases List.mem_cons.mp mem with rfl | later
        · have own := (settles_setField pool obj flag f.name).before (f := fun _ => setFields obj initial fs) stable
          rwa [bind_assoc] at own
        · exact .after fun _ => .after fun _ => ih later
      unfold setFields
      dsimp only
      split
      · exact .after fun _ => rest _
      · exact .after fun _ => rest _

theorem settles_newObject {env : Env} [env.Tidy] {at_ : Span} {cls : String} {args : List Value}
    [AllTidy args] [each : ∀ e, Tidy 0 (initial e)] (mem : f ∈ env.classes.flatFields cls) :
    Settles (Fielded pool f.name) (newObject env initial at_ cls args) := by
  have stable := stable_fielded pool f.name
  obtain ⟨c, known⟩ := ClassTable.get?_of_mem_flatFields mem
  unfold newObject
  rw [known]
  refine .after fun _ => .after fun _ => .after fun _ => .after fun _ => .before stable ?_
  exact settles_setFields _ mem

/-- The code that creates an object gives it every field of its class and the bases. -/
theorem settles_new {env : Env} [tidy : env.Tidy] {i : Info} {cls : String} {args : List Expr}
    (mem : f ∈ env.classes.flatFields cls) :
    Settles (Fielded pool f.name) (expr env (.new_ i cls args)) := by
  show Settles _ (exprAt env.classes.length env (.new_ i cls args))
  cases env.classes.length with
  | zero =>
      have := tidy_valuesWith (fun _ => pure ()) env (fun _ => inferInstance) tidy args
      exact settles_newObject mem
  | succ depth =>
      have := tidy_valuesWith (exprAt depth env) env (fun _ => inferInstance) tidy args
      exact settles_newObject mem

end Emit

/-! ## Programs -/

/-- Where the checker gives a member a type, the receiver is an object of a class and the type is that of the
    nearest field of the name in it, static or not. A static field has a word in the class that declares it,
    and code that names a class reads that word: the field is static if the receiver is the name of a class.
    An instance field, and no other, is what objects of the class hold under the name: code that creates one
    gives it the field. -/
theorem Program.members_stored {file : Nat} {source : String} {p p' : Program} {hints : Hints}
    (accepted : Program.accept? file source = some (p, p', hints)) (seed : Int64) {ctx : Check.Context}
    (table : ctx.classes = ClassTable.ofItems p.items) {st st' : Check.State} {i : Info} {o e : Expr}
    {name : String} {s : Sigil}
    (typed : Check.Yields (Check.expr ctx (.member i o name)) st (e, some s) st') :
    let t := (p'.infer hints).classes
    ∃ o' cls st₁ k f, e = .member { i with resolved := some s } o' name ∧
      Check.Yields (Check.expr ctx o) st (o', some (.object cls)) st₁ ∧
      (ClassTable.ofItems p.items).Nearest (ClassTable.hasField name) cls k ∧ f ∈ k.fields ∧
      f.name = name ∧ Check.fieldType f = some s ∧
      (Check.NamesClass st₁.scopes o' → f.isStatic) ∧
      (f.isStatic → t.staticField? cls name = some (SymbolName.staticField k.name name) ∧
        (p'.generate hints seed).1.Defines (.data (SymbolName.staticField k.name name))) ∧
      (f.isStatic = false ↔ (t.objectField? cls name).map Field.erase = some f.erase) ∧
      (f.isStatic = false → ∀ env : Emit.Env, env.Tidy → env.classes = t → ∀ j args pool,
        Emit.Settles (Emit.Fielded pool name) (Emit.expr env (.new_ j cls args))) := by
  obtain ⟨proper, checked⟩ := Program.of_accept? accepted
  obtain ⟨ds, distinct, -, classes, -, sound⟩ := (p.gives_declared proper).of_outcome checked
  have kept := p.erase_check.of_outcome checked
  have names : ((classesOf p.items).map ClassDecl.name).Nodup := classes ▸ distinct.classes
  have same := ClassTable.ofItems_eq names
  have sound : (ClassTable.ofItems p.items).Sound := by rwa [same, ← classes]
  have fields : ∀ c ∈ ClassTable.ofItems p.items, (c.fields.map Field.name).Nodup := by
    rw [same, ← classes]
    exact distinct.fields
  have erased := Program.erase_classes hints names kept
  intro t
  obtain ⟨o', type, st₁, shape, receiver, member⟩ := typed.of_member
  obtain ⟨cls, f, rfl, found, isType, named⟩ := member.of_memberType
  obtain ⟨k, nearest, inside, static_, own⟩ := sound.of_findField? fields (table ▸ found)
  have called : f.name = name := ((sound.chain_lineage cls).nearest_of_findField (table ▸ found)).1
  rw [← ClassTable.staticField?_erase, ← erased, ClassTable.staticField?_erase] at static_
  have held : (ClassTable.objectField? t cls name).map Field.erase =
      ((ClassTable.ofItems p.items).objectField? cls name).map Field.erase := by
    rw [← ClassTable.objectField?_erase, ← ClassTable.objectField?_erase]
    exact congrArg (ClassTable.objectField? · cls name) erased
  rw [← held] at own
  refine ⟨o', cls, st₁, k, f, shape, receiver, nearest, inside, called, isType, named, fun isStatic => ?_, own,
    fun isOwn env tidy table j args pool => ?_⟩
  · have : ((p'.infer hints).env hints).Backed ⟨(p'.generate hints seed).1, []⟩ :=
      (p'.infer hints).backed_generate hints seed []
    have word : ((p'.infer hints).env hints).classes.staticField? cls name = _ := static_ isStatic
    exact ⟨word, (Emit.defined_of_staticField (S := ⟨(p'.generate hints seed).1, []⟩) word).defines⟩
  · obtain ⟨g, field, -⟩ := Option.map_eq_some_iff.mp (own.mp isOwn)
    have sameName : g.name = name := by simpa using List.find?_some field
    subst sameName
    exact Emit.settles_new (table ▸ List.mem_of_find?_eq_some field)

/-- A class whose objects hold a field of the base. -/
def inheriting : String :=
  "class A \x7b var f: int = 1; \x7d class B extends A \x7b static var g: string = \"s\"; \x7d"

theorem Program.members_stored_inherited : ∃ p p' hints, Program.accept? 0 inheriting = some (p, p', hints) ∧
    ∃ ctx i st e st', ctx.classes = ClassTable.ofItems p.items ∧
      Check.Yields (Check.expr ctx (.member i (.new_ i "B" []) "f")) st (e, some .int) st' ∧
      ∃ cls k f, (ClassTable.ofItems p.items).Nearest (ClassTable.hasField "f") cls k ∧
        Check.fieldType f = some .int ∧ (f.isStatic = false ↔
          ((p'.infer hints).classes.objectField? cls "f").map Field.erase = some f.erase) := by
  let ctx (p : Program) : Check.Context :=
    .outside { Check.Declarations.empty with classes := ClassTable.ofItems p.items }
  let i : Info := ⟨⟨0, 0, 0, 0⟩, none, none⟩
  let st : Check.State := ⟨[], .empty⟩
  let run (p : Program) :=
    (ExceptT.run ((Check.expr (ctx p) (.member i (.new_ i "B" []) "f")).run st)).run #[]
  have runs : (Program.accept? 0 inheriting).map (fun r => (run r.1).1.toOption.map (·.1.2)) =
      some (some (some .int)) := by
    rewrite [show Program.accept? 0 inheriting = _ from Program.accept?_ofList 0 _]
    decide +kernel
  obtain ⟨⟨p, p', hints⟩, accepted, runs⟩ := Option.map_eq_some_iff.mp runs
  dsimp only at runs
  obtain ⟨⟨⟨e, type⟩, st'⟩, ends, rfl⟩ := Option.map_eq_some_iff.mp runs
  have typed : Check.Yields (Check.expr (ctx p) (.member i (.new_ i "B" []) "f")) st (e, some .int) st' := by
    cases made : run p with
    | mk r log =>
        rw [made] at ends
        cases r with
        | ok a => exact ⟨#[], log, made.trans (by rw [Option.some.inj ends])⟩
        | error d => cases ends
  obtain ⟨-, cls, -, k, f, -, -, nearest, -, -, isType, -, -, own, -⟩ :=
    Program.members_stored accepted 0 rfl typed
  exact ⟨p, p', hints, accepted, ctx p, i, st, e, st', rfl, typed, cls, k, f, nearest, isType, own⟩

/-- A class with a static field of the name of a field of its base. -/
def crossing : String :=
  "class A \x7b var f: int = 1; \x7d class B extends A \x7b static var f: string = \"s\"; \x7d " ++
    "var b = new B(); print(b.f);"

/-- The type is that of the static field, and what is read is the number that the object holds. -/
theorem Program.members_crossed : ∃ p p' hints, Program.accept? 0 crossing = some (p, p', hints) ∧
    (∃ at_ i o, .print at_ (.member i o "f") ∈ p'.items ∧ i.resolved = some .str) ∧
    ((ClassTable.ofItems p.items).findField? "B" "f").bind Check.fieldType = some .str ∧
    ((p'.infer hints).classes.objectField? "B" "f").bind Check.fieldType = some .int := by
  have facts : (Program.accept? 0 crossing).map (fun r => (r.2.1.items.any (fun
      | .print _ (.member i _ name) => decide (name = "f" ∧ i.resolved = some .str)
      | _ => false), ((ClassTable.ofItems r.1.items).findField? "B" "f").bind Check.fieldType,
      ((r.2.1.infer r.2.2).classes.objectField? "B" "f").bind Check.fieldType)) =
      some (true, some .str, some .int) := by
    rewrite [show Program.accept? 0 crossing = _ from Program.accept?_append 0 _ _]
    decide +kernel
  obtain ⟨⟨p, p', hints⟩, accepted, facts⟩ := Option.map_eq_some_iff.mp facts
  dsimp only at facts
  refine ⟨p, p', hints, accepted, ?_, congrArg (·.2.1) facts, congrArg (·.2.2) facts⟩
  obtain ⟨s, mem, printed⟩ := List.any_eq_true.mp (congrArg Prod.fst facts)
  split at printed
  · next at_ i o name =>
      obtain ⟨rfl, resolved⟩ := of_decide_eq_true printed
      exact ⟨at_, i, o, mem, resolved⟩
  · cases printed

end Lantern
