import Lantern.Proofs.Checking
import Lantern.Proofs.MethodTables
import Lantern.Proofs.References

/-!
# What code generation remarks on

Where every name of a program stands for something, the generator finds what each name stands for. It
remarks only on what checking lets pass: the name of a class used as a value, and objects, constructors
and static fields that are not there.
-/

namespace Lantern

open Assembly

namespace ClassTable

theorem has_erase (t : ClassTable) (name : String) : has (t.map ClassDecl.erase) name = t.has name := by
  simp only [has, List.any_map]
  rfl

end ClassTable

namespace Emit

/-- A remark on a program whose names stand for something. -/
inductive Excused (t : ClassTable) : String → Prop
  /-- A class is no value. -/
  | className {cls : String} (known : t.has cls) :
      Excused t ("Unknown variable '" ++ cls ++ "' evaluates to 0")
  /-- An object of no class. -/
  | noClass {cls : String} (unknown : t.has cls = false) :
      Excused t ("Unknown class '" ++ cls ++ "' in 'new' evaluates to null")
  /-- No constructor for a number of arguments. -/
  | noCtor {cls : String} {c : ClassDecl} {count : Nat} (known : t.get? cls = some c)
      (none_ : ∀ k ∈ c.ctors, k.params.length ≠ count) :
      Excused t ("Class '" ++ c.name ++ "' has no constructor taking " ++ toString count ++ " arguments")
  /-- No static field of a name. -/
  | noField {cls field : String} (known : t.has cls) (none_ : t.staticField? cls field = none) :
      Excused t ("Class '" ++ cls ++ "' has no static field '" ++ field ++ "'")

/-- A step of code generation makes only remarks that are excused. -/
class Quiet (t : ClassTable) {α : Type} (x : Emitting α) : Prop where
  remarks : ∀ g : Gen, ∀ d ∈ (x.run g).2.log,
    d ∈ g.log ∨ d.severity = .warning .codegen ∧ Excused t d.message

/-- The code of each operand makes only remarks that are excused. -/
class AllQuiet (t : ClassTable) (vs : List Value) : Prop where
  each : ∀ v ∈ vs, Quiet t v.code

/-- The code of each entry makes only remarks that are excused. -/
class EntriesQuiet (t : ClassTable) (es : List (Value × Value)) : Prop where
  each : ∀ e ∈ es, Quiet t e.1.code ∧ Quiet t e.2.code

/-- The pending last blocks make only remarks that are excused, wherever they run. -/
class Env.Quiet (t : ClassTable) (env : Env) : Prop where
  lasts : ∀ l ∈ env.lasts, ∀ loops : List LoopFrame, env.loops ⊆ loops → Emit.Quiet t (l.run loops)

/-! ## Steps -/

section Steps

variable {t : ClassTable} {α β : Type}

theorem quiet_of_log {x : Emitting α} (same : ∀ g : Gen, (x.run g).2.log = g.log) : Quiet t x :=
  ⟨fun g _ mem => .inl (same g ▸ mem)⟩

theorem quiet_warn {message : String} (excused : Excused t message) (at_ : Span) :
    Quiet t (warn at_ message) := by
  refine ⟨fun g d mem => ?_⟩
  rcases Array.mem_push.mp mem with old | rfl
  · exact .inl old
  · exact .inr ⟨rfl, excused⟩

theorem Quiet.seq {x : Emitting α} {f : α → Emitting β} (first : Quiet t x) (rest : ∀ a, Quiet t (f a)) :
    Quiet t (x >>= f) := by
  refine ⟨fun g d mem => ?_⟩
  rcases (rest (x.run g).1).remarks (x.run g).2 d mem with early | late
  · exact first.remarks g d early
  · exact .inr late

instance (a : α) : Quiet t (pure a : Emitting α) := quiet_of_log fun _ => rfl

instance (x : Emitting α) (f : α → Emitting β) [first : Quiet t x] [rest : ∀ a, Quiet t (f a)] :
    Quiet t (x >>= f) := first.seq rest

instance (priority := 2000) (x : Emitting α) (y : Emitting β) [first : Quiet t x] [rest : Quiet t y] :
    Quiet t (x >>= fun _ => y) := first.seq fun _ => rest

instance (c : Prop) [Decidable c] (x y : Emitting α) [Quiet t x] [Quiet t y] : Quiet t (if c then x else y) := by
  split <;> infer_instance

theorem quiet_forM {xs : List α} {f : α → Emitting PUnit} (each : ∀ x ∈ xs, Quiet t (f x)) :
    Quiet t (xs.forM f) := by
  induction xs with
  | nil => exact inferInstanceAs (Quiet t (pure ()))
  | cons x xs ih =>
      obtain ⟨first, others⟩ := List.forall_mem_cons.mp each
      exact first.seq fun _ => ih others

instance (op : Op) (args : List Operand) : Quiet t (emit op args) := quiet_of_log fun _ => rfl
instance (l : String) : Quiet t (place l) := quiet_of_log fun _ => rfl
instance (op : Op) (l : String) : Quiet t (jump op l) := quiet_of_log fun _ => rfl
instance : Quiet t testResult := quiet_of_log fun _ => rfl
instance : Quiet t zero := quiet_of_log fun _ => rfl
instance (base : String) : Quiet t (newLabel base) := quiet_of_log fun _ => rfl
instance (s : String) : Quiet t (str s) := quiet_of_log fun _ => rfl
instance (env : Env) : Quiet t (pushTemp env) := quiet_of_log fun _ => rfl
instance (n : Nat) : Quiet t (popTemps n) := quiet_of_log fun _ => rfl
instance (env : Env) : Quiet t (spill env) := quiet_of_log fun _ => rfl

instance (i : Nat) (args : List Operand) : Quiet t (setArgsFrom i args) := by
  induction args generalizing i with
  | nil => exact inferInstanceAs (Quiet t (pure ()))
  | cons a rest ih => unfold setArgsFrom; infer_instance

instance (args : List Operand) : Quiet t (setArgs args) := by
  have (f : Gen → Nat) : Quiet t (modify fun g => { g with maxCallArgs := f g } : Emitting Unit) :=
    quiet_of_log fun _ => rfl
  unfold setArgs
  infer_instance

instance (name : String) (args : List Operand) : Quiet t (call name args) := by
  have : Quiet t (modify fun g => { g with externs := addNew g.externs name } : Emitting Unit) :=
    quiet_of_log fun _ => rfl
  unfold call
  dsimp only
  infer_instance

end Steps

/-! ## Forms of expressions -/

section Operands

variable {t : ClassTable} (env : Env) (at_ : Span) (c a b k l r v x d : Value) [Quiet t c.code]
  [Quiet t a.code] [Quiet t b.code] [Quiet t k.code] [Quiet t l.code] [Quiet t r.code] [Quiet t v.code]
  [Quiet t x.code] [Quiet t d.code]

theorem AllQuiet.head {v : Value} {vs : List Value} (all : AllQuiet t (v :: vs)) : Quiet t v.code :=
  all.each v List.mem_cons_self

theorem AllQuiet.tail {v : Value} {vs : List Value} (all : AllQuiet t (v :: vs)) : AllQuiet t vs :=
  ⟨fun v' mem => all.each v' (List.mem_cons_of_mem _ mem)⟩

instance (op : Op) : Quiet t (flagValue op) := by
  unfold flagValue
  infer_instance

instance (op : UnaryOp) : Quiet t (unary op v) := by
  unfold unary
  split <;> infer_instance

instance : Quiet t (ternary c a b) := by
  unfold ternary
  infer_instance

instance (isOr : Bool) : Quiet t (shortCircuit isOr l r) := by
  unfold shortCircuit
  infer_instance

instance : Quiet t (powerForm env l r) := by
  unfold powerForm
  infer_instance

instance (op : BinaryOp) : Quiet t (wordOp op) := by
  unfold wordOp
  split <;> first | infer_instance | (split <;> infer_instance)

instance (op : BinaryOp) : Quiet t (strictBinary env op l r) := by
  unfold strictBinary
  dsimp only
  infer_instance

instance (op : BinaryOp) : Quiet t (binary env op l r) := by
  unfold binary
  split <;> infer_instance

instance : Quiet t (key v) := by
  unfold key
  split <;> infer_instance

theorem quiet_pushElems (list : Operand) (vs : List Value) (all : AllQuiet t vs) :
    Quiet t (pushElems list vs) := by
  induction vs with
  | nil => exact inferInstanceAs (Quiet t (pure ()))
  | cons v vs ih =>
      have := all.head
      have := ih all.tail
      unfold pushElems
      infer_instance

instance (vs : List Value) [all : AllQuiet t vs] : Quiet t (listLit env vs) := by
  have (list : Operand) := quiet_pushElems list vs all
  unfold listLit
  infer_instance

theorem quiet_putEntries (map : Operand) (es : List (Value × Value)) (all : EntriesQuiet t es) :
    Quiet t (putEntries env map es) := by
  induction es with
  | nil => exact inferInstanceAs (Quiet t (pure ()))
  | cons e es ih =>
      obtain ⟨_, _⟩ := all.each e List.mem_cons_self
      have := ih ⟨fun e' mem => all.each e' (List.mem_cons_of_mem _ mem)⟩
      unfold putEntries
      infer_instance

instance (es : List (Value × Value)) [all : EntriesQuiet t es] : Quiet t (mapLit env es) := by
  have (map : Operand) := quiet_putEntries env map es all
  unfold mapLit
  infer_instance

instance (op : StepOp) (first : Bool) (place : Operand) : Quiet t (stepPlace op first place) := by
  unfold stepPlace
  infer_instance

instance : Quiet t boolWord := by
  unfold boolWord
  infer_instance

instance (format : String) : Quiet t (readString format) := by
  unfold readString
  infer_instance

instance : Quiet t (lenForm v) := by
  unfold lenForm
  infer_instance

instance : Quiet t (strForm v) := by
  unfold strForm
  split <;> infer_instance

instance : Quiet t (numForm v) := by
  unfold numForm
  infer_instance

instance : Quiet t (containsForm env v x) := by
  dsimp only [containsForm]
  infer_instance

instance : Quiet t (deleteForm env v k) := by
  unfold deleteForm
  infer_instance

instance : Quiet t (getOrForm env v k d) := by
  unfold getOrForm
  infer_instance

instance : Quiet t (freeForm v) := by
  unfold freeForm
  infer_instance

instance (readStr : Bool) : Quiet t (inputForm readStr) := by
  unfold inputForm
  infer_instance

instance (type : Option Sigil) : Quiet t (defaultValue type) := by
  unfold defaultValue
  split <;> infer_instance

end Operands

section Calls

variable {t : ClassTable} (env : Env) [quiet : env.Quiet t] (at_ : Span) (args : List Value)
  [all : AllQuiet t args]

instance (depth : Nat) : Quiet t (replay env depth) :=
  quiet_forM fun l mem => quiet.lasts l (List.mem_of_mem_take mem) env.loops (List.Subset.refl _)

instance : Quiet t (raise env) := by
  unfold raise
  dsimp only
  infer_instance

instance : Quiet t (checkException env) := by
  unfold checkException
  infer_instance

instance (target : Operand) (ops : List Operand) : Quiet t (callRoutine env target ops) := by
  unfold callRoutine
  infer_instance

instance (address : Operand) (ops : List Operand) : Quiet t (callAddress env address ops) := by
  unfold callAddress
  infer_instance

instance (receiver : Operand) (ops : List Operand) : Quiet t (callMethod env receiver ops) := by
  unfold callMethod
  infer_instance

omit quiet in
theorem quiet_evalArgs (vs : List Value) (all : AllQuiet t vs) : Quiet t (evalArgs env vs) := by
  induction vs with
  | nil => exact inferInstanceAs (Quiet t (pure []))
  | cons v vs ih =>
      have := all.head
      have := ih all.tail
      unfold evalArgs
      infer_instance

omit quiet in
instance : Quiet t (evalArgs env args) := quiet_evalArgs env args all

instance (receiver : Value) [Quiet t receiver.code] (name : String) :
    Quiet t (dispatch env receiver name args) := by
  unfold dispatch
  infer_instance

omit quiet in
/-- A library function is called with as many arguments as it takes. -/
theorem quiet_libraryCall (f : LibFunc) (readStr : Bool) (fits : args.length = f.arity) :
    Quiet t (libraryCall env at_ f readStr args) := by
  unfold libraryCall
  rw [if_neg (by simpa using fits)]
  split
  case h_1 => infer_instance
  case h_2 | h_3 | h_4 | h_8 =>
    have := all.head
    infer_instance
  case h_5 | h_6 =>
    have := all.head
    have := all.tail.head
    infer_instance
  case h_7 =>
    have := all.head
    have := all.tail.head
    have := all.tail.tail.head
    infer_instance
  case h_9 | h_10 => infer_instance
  case h_11 =>
    rename_i f args _ _ _ input inputLine len str num contains delete getOr free routine
    exfalso
    cases f with
    | input => exact input rfl
    | inputLine => exact inputLine rfl
    | len => obtain ⟨v, rfl⟩ := List.length_eq_one_iff.mp fits; exact len v rfl rfl
    | str => obtain ⟨v, rfl⟩ := List.length_eq_one_iff.mp fits; exact str v rfl rfl
    | num => obtain ⟨v, rfl⟩ := List.length_eq_one_iff.mp fits; exact num v rfl rfl
    | free => obtain ⟨v, rfl⟩ := List.length_eq_one_iff.mp fits; exact free v rfl rfl
    | contains => obtain ⟨v, x, rfl⟩ := List.length_eq_two.mp fits; exact contains v x rfl rfl
    | delete => obtain ⟨v, k, rfl⟩ := List.length_eq_two.mp fits; exact delete v k rfl rfl
    | getOr => obtain ⟨v, k, d, rfl⟩ := List.length_eq_three.mp fits; exact getOr v k d rfl rfl
    | _ => cases routine

end Calls

/-! ## What names stand for in code -/

/-- What names stand for at a place in a program, the generator finds there. -/
structure Env.Finds (C : Setting) (V : Scopes) (env : Env) : Prop where
  known : ∀ name, C.Knows V name → env.isVariable name
  classes : env.classes.map ClassDecl.erase = C.classes.map ClassDecl.erase
  funcs : C.funcs ⊆ env.funcs
  receiver : C.receiver → "this" ∈ env.locals ∧ env.cls ≠ ""
  initials : ∀ cls, ∀ f ∈ env.classes.flatFields cls, ∀ e ∈ f.init, e.Resolves C.outside []

theorem not_isVariable {env : Env} {name : String} (none_ : env.lookup? name = none) : ¬ env.isVariable name := by
  simp [Env.isVariable, none_]

theorem of_classRef? {env : Env} {e : Expr} {cls : String} (found : env.classRef? e = some cls) :
    ∃ i, e = .ident i cls ∧ ¬ env.isVariable cls ∧ env.classes.has cls := by
  unfold Env.classRef? at found
  split at found
  · next i name =>
      split at found
      · next isClass =>
          obtain rfl := Option.some.inj found
          rw [Bool.and_eq_true, Bool.not_eq_true'] at isClass
          exact ⟨i, rfl, by simp [isClass.1], isClass.2⟩
      · cases found
  · cases found

theorem of_staticRef? {env : Env} {base k : Expr} {cls field : String}
    (found : staticRef? env base k = some (cls, field)) :
    env.classRef? base = some cls ∧ ∃ i, k = .str i field := by
  unfold staticRef? at found
  split at found
  · next cls' field' isClass isText =>
      obtain ⟨rfl, rfl⟩ := Prod.mk.inj (Option.some.inj found)
      cases k <;> simp [Expr.strValue?] at isText
      exact ⟨isClass, _, by rw [isText]⟩
  · cases found

namespace Env.Finds

variable {C : Setting} {V : Scopes} {env : Env} (finds : env.Finds C V) (at_ : Span)

include finds

theorem has_classes (name : String) : env.classes.has name = C.classes.has name := by
  rw [← ClassTable.has_erase, finds.classes, ClassTable.has_erase]

theorem staticField? (cls field : String) :
    env.classes.staticField? cls field = C.classes.staticField? cls field := by
  rw [← ClassTable.staticField?_erase, finds.classes, ClassTable.staticField?_erase]

theorem staticMethod? (cls name : String) :
    env.classes.staticMethod? cls name = C.classes.staticMethod? cls name := by
  rw [← ClassTable.staticMethod?_erase, finds.classes, ClassTable.staticMethod?_erase]

/-- A name that is no variable is the name of a class. -/
theorem has_of_none {name : String} (resolves : C.Knows V name ∨ C.classes.has name)
    (none_ : env.lookup? name = none) : C.classes.has name :=
  resolves.resolve_left fun known => not_isVariable none_ (finds.known name known)

theorem quiet_ident {name : String} (resolves : C.Knows V name ∨ C.classes.has name) :
    Emit.Quiet C.classes (ident env at_ name) := by
  unfold ident
  split
  · infer_instance
  · next none_ =>
      have := quiet_warn (.className (finds.has_of_none resolves none_)) at_
      infer_instance

theorem quiet_stepVar (op : StepOp) (first : Bool) {name : String}
    (resolves : C.Knows V name ∨ C.classes.has name) :
    Emit.Quiet C.classes (stepVar env at_ op first name) := by
  unfold stepVar
  split
  · infer_instance
  · next none_ =>
      have := quiet_warn (.className (finds.has_of_none resolves none_)) at_
      infer_instance

theorem quiet_funcRef {name : String} (declared : name ∈ C.funcs) :
    Emit.Quiet C.classes (funcRef env at_ name) := by
  unfold funcRef
  rw [if_pos (by simpa using finds.funcs declared)]
  infer_instance

theorem quiet_noField {cls field : String} (isClass : env.classes.has cls)
    (none_ : env.classes.staticField? cls field = none) :
    Emit.Quiet C.classes (warn at_ ("Class '" ++ cls ++ "' has no static field '" ++ field ++ "'")) :=
  quiet_warn (.noField (finds.has_classes cls ▸ isClass) (finds.staticField? cls field ▸ none_)) at_

theorem quiet_loadStatic {cls : String} (isClass : env.classes.has cls) (field : String) :
    Emit.Quiet C.classes (loadStatic env at_ cls field) := by
  unfold loadStatic
  split
  · infer_instance
  · next none_ =>
      have := finds.quiet_noField at_ isClass none_
      infer_instance

theorem quiet_index (b k : Value) [Emit.Quiet C.classes b.code] [Emit.Quiet C.classes k.code] :
    Emit.Quiet C.classes (index env at_ b k) := by
  unfold index
  split
  · next found =>
      obtain ⟨_, _, _, isClass⟩ := of_classRef? (of_staticRef? found).1
      exact finds.quiet_loadStatic at_ isClass _
  · dsimp only
    infer_instance

theorem quiet_member (o : Value) [Emit.Quiet C.classes o.code] (name : String) :
    Emit.Quiet C.classes (member env at_ o name) := by
  unfold member
  split
  · next found =>
      obtain ⟨_, _, _, isClass⟩ := of_classRef? found
      exact finds.quiet_loadStatic at_ isClass _
  · infer_instance

theorem quiet_stepElement (op : StepOp) (first : Bool) (b k : Value) [Emit.Quiet C.classes b.code]
    [Emit.Quiet C.classes k.code] : Emit.Quiet C.classes (stepElement env at_ op first b k) := by
  unfold stepElement
  split
  · next found =>
      obtain ⟨_, _, _, isClass⟩ := of_classRef? (of_staticRef? found).1
      split
      · infer_instance
      · next none_ =>
          have := finds.quiet_noField at_ isClass none_
          infer_instance
  · dsimp only
    infer_instance

variable [env.Quiet C.classes] (args : List Value) [all : AllQuiet C.classes args]

theorem quiet_superCall (receiver : C.receiver) (name : String) :
    Emit.Quiet C.classes (superCall env at_ name args) := by
  obtain ⟨isLocal, isClass⟩ := finds.receiver receiver
  obtain ⟨i, slot⟩ := Option.isSome_iff_exists.mp (List.isSome_idxOf?.mpr isLocal)
  have isClass : env.cls.isEmpty = false := by simpa using isClass
  unfold superCall
  rw [slot, isClass]
  infer_instance

theorem quiet_staticCall {cls name : String} (declared : (C.classes.staticMethod? cls name).isSome) :
    Emit.Quiet C.classes (staticCall env at_ cls name args) := by
  obtain ⟨symbol, found⟩ := Option.isSome_iff_exists.mp declared
  unfold staticCall
  rw [finds.staticMethod?, found]
  infer_instance

theorem quiet_methodCall (receiver : Value) [Emit.Quiet C.classes receiver.code]
    (resolves : receiver.expr.Resolves C V) {name : String} (sends : C.Sends V receiver.expr name) :
    Emit.Quiet C.classes (methodCall env at_ receiver name args) := by
  unfold methodCall
  split
  · next i isSuper =>
      rw [isSuper] at resolves
      exact finds.quiet_superCall at_ args resolves name
  · split
    · next cls found =>
        obtain ⟨i, isName, isClass, -⟩ := of_classRef? found
        refine finds.quiet_staticCall at_ args ?_
        exact (Setting.sends_iff.mp sends i cls isName).resolve_left fun known =>
          isClass (finds.known cls known)
    · infer_instance

theorem quiet_construct {cls : String} {c : ClassDecl} (known : env.classes.get? cls = some c) (obj : Operand) :
    Emit.Quiet C.classes (construct env at_ c obj args) := by
  unfold construct
  split
  · infer_instance
  · next none_ =>
      have same := congrArg (Option.map ClassDecl.erase) known
      rw [← ClassTable.get?_erase, finds.classes, ClassTable.get?_erase] at same
      obtain ⟨d, known', same⟩ := Option.map_eq_some_iff.mp same
      have called : d.name = c.name := (congrArg ClassDecl.name same : d.erase.name = c.erase.name)
      have lengths : d.ctors.map (fun k => k.params.length) = c.ctors.map fun k => k.params.length := by
        have ctors : d.erase.ctors = c.erase.ctors := congrArg ClassDecl.ctors same
        have ctors : d.ctors.map Ctor.erase = c.ctors.map Ctor.erase := ctors
        simpa [Ctor.erase, Function.comp_def] using congrArg (List.map fun k => k.params.length) ctors
      have missing : ∀ k ∈ d.ctors, k.params.length ≠ args.length := by
        intro k mem eq
        have other : k.params.length ∈ c.ctors.map fun k => k.params.length :=
          lengths ▸ List.mem_map_of_mem mem
        obtain ⟨k', own, same⟩ := List.mem_map.mp other
        exact none_ (List.any_eq_true.mpr ⟨k', own, by simp [same, eq]⟩)
      have := quiet_warn (called ▸ Excused.noCtor known' missing) at_
      infer_instance

omit finds [env.Quiet C.classes] all in
theorem quiet_setFields (obj : Operand) (initial : Expr → Emitting Unit) (fs : List Field)
    (each : ∀ f ∈ fs, ∀ e ∈ f.init, Emit.Quiet C.classes (initial e)) :
    Emit.Quiet C.classes (setFields obj initial fs) := by
  induction fs with
  | nil => exact inferInstanceAs (Emit.Quiet C.classes (pure ()))
  | cons f fs ih =>
      obtain ⟨own, others⟩ := List.forall_mem_cons.mp each
      have := ih others
      unfold setFields
      dsimp only
      split
      · next e isInit =>
          have := own e isInit
          infer_instance
      · infer_instance

theorem quiet_newObject (initial : Expr → Emitting Unit) (cls : String)
    (each : ∀ f ∈ env.classes.flatFields cls, ∀ e ∈ f.init, Emit.Quiet C.classes (initial e)) :
    Emit.Quiet C.classes (newObject env initial at_ cls args) := by
  unfold newObject
  split
  · next none_ =>
      have unknown : env.classes.has cls = false := by
        rw [ClassTable.has, List.any_eq_false]
        exact fun c mem => List.find?_eq_none.mp none_ c mem
      have := quiet_warn (.noClass (finds.has_classes cls ▸ unknown)) at_
      infer_instance
  · next c known =>
      have (obj : Operand) := finds.quiet_construct at_ args known obj
      have (obj : Operand) := quiet_setFields obj initial _ each
      dsimp only
      infer_instance

theorem quiet_callByName {name : String} (calls : C.Calls V name args.length) :
    Emit.Quiet C.classes (callByName env at_ name args) := by
  unfold callByName
  split
  · infer_instance
  · next none_ =>
      have callee := calls.resolve_left fun known => not_isVariable none_ (finds.known name known)
      split
      · next f isLibrary =>
          rw [isLibrary] at callee
          exact quiet_libraryCall env at_ args f false callee
      · next notLibrary =>
          rw [notLibrary] at callee
          rw [if_pos (by simpa using finds.funcs callee)]
          infer_instance

end Env.Finds

/-! ## Expressions -/

section Expressions

-- The linter looks at each theorem of the block below by itself.
set_option linter.unusedSectionVars false

variable {C : Setting} {V : Scopes} {env : Env} (finds : env.Finds C V) [env.Quiet C.classes]
  (initial : Expr → Emitting Unit)
  (each : ∀ cls, ∀ f ∈ env.classes.flatFields cls, ∀ e ∈ f.init, Quiet C.classes (initial e))

theorem length_valuesWith (initial : Expr → Emitting Unit) (env : Env) (es : List Expr) :
    (valuesWith initial env es).length = es.length := by
  induction es with
  | nil => rfl
  | cons e es ih => simp [valuesWith, ih]

include finds each

mutual

theorem quiet_exprWith (e : Expr) (resolves : e.Resolves C V) : Quiet C.classes (exprWith initial env e) := by
  cases e with
  | number | bool | str => unfold exprWith; infer_instance
  | ident i name => unfold exprWith; exact finds.quiet_ident i.span resolves
  | binary i op l r =>
      have := quiet_exprWith l resolves.1
      have := quiet_exprWith r resolves.2
      unfold exprWith
      infer_instance
  | unary i op e =>
      have := quiet_exprWith e resolves
      unfold exprWith
      infer_instance
  | ternary i c a b =>
      have := quiet_exprWith c resolves.1
      have := quiet_exprWith a resolves.2.1
      have := quiet_exprWith b resolves.2.2
      unfold exprWith
      infer_instance
  | list i es =>
      have := quiet_valuesWith es resolves
      unfold exprWith
      infer_instance
  | map i es =>
      have := quiet_entriesWith es resolves
      unfold exprWith
      infer_instance
  | index i b k =>
      have := quiet_exprWith b resolves.1
      have := quiet_exprWith k resolves.2
      unfold exprWith
      exact finds.quiet_index i.span _ _
  | member i o name =>
      have := quiet_exprWith o resolves
      unfold exprWith
      exact finds.quiet_member i.span _ name
  | call i callee args =>
      have := quiet_valuesWith args resolves.2
      unfold exprWith
      refine finds.quiet_callByName i.span _ ?_
      rw [length_valuesWith]
      exact resolves.1
  | method i r name args =>
      have := quiet_exprWith r resolves.2.1
      have := quiet_valuesWith args resolves.2.2
      unfold exprWith
      exact finds.quiet_methodCall i.span _ _ resolves.2.1 resolves.1
  | new_ i cls args =>
      have := quiet_valuesWith args resolves
      unfold exprWith
      exact finds.quiet_newObject i.span _ initial cls (each cls)
  | super i =>
      unfold exprWith
      exact finds.quiet_ident i.span (.inl (.inl ⟨resolves, rfl⟩))
  | step i op first t =>
      have target := resolves.2
      cases t with
      | ident j name => unfold exprWith; exact finds.quiet_stepVar i.span op first target
      | index j b k =>
          have := quiet_exprWith b target.1
          have := quiet_exprWith k target.2
          unfold exprWith
          exact finds.quiet_stepElement i.span op first _ _
      | member j o name =>
          have := quiet_exprWith o target
          unfold exprWith
          exact finds.quiet_stepElement i.span op first _ _
      | _ => cases resolves.1
  | funcRef i name => unfold exprWith; exact finds.quiet_funcRef i.span resolves

theorem quiet_valuesWith (es : List Expr) (resolves : allResolve C V es) :
    AllQuiet C.classes (valuesWith initial env es) := by
  cases es with
  | nil => exact ⟨nofun⟩
  | cons e es =>
      exact ⟨List.forall_mem_cons.mpr ⟨quiet_exprWith e resolves.1, (quiet_valuesWith es resolves.2).each⟩⟩

theorem quiet_entriesWith (es : List (Expr × Expr)) (resolves : entriesResolve C V es) :
    EntriesQuiet C.classes (entriesWith initial env es) := by
  match es with
  | [] => exact ⟨nofun⟩
  | (k, v) :: es =>
      exact ⟨List.forall_mem_cons.mpr ⟨⟨quiet_exprWith k resolves.1, quiet_exprWith v resolves.2.1⟩,
        (quiet_entriesWith es resolves.2.2).each⟩⟩

end

end Expressions

section Settings

variable {C : Setting} {env : Env} [quiet : env.Quiet C.classes]

instance : env.Quiet C.inLoop.classes := quiet
instance : env.Quiet C.inSwitch.classes := quiet
instance : env.Quiet C.outside.classes := quiet

end Settings

theorem Env.Finds.outside {C : Setting} {V : Scopes} {env : Env} (finds : env.Finds C V) :
    env.Finds C.outside [] where
  known name known := by
    have global : name ∈ C.globals := by simpa [Setting.Knows, Setting.outside] using known
    exact finds.known name (.inr (.inr global))
  classes := finds.classes
  funcs := finds.funcs
  receiver := nofun
  initials := finds.initials

theorem quiet_exprAt {C : Setting} {V : Scopes} {env : Env} (finds : env.Finds C V) [quiet : env.Quiet C.classes]
    (depth : Nat) {e : Expr} (resolves : e.Resolves C V) : Quiet C.classes (exprAt depth env e) := by
  induction depth generalizing C V e with
  | zero => exact quiet_exprWith finds _ (fun _ _ _ _ _ => inferInstance) e resolves
  | succ depth ih =>
      refine quiet_exprWith finds _ (fun cls f mem e' isInit => ?_) e resolves
      exact ih finds.outside (finds.initials cls f mem e' isInit)

theorem quiet_expr {C : Setting} {V : Scopes} {env : Env} (finds : env.Finds C V) [env.Quiet C.classes]
    {e : Expr} (resolves : e.Resolves C V) : Quiet C.classes (expr env e) :=
  quiet_exprAt finds _ resolves

/-! ## Statements -/

/-- `break` and `continue` lead somewhere where they may stand. -/
structure Env.Leaves (C : Setting) (env : Env) : Prop where
  breaks : C.breaks → env.loops ≠ []
  continues : C.continues → ∃ l ∈ env.loops, l.isSwitch = false

theorem declares_subset (s : Stmt) : s.declares ⊆ declaredNames s := by
  cases s with
  | ifElse s c a b =>
      cases b with
      | none => simpa [Stmt.declares, declaredNames] using declares_subset a
      | some b =>
          intro x mem
          rcases List.mem_append.mp mem with inB | inA
          · exact List.mem_append.mpr (.inr (declares_subset b inB))
          · exact List.mem_append.mpr (.inl (declares_subset a inA))
  | while_ s c body | doWhile s body c => exact declares_subset body
  | try_ s body cs last =>
      cases last with
      | none =>
          intro x mem
          exact List.mem_append.mpr (.inl (List.mem_append.mpr (.inl (declares_subset body mem))))
      | some l =>
          intro x mem
          rcases List.mem_append.mp mem with inLast | inBody
          · exact List.mem_append.mpr (.inr (declares_subset l inLast))
          · exact List.mem_append.mpr (.inl (List.mem_append.mpr (.inl (declares_subset body inBody))))
  | varDecl s name type init => exact List.Subset.refl _
  | _ => exact List.nil_subset _

theorem declaredNames_of_simple {s : Stmt} (simple : s.isSimple) : declaredNames s = [] := by
  cases s <;> first | rfl | cases simple

section Places

variable {C : Setting} {V : Scopes} {env : Env}

theorem Env.Finds.of_scopes {W : Scopes} (finds : env.Finds C V)
    (more : ∀ name ∈ W.flatten, name ∈ V.flatten ∨ env.isVariable name) : env.Finds C W :=
  { finds with
    known := fun name known => by
      rcases known with this | own | global
      · exact finds.known name (.inl this)
      · exact (more name own).elim (fun old => finds.known name (.inr (.inl old))) id
      · exact finds.known name (.inr (.inr global)) }

theorem Env.Finds.inner (finds : env.Finds C V) : env.Finds C ([] :: V) := finds.of_scopes fun _ old => .inl old

theorem Env.Finds.behind (finds : env.Finds C V) {s : Stmt} (declared : ∀ x ∈ declaredNames s, env.isVariable x) :
    env.Finds C (V.behind C.inRoutine s) := by
  refine finds.of_scopes fun name mem => ?_
  unfold Scopes.behind at mem
  split at mem
  · cases V with
    | nil => cases mem
    | cons names V =>
        rw [Scopes.add, List.modifyHead_cons, List.flatten_cons, List.append_assoc, List.mem_append] at mem
        exact mem.symm.imp_right fun own => declared name (declares_subset s own)
  · exact .inl mem

theorem Env.Finds.behindAll (finds : env.Finds C V) {ss : List Stmt}
    (declared : ∀ x ∈ declaredNamesOf ss, env.isVariable x) : env.Finds C (V.behindAll C.inRoutine ss) := by
  induction ss generalizing V with
  | nil => exact finds
  | cons s ss ih =>
      obtain ⟨own, others⟩ := List.forall_mem_append.mp declared
      exact ih (finds.behind own) others

theorem Env.Finds.behindOption (finds : env.Finds C V) {o : Option Stmt}
    (declared : ∀ s ∈ o, ∀ x ∈ declaredNames s, env.isVariable x) :
    env.Finds C (V.behindOption C.inRoutine o) := by
  cases o with
  | none => exact finds
  | some s => exact finds.behind (declared s rfl)

theorem Env.Finds.inLoop (finds : env.Finds C V) (exit next : String) :
    (env.inFrame exit next false).Finds C.inLoop V := { finds with }

theorem Env.Finds.inSwitch (finds : env.Finds C V) : env.Finds C.inSwitch V := { finds with }

theorem Env.Finds.inFrame (finds : env.Finds C V) (exit next : String) (isSwitch : Bool) :
    (env.inFrame exit next isSwitch).Finds C V := { finds with }

theorem Env.Finds.guarded (finds : env.Finds C V) (label : String) (last : Option LastBlock) :
    (env.guarded label last).Finds C V := { finds with }

theorem Env.Finds.with_loops (finds : env.Finds C V) (loops : List LoopFrame) :
    Env.Finds C V { env with loops := loops } := { finds with }

theorem Env.Leaves.guarded (leaves : env.Leaves C) (label : String) (last : Option LastBlock) :
    (env.guarded label last).Leaves C := ⟨leaves.breaks, leaves.continues⟩

theorem Env.Leaves.inLoop (env : Env) (C : Setting) (exit next : String) :
    (env.inFrame exit next false).Leaves C.inLoop :=
  ⟨fun _ => List.cons_ne_nil _ _, fun _ => ⟨_, List.mem_cons_self, rfl⟩⟩

theorem Env.Leaves.inSwitch (leaves : env.Leaves C) (exit : String) :
    (env.inFrame exit "" true).Leaves C.inSwitch := by
  refine ⟨fun _ => List.cons_ne_nil _ _, fun continues => ?_⟩
  obtain ⟨l, mem, isLoop⟩ := leaves.continues continues
  exact ⟨l, List.mem_cons_of_mem _ mem, isLoop⟩

theorem Env.Leaves.of_subset (leaves : env.Leaves C) {loops : List LoopFrame} (more : env.loops ⊆ loops) :
    Env.Leaves C { env with loops := loops } := by
  refine ⟨fun breaks none_ => leaves.breaks breaks ?_, fun continues => ?_⟩
  · obtain rfl : loops = [] := none_
    exact List.subset_nil.mp more
  · obtain ⟨l, mem, isLoop⟩ := leaves.continues continues
    exact ⟨l, more mem, isLoop⟩

instance {t : ClassTable} [quiet : env.Quiet t] (exit next : String) (isSwitch : Bool) :
    (env.inFrame exit next isSwitch).Quiet t :=
  ⟨fun l mem loops more => quiet.lasts l mem loops (List.Subset.trans (List.subset_cons_self _ _) more)⟩

theorem quiet_guarded {t : ClassTable} [quiet : env.Quiet t] (label : String) (last : Option LastBlock)
    (own : ∀ l ∈ last, ∀ loops : List LoopFrame, env.loops ⊆ loops → Quiet t (l.run loops)) :
    (env.guarded label last).Quiet t := by
  refine ⟨fun l mem loops more => ?_⟩
  rcases List.mem_append.mp mem with new | old
  · exact own l (by simpa using new) loops more
  · exact quiet.lasts l old loops more

end Places

section Forms

-- The code that prints a map is one long block.
set_option synthInstance.maxSize 1000

variable {C : Setting} {V : Scopes} {env : Env} [quiet : env.Quiet C.classes]

instance (format : String) (args : List Operand) : Quiet C.classes (printf format args) := by
  unfold printf
  infer_instance

instance (o : Operand) : Quiet C.classes (increment o) := by
  unfold increment
  infer_instance

instance (loop endL skip : String) (i n : Operand) : Quiet C.classes (loopHead loop endL skip i n) := by
  unfold loopHead
  infer_instance

instance (s : Sigil) : Quiet C.classes (printList env s) := by
  unfold printList
  infer_instance

instance : Quiet C.classes (printMap env) := by
  unfold printMap
  infer_instance

instance (b k : Value) [Quiet C.classes b.code] [Quiet C.classes k.code] : Quiet C.classes (printEntry env b k) := by
  unfold printEntry
  infer_instance

instance (v : Value) [Quiet C.classes v.code] : Quiet C.classes (printValue env v) := by
  unfold printValue
  split <;> infer_instance

instance (type : String) (exc : Operand) (next : String) : Quiet C.classes (testCatch exc type next) := by
  unfold testCatch
  infer_instance

instance (known : Bool) (label : String) : Quiet C.classes (jumpUnless known label) := by
  unfold jumpUnless
  infer_instance

instance (strSubject : Bool) (subject : Operand) (v : Expr) :
    Quiet C.classes (compareValue strSubject subject v) := by
  unfold compareValue
  infer_instance

variable (finds : env.Finds C V)

include finds

theorem quiet_value {e : Expr} (resolves : e.Resolves C V) : Quiet C.classes (value env e).code :=
  quiet_expr finds resolves

theorem quiet_print {e : Expr} (resolves : e.Resolves C V) : Quiet C.classes (print env e) := by
  unfold print
  dsimp only
  split
  · next base k found =>
      cases e with
      | index i b k' =>
          simp only [ mapEntry?] at found
          split at found
          · obtain ⟨rfl, rfl⟩ := Prod.mk.inj (Option.some.inj found)
            have := quiet_value finds resolves.1
            have := quiet_value finds resolves.2
            infer_instance
          · cases found
      | _ => cases found
  · have := quiet_value finds resolves
    infer_instance

theorem quiet_valueFor (target : Sigil) {e : Expr} (resolves : e.Resolves C V) :
    Quiet C.classes (valueFor env target e) := by
  unfold valueFor
  split
  · next i callee args =>
      split
      · next isInput =>
          rw [Bool.and_eq_true, Bool.not_eq_true'] at isInput
          obtain rfl : callee = LibFunc.input.name := by simpa using isInput.1
          have callee := resolves.1.resolve_left fun known => by
            simpa [isInput.2] using finds.known _ known
          have none_ : args = [] := List.length_eq_zero_iff.mp callee
          have : AllQuiet C.classes (args.map (value env)) := ⟨by simp [none_]⟩
          exact quiet_libraryCall env i.span _ .input _ (by simp [none_, LibFunc.arity])
      · exact quiet_expr finds resolves
  · exact quiet_expr finds resolves

omit quiet finds in
theorem quiet_store {name : String} (known : env.isVariable name) (at_ : Span) :
    Quiet C.classes (store env at_ name) := by
  obtain ⟨place, found⟩ := Option.isSome_iff_exists.mp known
  unfold store
  rw [found]
  infer_instance

theorem quiet_indexAssign (at_ : Span) {base k e : Expr} (targets : C.Targets V base k)
    (resolves : e.Resolves C V) : Quiet C.classes (indexAssign env at_ base k e) := by
  have (target : Sigil) := quiet_valueFor finds target resolves
  have := quiet_expr finds targets.first
  have := quiet_expr finds targets.second
  have := quiet_value finds targets.second
  unfold indexAssign
  split
  · next cls field found =>
      obtain ⟨isClass, j, rfl⟩ := of_staticRef? found
      obtain ⟨i, rfl, notVariable, -⟩ := of_classRef? isClass
      have exists_ := (targets.static i j cls field rfl rfl).resolve_left fun known =>
        notVariable (finds.known cls known)
      obtain ⟨symbol, found⟩ := Option.isSome_iff_exists.mp exists_
      rw [finds.staticField?, found]
      infer_instance
  · dsimp only
    infer_instance

omit finds in
theorem quiet_leave (at_ : Span) (goOn : Bool) (leads : ∃ l ∈ env.loops, !(goOn && l.isSwitch)) :
    Quiet C.classes (leave env at_ goOn) := by
  obtain ⟨l, found⟩ := Option.isSome_iff_exists.mp (List.find?_isSome.mpr leads)
  unfold leave
  rw [found]
  infer_instance

theorem quiet_returnStmt {o : Option Expr} (resolves : ∀ e ∈ o, e.Resolves C V) :
    Quiet C.classes (returnStmt env o) := by
  unfold returnStmt
  dsimp only
  cases o with
  | none => infer_instance
  | some e =>
      have := quiet_expr finds (resolves e rfl)
      infer_instance

theorem quiet_throwStmt (type : String) {e : Expr} (resolves : e.Resolves C V) :
    Quiet C.classes (throwStmt env type e) := by
  have := quiet_expr finds resolves
  unfold throwStmt
  dsimp only
  infer_instance

theorem quiet_loopTest (endL : String) {o : Option Expr} (resolves : ∀ e ∈ o, e.Resolves C V) :
    Quiet C.classes (loopTest env endL o) := by
  unfold loopTest
  cases o with
  | none => infer_instance
  | some e =>
      have := quiet_expr finds (resolves e rfl)
      infer_instance

/-- The values of clauses stand in a switch, but are compared in front of it. -/
theorem quiet_compareClauses (strSubject : Bool) (subject : Operand) {cs : List Clause}
    (resolves : clausesResolve C V cs) (declared : ∀ x ∈ declaredInClauses cs, env.isVariable x) :
    Quiet C.classes (compareClauses env strSubject subject cs) := by
  induction cs generalizing V with
  | nil => exact inferInstanceAs (Quiet C.classes (pure []))
  | cons c cs ih =>
      obtain ⟨own, others⟩ : (∀ x ∈ declaredNamesOf (clauseBody c), env.isVariable x) ∧
          ∀ x ∈ declaredInClauses cs, env.isVariable x := by
        cases c <;> exact List.forall_mem_append.mp declared
      cases c with
      | case_ s v body =>
          have := quiet_expr finds resolves.1
          have := ih (finds.behindAll own) resolves.2.2 others
          rw [compareClauses_case]
          infer_instance
      | default_ s body =>
          have := ih (finds.behindAll own) resolves.2 others
          unfold compareClauses
          infer_instance

omit quiet finds in
theorem quiet_clauseBodies {cs : List Clause} (bodies : ∀ c ∈ cs, Quiet C.classes (stmts env (clauseBody c)))
    (ls : List String) : Quiet C.classes (clauseBodies env cs ls) := by
  induction cs generalizing ls with
  | nil => cases ls <;> exact inferInstanceAs (Quiet C.classes (pure ()))
  | cons c cs ih =>
      obtain ⟨own, others⟩ := List.forall_mem_cons.mp bodies
      cases ls with
      | nil => cases c <;> exact inferInstanceAs (Quiet C.classes (pure ()))
      | cons l ls =>
          have := ih others ls
          rw [clauseBodies_cons]
          infer_instance

omit quiet finds in
theorem quiet_handlers {cs : List Catch} (bodies : ∀ c ∈ cs, Quiet C.classes (stmt env c.body))
    (known : ∀ c ∈ cs, env.isVariable c.name) (exc : Operand) (lastL : String) :
    Quiet C.classes (handlers env exc lastL cs) := by
  induction cs with
  | nil => exact inferInstanceAs (Quiet C.classes (pure false))
  | cons c cs ih =>
      obtain ⟨own, others⟩ := List.forall_mem_cons.mp bodies
      obtain ⟨variable_, variables_⟩ := List.forall_mem_cons.mp known
      have := ih others variables_
      have := quiet_store (C := C) variable_ c.span
      rw [handlers_cons]
      infer_instance

end Forms

theorem known_of_catches {env : Env} {cs : List Catch} (declared : ∀ x ∈ declaredInCatches cs, env.isVariable x) :
    ∀ c ∈ cs, env.isVariable c.name := by
  induction cs with
  | nil => exact List.forall_mem_nil _
  | cons c cs ih =>
      cases c
      obtain ⟨own, others⟩ := List.forall_mem_append.mp declared
      exact List.forall_mem_cons.mpr ⟨own _ List.mem_cons_self, ih others⟩

mutual

theorem quiet_stmt {C : Setting} {V : Scopes} {env : Env} (finds : env.Finds C V) (leaves : env.Leaves C)
    [quiet : env.Quiet C.classes] (s : Stmt) (resolves : s.Resolves C V)
    (declared : ∀ x ∈ declaredNames s, env.isVariable x) : Quiet C.classes (stmt env s) := by
  cases s with
  | print s e => exact quiet_print finds resolves
  | expr s e => exact quiet_expr finds resolves
  | throw_ s type e => exact quiet_throwStmt finds type resolves
  | return_ s e => exact quiet_returnStmt finds resolves
  | indexAssign s b k e => exact quiet_indexAssign finds s resolves.1 resolves.2
  | assign s name e =>
      have := quiet_valueFor finds (env.facts.var env.routine name) resolves.1
      have := quiet_store (C := C) (finds.known name resolves.2) s
      exact inferInstanceAs (Quiet C.classes (do valueFor env _ e; store env s name))
  | varDecl s name type init =>
      have := quiet_store (C := C) (declared name (List.mem_singleton.mpr rfl)) s
      cases init with
      | none => exact inferInstanceAs (Quiet C.classes (do defaultValue type; store env s name))
      | some e =>
          have := quiet_valueFor finds (env.facts.var env.routine name) (resolves e rfl)
          exact inferInstanceAs (Quiet C.classes (do valueFor env _ e; store env s name))
  | block s body => exact quiet_stmts finds.inner leaves body resolves declared
  | ifElse s c a b =>
      unfold Stmt.Resolves at resolves
      unfold declaredNames at declared
      obtain ⟨cond, first, second⟩ := resolves
      obtain ⟨own, others⟩ := List.forall_mem_append.mp declared
      have := quiet_expr finds cond
      have := quiet_stmt finds leaves a first own
      have := quiet_stmt? (finds.behind own) leaves b (by cases b <;> simp_all) (by cases b <;> simp_all)
      rw [stmt_ifElse]
      infer_instance
  | while_ s c body =>
      have := quiet_expr finds resolves.1
      have (exit next : String) : Quiet C.classes (stmt (env.inFrame exit next false) body) :=
        quiet_stmt (finds.inLoop exit next) (.inLoop env C exit next) body resolves.2 declared
      rw [stmt_while]
      infer_instance
  | doWhile s body c =>
      have := quiet_expr (finds.behind declared) resolves.2
      have (exit next : String) : Quiet C.classes (stmt (env.inFrame exit next false) body) :=
        quiet_stmt (finds.inLoop exit next) (.inLoop env C exit next) body resolves.1 declared
      rw [stmt_doWhile]
      infer_instance
  | for_ s init cond post body =>
      obtain ⟨first, test, next, inner⟩ := Stmt.resolves_for_iff.mp resolves
      unfold declaredNames at declared
      obtain ⟨own, others⟩ := List.forall_mem_append.mp declared
      have own : ∀ i ∈ init, ∀ x ∈ declaredNames i, env.isVariable x := by cases init <;> simp_all
      have inside := finds.inner.behindOption own
      have := quiet_stmt? finds.inner leaves init first own
      have (endL : String) := quiet_loopTest inside endL test
      have := quiet_stmt? inside leaves post (fun p mem => (next p mem).2)
        fun p mem => by simp [declaredNames_of_simple (next p mem).1]
      have (exit next : String) : Quiet C.classes (stmt (env.inFrame exit next false) body) :=
        quiet_stmt (inside.inLoop exit next) (.inLoop env C exit next) body inner others
      rw [stmt_for]
      infer_instance
  | switch s e cs =>
      have := quiet_expr finds resolves.1
      have (subject : Operand) : Quiet C.classes (compareClauses env e.sigil.isStr subject cs) :=
        quiet_compareClauses finds.inner.inSwitch _ subject resolves.2 declared
      have (endL : String) (ls : List String) :
          Quiet C.classes (clauseBodies (env.inFrame endL "" true) cs ls) :=
        quiet_clauseBodies (C := C.inSwitch) (quiet_clauses (finds.inner.inSwitch.inFrame endL "" true)
          (leaves.inSwitch endL) cs resolves.2 declared) ls
      rw [stmt_switch]
      infer_instance
  | break_ s =>
      refine quiet_leave s false ?_
      obtain ⟨l, rest, eq⟩ := List.exists_cons_of_ne_nil (leaves.breaks resolves)
      exact ⟨l, by simp [eq], rfl⟩
  | continue_ s =>
      refine quiet_leave s true ?_
      obtain ⟨l, mem, isLoop⟩ := leaves.continues resolves
      exact ⟨l, mem, by simp [isLoop]⟩
  | try_ s body cs last =>
      unfold Stmt.Resolves at resolves
      unfold declaredNames at declared
      obtain ⟨first, caught, final⟩ := resolves
      obtain ⟨both, lasts⟩ := List.forall_mem_append.mp declared
      obtain ⟨own, handled⟩ := List.forall_mem_append.mp both
      have lasts : ∀ l ∈ last, ∀ x ∈ declaredNames l, env.isVariable x := by cases last <;> simp_all
      have final : ∀ l ∈ last, l.Resolves C (V.behind C.inRoutine body) := by cases last <;> simp_all
      have := quiet_stmt? (finds.behind own) leaves last final lasts
      have block : ∀ l ∈ lastBlock? env last, ∀ loops : List LoopFrame, env.loops ⊆ loops →
          Quiet C.classes (l.run loops) := by
        intro l isLast loops more
        cases last with
        | none => cases isLast
        | some last =>
            obtain rfl := Option.some.inj isLast
            have : Env.Quiet C.classes { env with loops := loops } :=
              ⟨fun l mem loops' more' => quiet.lasts l mem loops' (List.Subset.trans more more')⟩
            exact quiet_stmt ((finds.behind own).with_loops loops) (leaves.of_subset more) last (final last rfl)
              (lasts last rfl)
      have guarded (label : String) : (env.guarded label (lastBlock? env last)).Quiet C.classes :=
        quiet_guarded label _ block
      have (label : String) : Quiet C.classes (stmt (env.guarded label (lastBlock? env last)) body) :=
        quiet_stmt (finds.guarded label _) (leaves.guarded label _) body first own
      have (label : String) (exc : Operand) (lastL : String) :
          Quiet C.classes (handlers (env.guarded label (lastBlock? env last)) exc lastL cs) :=
        quiet_handlers (quiet_catches ((finds.behind own).guarded label _) (leaves.guarded label _) cs caught handled)
          (known_of_catches handled) exc lastL
      rw [stmt_try]
      infer_instance
  | func f | class_ c | bare e | printStmt s b => exact resolves.elim

theorem quiet_stmt? {C : Setting} {V : Scopes} {env : Env} (finds : env.Finds C V) (leaves : env.Leaves C)
    [env.Quiet C.classes] (o : Option Stmt) (resolves : ∀ s ∈ o, s.Resolves C V)
    (declared : ∀ s ∈ o, ∀ x ∈ declaredNames s, env.isVariable x) : Quiet C.classes (stmt? env o) := by
  cases o with
  | none => exact inferInstanceAs (Quiet C.classes (pure ()))
  | some s => exact quiet_stmt finds leaves s (resolves s rfl) (declared s rfl)

theorem quiet_stmts {C : Setting} {V : Scopes} {env : Env} (finds : env.Finds C V) (leaves : env.Leaves C)
    [env.Quiet C.classes] (ss : List Stmt) (resolves : stmtsResolve C V ss)
    (declared : ∀ x ∈ declaredNamesOf ss, env.isVariable x) : Quiet C.classes (stmts env ss) := by
  cases ss with
  | nil => exact inferInstanceAs (Quiet C.classes (pure ()))
  | cons s ss =>
      obtain ⟨own, others⟩ := List.forall_mem_append.mp declared
      have := quiet_stmt finds leaves s resolves.1 own
      have := quiet_stmts (finds.behind own) leaves ss resolves.2 others
      exact inferInstanceAs (Quiet C.classes (do stmt env s; stmts env ss))

theorem quiet_clauses {C : Setting} {V : Scopes} {env : Env} (finds : env.Finds C V) (leaves : env.Leaves C)
    [env.Quiet C.classes] (cs : List Clause) (resolves : clausesResolve C V cs)
    (declared : ∀ x ∈ declaredInClauses cs, env.isVariable x) :
    ∀ c ∈ cs, Quiet C.classes (stmts env (clauseBody c)) := by
  match cs with
  | [] => exact nofun
  | .case_ s v body :: cs =>
      obtain ⟨own, others⟩ := List.forall_mem_append.mp declared
      exact List.forall_mem_cons.mpr ⟨quiet_stmts finds leaves body resolves.2.1 own,
        quiet_clauses (finds.behindAll own) leaves cs resolves.2.2 others⟩
  | .default_ s body :: cs =>
      obtain ⟨own, others⟩ := List.forall_mem_append.mp declared
      exact List.forall_mem_cons.mpr ⟨quiet_stmts finds leaves body resolves.1 own,
        quiet_clauses (finds.behindAll own) leaves cs resolves.2 others⟩

theorem quiet_catches {C : Setting} {V : Scopes} {env : Env} (finds : env.Finds C V) (leaves : env.Leaves C)
    [env.Quiet C.classes] (cs : List Catch) (resolves : catchesResolve C V cs)
    (declared : ∀ x ∈ declaredInCatches cs, env.isVariable x) :
    ∀ c ∈ cs, Quiet C.classes (stmt env c.body) := by
  match cs with
  | [] => exact nofun
  | ⟨s, type, name, body⟩ :: cs =>
      obtain ⟨own, others⟩ := List.forall_mem_append.mp declared
      obtain ⟨known, inner⟩ := List.forall_mem_cons.mp own
      have inside : env.Finds C ([name] :: V) := finds.of_scopes fun x mem => by
        rcases List.mem_cons.mp mem with rfl | old
        · exact .inr known
        · exact .inl old
      exact List.forall_mem_cons.mpr ⟨quiet_stmt inside leaves body resolves.1 inner,
        quiet_catches finds leaves cs resolves.2 others⟩

end

end Emit

end Lantern
