import Lantern.Proofs.Images

/-!
# What generated code asks for and writes

A licence names the strings that code may ask the pool for, and a slot that it may write only to keep a
returned value. The code of a form keeps to a licence where the code of its parts does; so the strings
that a statement asks for are those that a walk over it meets, and the slot behind the named locals of a
routine is written by nothing but its returns.
-/

namespace Lantern.Emit

open Assembly

/-- What code may do. -/
structure Licence where
  /-- The strings it may ask for. -/
  strings : String → Prop
  /-- The slot it writes only to keep a returned value. -/
  slot : Int

/-- The instruction that keeps a returned value in a slot. -/
def keepResult (slot : Int) : Instr := ⟨.mov, [.slot slot, rax], ""⟩

/-- Whether an operation fetches a parameter. -/
@[reducible] def fetches : Op → Bool
  | .loadparam => true
  | _ => false

/-- The operand that an instruction may change. -/
def target? (i : Instr) : Option Operand :=
  if fetches i.op then i.args.getLast? else i.args.head?

namespace Licence

/-- An instruction changes the slot only to keep a returned value. -/
def Allows (L : Licence) (i : Instr) : Prop := target? i = some (.slot L.slot) → i = keepResult L.slot

/-- An operand is not the slot. -/
class Spares (L : Licence) (o : Operand) : Prop where
  other : o ≠ .slot L.slot

/-- A string may be asked for. -/
class Grants (L : Licence) (s : String) : Prop where
  granted : L.strings s

end Licence

/-- A step of code generation adds only strings and instructions that the licence allows. -/
class Within (L : Licence) {α : Type} (x : Emitting α) : Prop where
  pool : ∀ g : Gen, ∃ asked : List String, (∀ s ∈ asked, L.strings s) ∧
    (x.run g).2.pool = asked.foldl addNew g.pool
  code : ∀ g : Gen, ∃ added : List Instr, (∀ i ∈ added, L.Allows i) ∧
    (x.run g).2.code.toList = g.code.toList ++ added

/-- The code of each operand keeps to the licence. -/
class AllWithin (L : Licence) (vs : List Value) : Prop where
  each : ∀ v ∈ vs, Within L v.code

/-- The code of each entry keeps to the licence. -/
class EntriesWithin (L : Licence) (es : List (Value × Value)) : Prop where
  each : ∀ e ∈ es, Within L e.1.code ∧ Within L e.2.code

/-! ## Steps -/

section Steps

variable {L : Licence} {α β : Type}

theorem within_quiet {x : Emitting α} (pool : ∀ g : Gen, (x.run g).2.pool = g.pool)
    (code : ∀ g : Gen, (x.run g).2.code = g.code) : Within L x :=
  ⟨fun g => ⟨[], nofun, pool g⟩, fun g => ⟨[], nofun, by simp [code g]⟩⟩

theorem within_emit {op : Op} {args : List Operand} (allowed : L.Allows ⟨op, args, ""⟩) :
    Within L (emit op args) :=
  ⟨fun _ => ⟨[], nofun, rfl⟩, fun _ => ⟨[_], List.forall_mem_singleton.mpr allowed, Array.toList_push⟩⟩

theorem Within.seq_of {R : α → Prop} {x : Emitting α} {f : α → Emitting β} (first : Within L x)
    (gives : ∀ g : Gen, R (x.run g).1) (rest : ∀ a, R a → Within L (f a)) : Within L (x >>= f) := by
  refine ⟨fun g => ?_, fun g => ?_⟩
  · obtain ⟨asked, granted, own⟩ := first.pool g
    obtain ⟨asked', granted', later⟩ := (rest _ (gives g)).pool (x.run g).2
    refine ⟨asked ++ asked', List.forall_mem_append.mpr ⟨granted, granted'⟩, ?_⟩
    rw [List.foldl_append, ← own]
    exact later
  · obtain ⟨added, allowed, own⟩ := first.code g
    obtain ⟨added', allowed', later⟩ := (rest _ (gives g)).code (x.run g).2
    refine ⟨added ++ added', List.forall_mem_append.mpr ⟨allowed, allowed'⟩, ?_⟩
    rw [← List.append_assoc, ← own]
    exact later

theorem Within.seq {x : Emitting α} {f : α → Emitting β} (first : Within L x) (rest : ∀ a, Within L (f a)) :
    Within L (x >>= f) :=
  first.seq_of (R := fun _ => True) (fun _ => trivial) fun a _ => rest a

instance (a : α) : Within L (pure a : Emitting α) := within_quiet (fun _ => rfl) fun _ => rfl

instance (x : Emitting α) (f : α → Emitting β) [first : Within L x] [rest : ∀ a, Within L (f a)] :
    Within L (x >>= f) := first.seq rest

instance (priority := 2000) (x : Emitting α) (y : Emitting β) [first : Within L x] [rest : Within L y] :
    Within L (x >>= fun _ => y) := first.seq fun _ => rest

instance (c : Prop) [Decidable c] (x y : Emitting α) [Within L x] [Within L y] :
    Within L (if c then x else y) := by
  split <;> infer_instance

theorem within_forM {xs : List α} {f : α → Emitting PUnit} (each : ∀ x ∈ xs, Within L (f x)) :
    Within L (xs.forM f) := by
  induction xs with
  | nil => exact inferInstanceAs (Within L (pure ()))
  | cons x xs ih =>
      obtain ⟨first, others⟩ := List.forall_mem_cons.mp each
      exact first.seq fun _ => ih others

/-! ### Operands -/

instance (r : Reg) : L.Spares (.reg r) := ⟨nofun⟩
instance (i : Int) : L.Spares (.arg i) := ⟨nofun⟩
instance (l : String) : L.Spares (.label l) := ⟨nofun⟩
instance (s : String) : L.Spares (.data s) := ⟨nofun⟩
instance : L.Spares rax := ⟨nofun⟩
instance : L.Spares rbx := ⟨nofun⟩
instance : L.Spares rdx := ⟨nofun⟩
instance : L.Spares r11 := ⟨nofun⟩
instance : L.Spares al := ⟨nofun⟩
instance : L.Spares eax := ⟨nofun⟩
instance : L.Spares edx := ⟨nofun⟩

-- Operands that come with a proof: the search for instances finds it in their type.
instance (o : { o : Operand // o ≠ .slot L.slot }) : L.Spares o.1 := ⟨o.2⟩

/-! ### Small steps -/

theorem target?_cons {op : Op} (plain : fetches op = false) (o : Operand) (args : List Operand) :
    target? ⟨op, o :: args, ""⟩ = some o := by
  simp only [target?, plain, Bool.false_eq_true, if_false, List.head?_cons]

instance (op : Op) (o : Operand) (args : List Operand) [plain : Unset (fetches op)] [spared : L.Spares o] :
    Within L (emit op (o :: args)) :=
  within_emit fun same => absurd (Option.some.inj ((target?_cons plain.unset o args).symm.trans same)) spared.other

instance (c : Prop) [Decidable c] (a b : Op) [Unset (fetches a)] [Unset (fetches b)] :
    Unset (fetches (if c then a else b)) := by
  split <;> infer_instance

instance (op : Op) : Within L (emit op []) := by
  refine within_emit fun same => ?_
  unfold target? at same
  split at same <;> cases same

instance (l : String) : Within L (place l) := inferInstanceAs (Within L (emit _ _))
instance (op : Op) (l : String) [Unset (fetches op)] : Within L (jump op l) :=
  inferInstanceAs (Within L (emit _ _))
instance : Within L testResult := inferInstanceAs (Within L (emit _ _))
instance : Within L zero := inferInstanceAs (Within L (emit _ _))
instance (base : String) : Within L (newLabel base) := within_quiet (fun _ => rfl) fun _ => rfl
instance (at_ : Span) (message : String) : Within L (warn at_ message) :=
  within_quiet (fun _ => rfl) fun _ => rfl
instance (n : Nat) : Within L (popTemps n) := within_quiet (fun _ => rfl) fun _ => rfl
instance (env : Env) : Within L (pushTemp env) := within_quiet (fun _ => rfl) fun _ => rfl

instance (s : String) [granted : L.Grants s] : Within L (str s) :=
  ⟨fun _ => ⟨[s], List.forall_mem_singleton.mpr granted.granted, rfl⟩,
    fun g => ⟨[], nofun, (List.append_nil g.code.toList).symm⟩⟩

instance (i : Nat) (args : List Operand) : Within L (setArgsFrom i args) := by
  induction args generalizing i with
  | nil => exact inferInstanceAs (Within L (pure ()))
  | cons a rest ih => unfold setArgsFrom; infer_instance

instance (args : List Operand) : Within L (setArgs args) := by
  have (f : Gen → Nat) : Within L (modify fun g => { g with maxCallArgs := f g } : Emitting Unit) :=
    within_quiet (fun _ => rfl) fun _ => rfl
  unfold setArgs
  infer_instance

instance (name : String) (args : List Operand) : Within L (call name args) := by
  have : Within L (modify fun g => { g with externs := addNew g.externs name } : Emitting Unit) :=
    within_quiet (fun _ => rfl) fun _ => rfl
  unfold call
  dsimp only
  infer_instance

end Steps

/-! ## Environments -/

/-- What a walk over the parts of a routine goes by where their code is generated. -/
def Env.around (env : Env) : Surroundings := ⟨env.classes, env.words, env.cls⟩

/-- The licence allows what the code below an environment does besides what its parts ask for. -/
class Env.Within (L : Licence) (env : Env) : Prop where
  /-- Returned values wait behind the named locals. -/
  slot : L.slot = env.locals.length
  /-- Pending last blocks keep to the licence. -/
  lasts : ∀ l ∈ env.lasts, ∀ loops, Emit.Within L (l.run loops)
  /-- A local that has the name of a class is not one to a walk, so that anything may be asked for. -/
  apart : ∀ name ∈ env.locals, env.classes.has name → ∀ s, L.strings s
  /-- Objects have method tables. -/
  table : env.cls ≠ "" ∨ env.classes ≠ [] → L.strings SymbolName.methodTableKey
  /-- New objects have the fields of their class. -/
  fields : ∀ cls, ∀ f ∈ env.classes.flatFields cls, ∀ s ∈ f.name :: fieldStrings env.around f, L.strings s

/-- A licence to ask for anything, for the code of a routine. -/
theorem Env.within_any (env : Env) (none_ : env.lasts = []) :
    env.Within ⟨fun _ => True, env.locals.length⟩ :=
  ⟨rfl, by simp [none_], fun _ _ _ _ => trivial, fun _ => trivial, fun _ _ _ _ _ => trivial⟩

section Frames

variable {L : Licence} {α : Type}

theorem spares_temp (env : Env) [within : env.Within L] (n : Nat) :
    Operand.slot (env.locals.length + 1 + n) ≠ .slot L.slot := by
  intro same
  have := Operand.slot.inj same
  have := within.slot
  omega

instance (priority := 3000) (env : Env) [env.Within L] (f : Operand → Emitting α)
    [rest : ∀ o : { o : Operand // o ≠ .slot L.slot }, Within L (f o.1)] : Within L (pushTemp env >>= f) :=
  Within.seq_of inferInstance (fun g => spares_temp env g.temps) fun o spared => rest ⟨o, spared⟩

instance (priority := 3000) (env : Env) [env.Within L] (f : Operand → Emitting α)
    [∀ o : { o : Operand // o ≠ .slot L.slot }, Within L (f o.1)] : Within L (spill env >>= f) := by
  simp only [spill, bind_assoc, pure_bind]
  infer_instance

variable {env : Env} [within : env.Within L]

/-- The slots of named locals lie below that of returned values. -/
theorem spares_of_lookup {name : String} {o : Operand} (found : env.lookup? name = some o) : L.Spares o := by
  refine ⟨?_⟩
  rintro rfl
  unfold Env.lookup? at found
  split at found
  · next i slot =>
      have below := (List.findIdx?_eq_some_iff_getElem.mp slot).1
      have := Operand.slot.inj (Option.some.inj found)
      have := within.slot
      omega
  · split at found <;> cases found

instance (at_ : Span) (name : String) : Within L (store env at_ name) := by
  unfold store
  split
  · next found =>
      have := spares_of_lookup (L := L) found
      infer_instance
  · infer_instance

end Frames

/-! ## Forms of expressions -/

section Operands

variable {L : Licence} (env : Env) [env.Within L] (at_ : Span) (c a b k l r v x d : Value) [Within L c.code]
  [Within L a.code] [Within L b.code] [Within L k.code] [Within L l.code] [Within L r.code] [Within L v.code]
  [Within L x.code] [Within L d.code]

omit [env.Within L] in
theorem AllWithin.head {v : Value} {vs : List Value} (all : AllWithin L (v :: vs)) : Within L v.code :=
  all.each v List.mem_cons_self

theorem AllWithin.tail {v : Value} {vs : List Value} (all : AllWithin L (v :: vs)) : AllWithin L vs :=
  ⟨fun v' mem => all.each v' (List.mem_cons_of_mem _ mem)⟩

instance (op : Op) [Unset (fetches op)] : Within L (flagValue op) := by
  unfold flagValue
  infer_instance

instance (op : UnaryOp) : Within L (unary op v) := by
  unfold unary
  split <;> infer_instance

instance : Within L (ternary c a b) := by
  unfold ternary
  infer_instance

instance (isOr : Bool) : Within L (shortCircuit isOr l r) := by
  cases isOr <;> dsimp only [shortCircuit] <;> infer_instance

instance : Within L (powerForm env l r) := by
  unfold powerForm
  infer_instance

instance (op : BinaryOp) : Within L (wordOp op) := by
  cases op <;> dsimp only [wordOp, compareOp?] <;> infer_instance

instance (op : BinaryOp) : Within L (strictBinary env op l r) := by
  unfold strictBinary
  dsimp only
  infer_instance

instance (op : BinaryOp) : Within L (binary env op l r) := by
  unfold binary
  split <;> infer_instance

instance : Within L (key v) := by
  unfold key
  split <;> infer_instance

omit [env.Within L] in
theorem within_pushElems (list : Operand) (vs : List Value) (all : AllWithin L vs) :
    Within L (pushElems list vs) := by
  induction vs with
  | nil => exact inferInstanceAs (Within L (pure ()))
  | cons v vs ih =>
      have := all.head
      have := ih all.tail
      unfold pushElems
      infer_instance

instance (vs : List Value) [all : AllWithin L vs] : Within L (listLit env vs) := by
  have (list : Operand) := within_pushElems list vs all
  unfold listLit
  infer_instance

theorem within_putEntries (map : Operand) (es : List (Value × Value)) (all : EntriesWithin L es) :
    Within L (putEntries env map es) := by
  induction es with
  | nil => exact inferInstanceAs (Within L (pure ()))
  | cons e es ih =>
      obtain ⟨_, _⟩ := all.each e List.mem_cons_self
      have := ih ⟨fun e' mem => all.each e' (List.mem_cons_of_mem _ mem)⟩
      unfold putEntries
      infer_instance

instance (es : List (Value × Value)) [all : EntriesWithin L es] : Within L (mapLit env es) := by
  have (map : Operand) := within_putEntries env map es all
  unfold mapLit
  infer_instance

omit [env.Within L] in
instance (kind : NodeKind) : Within L (unsupported at_ kind) := by
  unfold unsupported
  infer_instance

instance (name : String) : Within L (ident env at_ name) := by
  unfold ident
  split <;> infer_instance

instance (name : String) : Within L (funcRef env at_ name) := by
  unfold funcRef
  infer_instance

instance (op : StepOp) : Unset (fetches (stepInstr op)) := by
  cases op <;> exact ⟨rfl⟩

instance (op : StepOp) (first : Bool) (place : Operand) [L.Spares place] :
    Within L (stepPlace op first place) := by
  unfold stepPlace
  infer_instance

instance (op : StepOp) (first : Bool) (name : String) : Within L (stepVar env at_ op first name) := by
  unfold stepVar
  split
  · next found =>
      have := spares_of_lookup (L := L) found
      infer_instance
  · infer_instance

instance (cls field : String) : Within L (loadStatic env at_ cls field) := by
  unfold loadStatic
  split <;> infer_instance

instance : Within L (index env at_ b k) := by
  unfold index
  dsimp only
  split <;> infer_instance

instance (name : String) [L.Grants name] : Within L (member env at_ v name) := by
  unfold member
  split <;> infer_instance

instance (op : StepOp) (first : Bool) : Within L (stepElement env at_ op first b k) := by
  unfold stepElement
  split
  · split <;> infer_instance
  · dsimp only
    infer_instance

instance : Within L boolWord := by
  unfold boolWord
  infer_instance

instance (format : String) : Within L (readString format) := by
  unfold readString
  infer_instance

instance : Within L (lenForm v) := by
  unfold lenForm
  infer_instance

instance : Within L (strForm v) := by
  unfold strForm
  split <;> infer_instance

instance : Within L (numForm v) := by
  unfold numForm
  infer_instance

instance : Within L (containsForm env v x) := by
  dsimp only [containsForm]
  infer_instance

instance : Within L (deleteForm env v k) := by
  unfold deleteForm
  infer_instance

instance : Within L (getOrForm env v k d) := by
  unfold getOrForm
  infer_instance

instance : Within L (freeForm v) := by
  unfold freeForm
  infer_instance

instance (readStr : Bool) : Within L (inputForm readStr) := by
  unfold inputForm
  infer_instance

end Operands

section Calls

variable {L : Licence} (env : Env) [within : env.Within L] (at_ : Span) (args : List Value)
  [all : AllWithin L args]

instance (depth : Nat) : Within L (replay env depth) :=
  within_forM fun l mem => within.lasts l (List.mem_of_mem_take mem) env.loops

instance : Within L (raise env) := by
  unfold raise
  dsimp only
  infer_instance

instance : Within L (checkException env) := by
  unfold checkException
  infer_instance

instance (target : Operand) (ops : List Operand) [L.Spares target] : Within L (callRoutine env target ops) := by
  unfold callRoutine
  infer_instance

instance (address : Operand) (ops : List Operand) : Within L (callAddress env address ops) := by
  unfold callAddress
  infer_instance

instance (receiver : Operand) (ops : List Operand) : Within L (callMethod env receiver ops) := by
  unfold callMethod
  infer_instance

theorem within_evalArgs (vs : List Value) (all : AllWithin L vs) : Within L (evalArgs env vs) := by
  induction vs with
  | nil => exact inferInstanceAs (Within L (pure []))
  | cons v vs ih =>
      have := all.head
      have := ih all.tail
      unfold evalArgs
      infer_instance

instance : Within L (evalArgs env args) := within_evalArgs env args all

instance (f : LibFunc) (readStr : Bool) : Within L (libraryCall env at_ f readStr args) := by
  unfold libraryCall
  split
  · infer_instance
  · split
    case h_1 | h_9 | h_10 | h_11 => infer_instance
    case h_2 | h_3 | h_4 | h_8 =>
      have := all.head
      infer_instance
    case h_5 | h_6 =>
      have := all.head
      have := all.tail.head
      infer_instance
    case h_7 =>
      have := all.head
      have := all.tail.head
      have := all.tail.tail.head
      infer_instance

instance (name : String) : Within L (callByName env at_ name args) := by
  unfold callByName
  split
  · infer_instance
  · split <;> infer_instance

instance (cls name : String) : Within L (staticCall env at_ cls name args) := by
  unfold staticCall
  split <;> infer_instance

theorem within_superCall {name : String} (asked : ∀ s ∈ env.around.methodStrings (.super ⟨at_, none, none⟩) name, L.strings s) :
    Within L (superCall env at_ name args) := by
  unfold superCall
  split
  · next named =>
      have named : env.cls ≠ "" := by simpa using named
      have : L.Grants SymbolName.methodTableKey := ⟨within.table (.inl named)⟩
      have : L.Grants (SymbolName.superKey env.cls name) :=
        ⟨asked _ (by simp [Surroundings.methodStrings, Env.around, named])⟩
      infer_instance
  · infer_instance

/-- The generator takes a name for a class where a walk does, but for names of locals. -/
theorem isClassRef_around {e : Expr} (notClass : env.classRef? e = none) (lax : ¬∀ s, L.strings s) :
    env.around.isClassRef e = false := by
  cases e with
  | ident i name =>
      by_contra isClass
      simp only [Surroundings.isClassRef, Env.around, Bool.not_eq_false, Bool.and_eq_true, Bool.not_eq_true'] at isClass
      obtain ⟨noWord, known⟩ := isClass
      refine lax (within.apart name ?_ known)
      by_contra noLocal
      have noVariable : env.isVariable name = false := by
        simp [Env.isVariable, Env.lookup?, List.idxOf?_eq_none_iff.mpr noLocal, by simpa using noWord]
      simp [Env.classRef?, noVariable, known] at notClass
  | _ => rfl

theorem within_methodCall (receiver : Value) [Within L receiver.code] {name : String}
    (asked : ∀ s ∈ env.around.methodStrings receiver.expr name, L.strings s) :
    Within L (methodCall env at_ receiver name args) := by
  unfold methodCall
  split
  · next i isSuper => exact within_superCall env at_ args (by simpa [isSuper, Surroundings.methodStrings] using asked)
  · split
    · infer_instance
    · next notSuper _ notClass =>
        have both : L.strings SymbolName.methodTableKey ∧ L.strings name := by
          by_cases lax : ∀ s, L.strings s
          · exact ⟨lax _, lax _⟩
          · have isDispatch : env.around.methodStrings receiver.expr name = [SymbolName.methodTableKey, name] := by
              unfold Surroundings.methodStrings
              split
              · next i isSuper => exact absurd isSuper (notSuper i)
              · rw [isClassRef_around env notClass lax]
                rfl
            rw [isDispatch] at asked
            exact ⟨asked _ (by simp), asked _ (by simp)⟩
        have : L.Grants SymbolName.methodTableKey := ⟨both.1⟩
        have : L.Grants name := ⟨both.2⟩
        unfold dispatch
        infer_instance

instance (c : ClassDecl) (obj : Operand) : Within L (construct env at_ c obj args) := by
  unfold construct
  infer_instance

omit within all in
theorem within_defaultValue {type : Option Sigil} (asked : ∀ s ∈ defaultStrings type none, L.strings s) :
    Within L (defaultValue type) := by
  unfold defaultValue
  split
  · infer_instance
  · infer_instance
  · have : L.Grants "" := ⟨asked _ (by simp [defaultStrings, Sigil.isStr])⟩
    infer_instance
  · infer_instance

omit within all in
theorem within_setFields (w : Surroundings) (obj : Operand) (initial : Expr → Emitting Unit) (fs : List Field)
    (asked : ∀ f ∈ fs, ∀ s ∈ f.name :: fieldStrings w f, L.strings s)
    (each : ∀ f ∈ fs, ∀ e ∈ f.init, Within L (initial e)) : Within L (setFields obj initial fs) := by
  induction fs with
  | nil => exact inferInstanceAs (Within L (pure ()))
  | cons f fs ih =>
      obtain ⟨own, others⟩ := List.forall_mem_cons.mp each
      obtain ⟨asks, later⟩ := List.forall_mem_cons.mp asked
      obtain ⟨name, strings⟩ := List.forall_mem_cons.mp asks
      have := ih later others
      have : L.Grants f.name := ⟨name⟩
      unfold setFields
      dsimp only
      split
      · next e isInit =>
          have := own e isInit
          infer_instance
      · next none_ =>
          have inDefault : ∀ s ∈ defaultStrings f.type none, L.strings s := fun s mem =>
            strings s (List.mem_append_left _ (none_ ▸ mem))
          have := within_defaultValue inDefault
          infer_instance

theorem within_newObject (initial : Expr → Emitting Unit) (cls : String)
    (each : ∀ f ∈ env.classes.flatFields cls, ∀ e ∈ f.init, Within L (initial e)) :
    Within L (newObject env initial at_ cls args) := by
  unfold newObject
  split
  · infer_instance
  · next c known =>
      have : L.Grants SymbolName.methodTableKey :=
        ⟨within.table (.inr (List.ne_nil_of_mem (List.mem_of_find?_eq_some known)))⟩
      have (obj : Operand) := within_setFields env.around obj initial _ (within.fields cls) each
      dsimp only
      infer_instance

end Calls

/-! ## Expressions -/

section Expressions

-- The linter looks at each theorem of the block below by itself.
set_option linter.unusedSectionVars false

variable {L : Licence} {env : Env} [env.Within L] (initial : Expr → Emitting Unit)
  (each : ∀ cls, ∀ f ∈ env.classes.flatFields cls, ∀ e ∈ f.init, Within L (initial e))

include each

mutual

theorem within_exprWith (e : Expr) (asked : ∀ s ∈ exprStrings env.around e, L.strings s) :
    Within L (exprWith initial env e) := by
  cases e with
  | number | ident | super | funcRef => unfold exprWith; infer_instance
  | bool i v => unfold exprWith; infer_instance
  | str i v =>
      have : L.Grants v := ⟨asked v (List.mem_singleton.mpr rfl)⟩
      unfold exprWith
      infer_instance
  | binary i op l r =>
      obtain ⟨left, right⟩ := List.forall_mem_append.mp asked
      have := within_exprWith l left
      have := within_exprWith r right
      unfold exprWith
      infer_instance
  | unary i op e =>
      have := within_exprWith e asked
      unfold exprWith
      infer_instance
  | ternary i c a b =>
      obtain ⟨both, third⟩ := List.forall_mem_append.mp asked
      obtain ⟨first, second⟩ := List.forall_mem_append.mp both
      have := within_exprWith c first
      have := within_exprWith a second
      have := within_exprWith b third
      unfold exprWith
      infer_instance
  | list i es =>
      have := within_valuesWith es asked
      unfold exprWith
      infer_instance
  | map i es =>
      have := within_entriesWith es asked
      unfold exprWith
      infer_instance
  | index i b k =>
      obtain ⟨base, key⟩ := List.forall_mem_append.mp asked
      have := within_exprWith b base
      have := within_exprWith k key
      unfold exprWith
      infer_instance
  | member i o name =>
      obtain ⟨own, object⟩ := List.forall_mem_cons.mp asked
      have : L.Grants name := ⟨own⟩
      have := within_exprWith o object
      unfold exprWith
      infer_instance
  | call i callee args =>
      have := within_valuesWith args asked
      unfold exprWith
      infer_instance
  | method i r name args =>
      obtain ⟨both, operands⟩ := List.forall_mem_append.mp asked
      obtain ⟨own, receiver⟩ := List.forall_mem_append.mp both
      have := within_exprWith r receiver
      have := within_valuesWith args operands
      unfold exprWith
      exact within_methodCall env i.span _ ⟨r, exprWith initial env r⟩ own
  | new_ i cls args =>
      have := within_valuesWith args asked
      unfold exprWith
      exact within_newObject env i.span _ initial cls (each cls)
  | step i op first t =>
      cases t with
      | index j b k =>
          obtain ⟨base, key⟩ := List.forall_mem_append.mp asked
          have := within_exprWith b base
          have := within_exprWith k key
          unfold exprWith
          infer_instance
      | member j o name =>
          obtain ⟨own, object⟩ := List.forall_mem_cons.mp asked
          have : L.Grants name := ⟨own⟩
          have := within_exprWith o object
          unfold exprWith
          infer_instance
      | _ => unfold exprWith; infer_instance

theorem within_valuesWith (es : List Expr) (asked : ∀ s ∈ exprsStrings env.around es, L.strings s) :
    AllWithin L (valuesWith initial env es) := by
  cases es with
  | nil => exact ⟨nofun⟩
  | cons e es =>
      obtain ⟨own, others⟩ := List.forall_mem_append.mp asked
      exact ⟨List.forall_mem_cons.mpr ⟨within_exprWith e own, (within_valuesWith es others).each⟩⟩

theorem within_entriesWith (es : List (Expr × Expr))
    (asked : ∀ s ∈ entriesStrings env.around es, L.strings s) :
    EntriesWithin L (entriesWith initial env es) := by
  match es with
  | [] => exact ⟨nofun⟩
  | (k, v) :: es =>
      obtain ⟨both, others⟩ := List.forall_mem_append.mp asked
      obtain ⟨key, value⟩ := List.forall_mem_append.mp both
      exact ⟨List.forall_mem_cons.mpr ⟨⟨within_exprWith k key, within_exprWith v value⟩,
        (within_entriesWith es others).each⟩⟩

end

end Expressions

section Values

variable {L : Licence} (env : Env) [within : env.Within L]

theorem within_exprAt (depth : Nat) {e : Expr} (asked : ∀ s ∈ exprStrings env.around e, L.strings s) :
    Within L (exprAt depth env e) := by
  induction depth generalizing e with
  | zero => exact within_exprWith _ (fun _ _ _ _ _ => inferInstance) e asked
  | succ depth ih =>
      refine within_exprWith _ (fun cls f mem e' isInit => ih fun s inside => ?_) e asked
      refine within.fields cls f mem s (List.mem_cons_of_mem _ (List.mem_append_right _ ?_))
      exact List.mem_flatMap.mpr ⟨e', Option.mem_toList.mpr isInit, inside⟩

theorem within_expr {e : Expr} (asked : ∀ s ∈ exprStrings env.around e, L.strings s) :
    Within L (expr env e) := within_exprAt env _ asked

theorem within_value {e : Expr} (asked : ∀ s ∈ exprStrings env.around e, L.strings s) :
    Within L (value env e).code := within_expr env asked

theorem within_values {es : List Expr} (asked : ∀ s ∈ exprsStrings env.around es, L.strings s) :
    AllWithin L (es.map (value env)) := by
  induction es with
  | nil => exact ⟨nofun⟩
  | cons e es ih =>
      obtain ⟨own, others⟩ := List.forall_mem_append.mp asked
      exact ⟨List.forall_mem_cons.mpr ⟨within_value env own, (ih others).each⟩⟩

theorem within_valueFor (target : Sigil) {e : Expr} (asked : ∀ s ∈ exprStrings env.around e, L.strings s) :
    Within L (valueFor env target e) := by
  unfold valueFor
  split
  · have := within_values env asked
    split
    · infer_instance
    · exact within_expr env asked
  · exact within_expr env asked

end Values

/-! ## Statements -/

section Forms

-- The code that prints a map is one long block.
set_option synthInstance.maxSize 1000

variable {L : Licence} (env : Env) [within : env.Within L]

instance (format : String) (args : List Operand) : Within L (printf format args) := by
  unfold printf
  infer_instance

instance (o : Operand) [L.Spares o] : Within L (increment o) := by
  unfold increment
  infer_instance

instance (loop endL skip : String) (i n : Operand) [L.Spares i] : Within L (loopHead loop endL skip i n) := by
  unfold loopHead
  infer_instance

instance (s : Sigil) : Within L (printList env s) := by
  unfold printList
  infer_instance

instance : Within L (printMap env) := by
  unfold printMap
  infer_instance

instance (b k : Value) [Within L b.code] [Within L k.code] : Within L (printEntry env b k) := by
  unfold printEntry
  infer_instance

instance (v : Value) [Within L v.code] : Within L (printValue env v) := by
  unfold printValue
  split <;> infer_instance

instance (known : Bool) (label : String) : Within L (jumpUnless known label) := by
  unfold jumpUnless
  infer_instance

instance (strSubject : Bool) (subject : Operand) (v : Expr) : Within L (compareValue strSubject subject v) := by
  unfold compareValue
  infer_instance

theorem within_print {e : Expr} (asked : ∀ s ∈ exprStrings env.around e, L.strings s) :
    Within L (print env e) := by
  unfold print
  dsimp only
  split
  · next base k found =>
      cases e with
      | index i b k' =>
          simp only [ mapEntry?] at found
          split at found
          · obtain ⟨rfl, rfl⟩ := Prod.mk.inj (Option.some.inj found)
            obtain ⟨base, key⟩ := List.forall_mem_append.mp asked
            have := within_value env base
            have := within_value env key
            infer_instance
          · cases found
      | _ => cases found
  · have := within_value env asked
    infer_instance

theorem within_indexAssign (at_ : Span) {base k e : Expr} (inBase : ∀ s ∈ exprStrings env.around base, L.strings s)
    (inKey : ∀ s ∈ exprStrings env.around k, L.strings s) (inValue : ∀ s ∈ exprStrings env.around e, L.strings s) :
    Within L (indexAssign env at_ base k e) := by
  have (target : Sigil) := within_valueFor env target inValue
  have := within_expr env inBase
  have := within_expr env inKey
  have := within_value env inKey
  unfold indexAssign
  split
  · split <;> infer_instance
  · dsimp only
    infer_instance

instance (at_ : Span) (goOn : Bool) : Within L (leave env at_ goOn) := by
  unfold leave
  split <;> infer_instance

theorem within_returnStmt {o : Option Expr} (asked : ∀ s ∈ optionStrings env.around o, L.strings s) :
    Within L (returnStmt env o) := by
  have keep : Within L (emit .mov [env.retSlot, rax]) := within_emit fun _ => by
    rw [keepResult, within.slot]
    rfl
  unfold returnStmt
  dsimp only
  cases o with
  | none => infer_instance
  | some e =>
      have := within_expr env (e := e) (by simpa [optionStrings] using asked)
      infer_instance

theorem within_throwStmt (type : String) {e : Expr} (inValue : ∀ s ∈ exprStrings env.around e, L.strings s)
    (inType : (!type.isEmpty || !e.sigil.isObject) = true →
      L.strings (if type.isEmpty then defaultExceptionType else type)) : Within L (throwStmt env type e) := by
  have := within_expr env inValue
  unfold throwStmt
  dsimp only
  split
  · next made =>
      have : L.Grants (if type.isEmpty then defaultExceptionType else type) := ⟨inType made⟩
      infer_instance
  · infer_instance

theorem within_testCatch (exc : Operand) {type : String} (next : String)
    (asked : type.isEmpty = false → L.strings type) : Within L (testCatch exc type next) := by
  unfold testCatch
  by_cases any : type.isEmpty
  · simp only [any, if_true]
    infer_instance
  · have : L.Grants type := ⟨asked (by simpa using any)⟩
    infer_instance

theorem within_loopTest (endL : String) {o : Option Expr} (asked : ∀ s ∈ optionStrings env.around o, L.strings s) :
    Within L (loopTest env endL o) := by
  unfold loopTest
  cases o with
  | none => infer_instance
  | some e =>
      have := within_expr env (e := e) (by simpa [optionStrings] using asked)
      infer_instance

theorem within_compareClauses (strSubject : Bool) (subject : Operand) {cs : List Clause}
    (asked : ∀ s ∈ clausesStrings env.around cs, L.strings s) :
    Within L (compareClauses env strSubject subject cs) := by
  induction cs with
  | nil => exact inferInstanceAs (Within L (pure []))
  | cons c cs ih =>
      cases c with
      | case_ s v body =>
          obtain ⟨both, others⟩ := List.forall_mem_append.mp asked
          have := within_expr env (List.forall_mem_append.mp both).1
          have := ih others
          rw [compareClauses_case]
          infer_instance
      | default_ s body =>
          have := ih (List.forall_mem_append.mp asked).2
          unfold compareClauses
          infer_instance

omit within in
theorem within_clauseBodies {cs : List Clause} (bodies : ∀ c ∈ cs, Within L (stmts env (clauseBody c)))
    (ls : List String) : Within L (clauseBodies env cs ls) := by
  induction cs generalizing ls with
  | nil => cases ls <;> exact inferInstanceAs (Within L (pure ()))
  | cons c cs ih =>
      obtain ⟨own, others⟩ := List.forall_mem_cons.mp bodies
      cases ls with
      | nil => cases c <;> exact inferInstanceAs (Within L (pure ()))
      | cons l ls =>
          have := ih others ls
          rw [clauseBodies_cons]
          infer_instance

theorem within_handlers {cs : List Catch} (bodies : ∀ c ∈ cs, Within L (stmt env c.body))
    (types : ∀ c ∈ cs, c.type.isEmpty = false → L.strings c.type) (exc : Operand) (lastL : String) :
    Within L (handlers env exc lastL cs) := by
  induction cs with
  | nil => exact inferInstanceAs (Within L (pure false))
  | cons c cs ih =>
      obtain ⟨own, others⟩ := List.forall_mem_cons.mp bodies
      obtain ⟨type, types⟩ := List.forall_mem_cons.mp types
      have := ih others types
      have (next : String) := within_testCatch (L := L) exc next type
      rw [handlers_cons]
      infer_instance

instance (exit next : String) (isSwitch : Bool) : (env.inFrame exit next isSwitch).Within L :=
  ⟨within.slot, within.lasts, within.apart, within.table, within.fields⟩

theorem within_guarded (label : String) {last : Option LastBlock}
    (own : ∀ l ∈ last, ∀ loops, Within L (l.run loops)) : (env.guarded label last).Within L := by
  refine ⟨within.slot, fun l mem loops => ?_, within.apart, within.table, within.fields⟩
  rcases List.mem_append.mp mem with new | old
  · exact own l (by simpa using new) loops
  · exact within.lasts l old loops

end Forms

section Strings

variable {w : Surroundings} {P : String → Prop}

/-- Every string that a statement which may be missing asks for. -/
theorem forall_strings_option {o : Option Stmt} (asked : ∀ s ∈ (match o with
    | some s => stmtStrings w s
    | none => []), P s) : ∀ s ∈ o, ∀ v ∈ stmtStrings w s, P v := by
  cases o with
  | none => exact nofun
  | some s => exact fun _ same => Option.some.inj same ▸ asked

theorem forall_types {cs : List Catch} (asked : ∀ s ∈ catchesStrings w cs, P s) :
    ∀ c ∈ cs, c.type.isEmpty = false → P c.type := by
  induction cs with
  | nil => exact nofun
  | cons c cs ih =>
      cases c with
      | mk span type name body =>
          obtain ⟨own, others⟩ := List.forall_mem_append.mp asked
          refine List.forall_mem_cons.mpr ⟨fun named => ?_, ih others⟩
          exact (List.forall_mem_append.mp own).1 type (by simpa using named)

end Strings

mutual

/-- The code of a statement asks for the strings that a walk over it meets. -/
theorem within_stmt {L : Licence} (env : Env) [within : env.Within L] (s : Stmt)
    (asked : ∀ v ∈ stmtStrings env.around s, L.strings v) : Within L (stmt env s) := by
  cases s with
  | print s e => exact within_print env asked
  | expr s e => exact within_expr env asked
  | bare e => exact inferInstanceAs (Within L (warn _ _))
  | func f | class_ c => exact inferInstanceAs (Within L (warn _ _))
  | printStmt s b =>
      exact inferInstanceAs (Within L (do unsupported b.span b.kind; printf "fmt_int" [rax]; printf "newline" []))
  | throw_ s type e =>
      obtain ⟨inType, inValue⟩ := List.forall_mem_append.mp asked
      refine within_throwStmt env type inValue fun made => inType _ ?_
      by_cases named : type.isEmpty <;> simp_all
  | return_ s e => exact within_returnStmt env asked
  | indexAssign s b k e =>
      obtain ⟨both, inValue⟩ := List.forall_mem_append.mp asked
      obtain ⟨inBase, inKey⟩ := List.forall_mem_append.mp both
      exact within_indexAssign env s inBase inKey inValue
  | assign s name e =>
      have := within_valueFor env (env.facts.var env.routine name) asked
      exact inferInstanceAs (Within L (do valueFor env _ e; store env s name))
  | varDecl s name type init =>
      obtain ⟨inDefault, inValue⟩ := List.forall_mem_append.mp asked
      cases init with
      | none =>
          have := within_defaultValue inDefault
          exact inferInstanceAs (Within L (do defaultValue type; store env s name))
      | some e =>
          have := within_valueFor env (env.facts.var env.routine name) (e := e)
            (by simpa [optionStrings] using inValue)
          exact inferInstanceAs (Within L (do valueFor env _ e; store env s name))
  | block s body => exact within_stmts env body asked
  | ifElse s c a b =>
      unfold stmtStrings at asked
      obtain ⟨both, second⟩ := List.forall_mem_append.mp asked
      obtain ⟨cond, first⟩ := List.forall_mem_append.mp both
      have := within_expr env cond
      have := within_stmt env a first
      have := within_stmt? env b (forall_strings_option second)
      rw [stmt_ifElse]
      infer_instance
  | while_ s c body =>
      obtain ⟨cond, inner⟩ := List.forall_mem_append.mp asked
      have := within_expr env cond
      have (exit next : String) := within_stmt (env.inFrame exit next false) body inner
      rw [stmt_while]
      infer_instance
  | doWhile s body c =>
      obtain ⟨inner, cond⟩ := List.forall_mem_append.mp asked
      have := within_expr env cond
      have (exit next : String) := within_stmt (env.inFrame exit next false) body inner
      rw [stmt_doWhile]
      infer_instance
  | for_ s init cond post body =>
      unfold stmtStrings at asked
      obtain ⟨three, inner⟩ := List.forall_mem_append.mp asked
      obtain ⟨two, next⟩ := List.forall_mem_append.mp three
      obtain ⟨first, test⟩ := List.forall_mem_append.mp two
      have := within_stmt? env init (forall_strings_option first)
      have (endL : String) := within_loopTest env endL test
      have := within_stmt? env post (forall_strings_option next)
      have (exit next : String) := within_stmt (env.inFrame exit next false) body inner
      rw [stmt_for]
      infer_instance
  | switch s e cs =>
      obtain ⟨inSubject, inClauses⟩ := List.forall_mem_append.mp asked
      have := within_expr env inSubject
      have (subject : Operand) := within_compareClauses env e.sigil.isStr subject inClauses
      have (endL : String) (ls : List String) :=
        within_clauseBodies (env.inFrame endL "" true) (within_clauses (env.inFrame endL "" true) cs inClauses) ls
      rw [stmt_switch]
      infer_instance
  | break_ s => exact inferInstanceAs (Within L (leave env s false))
  | continue_ s => exact inferInstanceAs (Within L (leave env s true))
  | try_ s body cs last =>
      unfold stmtStrings at asked
      obtain ⟨both, inLast⟩ := List.forall_mem_append.mp asked
      obtain ⟨inBody, inHandlers⟩ := List.forall_mem_append.mp both
      have inLast := forall_strings_option inLast
      have := within_stmt? env last inLast
      have block : ∀ l ∈ lastBlock? env last, ∀ loops, Within L (l.run loops) := by
        intro l isLast loops
        cases last with
        | none => cases isLast
        | some last =>
            obtain rfl := Option.some.inj isLast
            have : Env.Within L { env with loops := loops } :=
              ⟨within.slot, within.lasts, within.apart, within.table, within.fields⟩
            exact within_stmt { env with loops := loops } last (inLast last rfl)
      have guarded (label : String) := within_guarded env label block
      have (label : String) := within_stmt (env.guarded label (lastBlock? env last)) body inBody
      have (label : String) (exc : Operand) (lastL : String) :=
        within_handlers (env.guarded label (lastBlock? env last))
          (within_catches (env.guarded label (lastBlock? env last)) cs inHandlers) (forall_types inHandlers) exc lastL
      rw [stmt_try]
      set_option synthInstance.maxSize 1000 in
      infer_instance

theorem within_stmt? {L : Licence} (env : Env) [within : env.Within L] (o : Option Stmt)
    (asked : ∀ s ∈ o, ∀ v ∈ stmtStrings env.around s, L.strings v) : Within L (stmt? env o) := by
  cases o with
  | none => exact inferInstanceAs (Within L (pure ()))
  | some s => exact within_stmt env s (asked s rfl)

theorem within_stmts {L : Licence} (env : Env) [within : env.Within L] (ss : List Stmt)
    (asked : ∀ v ∈ stmtsStrings env.around ss, L.strings v) : Within L (stmts env ss) := by
  cases ss with
  | nil => exact inferInstanceAs (Within L (pure ()))
  | cons s ss =>
      obtain ⟨own, others⟩ := List.forall_mem_append.mp asked
      have := within_stmt env s own
      have := within_stmts env ss others
      exact inferInstanceAs (Within L (do stmt env s; stmts env ss))

theorem within_clauses {L : Licence} (env : Env) [within : env.Within L] (cs : List Clause)
    (asked : ∀ v ∈ clausesStrings env.around cs, L.strings v) :
    ∀ c ∈ cs, Within L (stmts env (clauseBody c)) := by
  match cs with
  | [] => exact nofun
  | .case_ s v body :: cs =>
      obtain ⟨both, others⟩ := List.forall_mem_append.mp asked
      exact List.forall_mem_cons.mpr ⟨within_stmts env body (List.forall_mem_append.mp both).2,
        within_clauses env cs others⟩
  | .default_ s body :: cs =>
      obtain ⟨own, others⟩ := List.forall_mem_append.mp asked
      exact List.forall_mem_cons.mpr ⟨within_stmts env body own, within_clauses env cs others⟩

theorem within_catches {L : Licence} (env : Env) [within : env.Within L] (cs : List Catch)
    (asked : ∀ v ∈ catchesStrings env.around cs, L.strings v) : ∀ c ∈ cs, Within L (stmt env c.body) := by
  match cs with
  | [] => exact nofun
  | ⟨s, type, name, body⟩ :: cs =>
      obtain ⟨both, others⟩ := List.forall_mem_append.mp asked
      exact List.forall_mem_cons.mpr ⟨within_stmt env body (List.forall_mem_append.mp both).2,
        within_catches env cs others⟩

end

/-! ## Routines -/

section Routines

variable {L : Licence} (env : Env)

instance [within : env.Within L] (t : Tail) : (env.enter t).Within L :=
  ⟨within.slot, nofun, within.apart, within.table, within.fields⟩

instance : Within L newTail := by
  unfold newTail
  infer_instance

instance (t : Tail) : Within L (routineEnd t) := by
  unfold routineEnd
  infer_instance

instance (t : Tail) : Within L (mainEnd t) := by
  unfold mainEnd
  infer_instance

theorem within_loadParams (slot : L.slot = env.locals.length) (i : Nat) {names : List String}
    (known : ∀ x ∈ names, x ∈ env.locals) : Within L (loadParams env i names) := by
  induction names generalizing i with
  | nil => exact inferInstanceAs (Within L (pure ()))
  | cons name names ih =>
      obtain ⟨own, others⟩ := List.forall_mem_cons.mp known
      have := ih (i + 1) others
      have : Within L (emit .loadparam [.arg i, .slot (env.locals.idxOf name)]) := by
        refine within_emit fun same => ?_
        have below := List.idxOf_lt_length_of_mem own
        have := Operand.slot.inj (Option.some.inj same)
        omega
      unfold loadParams
      infer_instance

/-- The code of a routine keeps to a licence that allows what its body asks for. -/
theorem within_routineCode [within : env.Within L] {names : List String} (known : ∀ x ∈ names, x ∈ env.locals)
    {body : Stmt} (asked : ∀ v ∈ stmtStrings env.around body, L.strings v) :
    Within L (routineCode env names body) := by
  have := within_loadParams env within.slot 0 known
  have (t : Tail) := within_stmt (env.enter t) body asked
  unfold routineCode
  infer_instance

theorem within_methodTable {c : ClassDecl}
    (asked : ∀ m ∈ env.classes.flatMethods c.name ++ env.classes.superEntries c.name, L.strings m.key) :
    Within L (methodTable env c) := by
  have (table : Operand) : Within L ((env.classes.flatMethods c.name ++ env.classes.superEntries c.name).forM
      fun m => do call "lm_map_set" [table, ← str m.key, .addr m.symbol, imm 0]) :=
    within_forM fun m mem =>
      have : L.Grants m.key := ⟨asked m mem⟩
      inferInstance
  unfold methodTable
  infer_instance

theorem within_staticInit [env.Within L] {c : ClassDecl}
    (asked : ∀ f ∈ c.fields, ∀ v ∈ fieldStrings env.around f, L.strings v) : Within L (staticInit env c) := by
  refine within_forM fun f mem => ?_
  have asked := asked f (List.mem_of_mem_filter mem)
  cases init : f.init with
  | none =>
      rw [fieldStrings, init] at asked
      have := within_defaultValue (List.forall_mem_append.mp asked).1
      infer_instance
  | some e =>
      rw [fieldStrings, init] at asked
      have := within_expr env (e := e) (by simpa [optionStrings] using (List.forall_mem_append.mp asked).2)
      infer_instance

/-- The code of the main routine keeps to a licence that allows what the method tables, the static fields
    and the top-level statements ask for. -/
theorem within_mainCode [within : env.Within L] (seed : Int64) {items : List Stmt}
    (tables : ∀ c ∈ env.classes, ∀ m ∈ env.classes.flatMethods c.name ++ env.classes.superEntries c.name,
      L.strings m.key)
    (statics : ∀ c ∈ env.classes, ∀ f ∈ c.fields, ∀ v ∈ fieldStrings env.around f, L.strings v)
    (asked : ∀ v ∈ stmtsStrings env.around items, L.strings v) : Within L (mainCode env seed items) := by
  have (t : Tail) : Within L ((env.enter t).classes.forM (methodTable (env.enter t))) :=
    within_forM fun c mem => within_methodTable _ (tables c mem)
  have (t : Tail) : Within L ((env.enter t).classes.forM (staticInit (env.enter t))) :=
    within_forM fun c mem => within_staticInit _ (statics c mem)
  have (t : Tail) := within_stmts (env.enter t) items asked
  have (t : Tail) : Within L (prelude (env.enter t) seed) := by
    unfold prelude
    infer_instance
  unfold mainCode
  infer_instance

/-- A routine keeps to the licence to ask for anything. -/
theorem Source.within_any (none_ : env.lasts = []) (s : Source) :
    Within ⟨fun _ => True, s.locals.length⟩ (routineCode (s.env env) s.names s.body) := by
  have : (s.env env).Within ⟨fun _ => True, s.locals.length⟩ := (s.env env).within_any none_
  exact within_routineCode _ (fun _ mem => Meaning.Definition.mem_locals mem) fun _ _ => trivial

/-- So does the main routine, which has no named locals. -/
theorem within_any_main (none_ : env.lasts = []) (bare : env.locals = []) (seed : Int64) (items : List Stmt) :
    Within ⟨fun _ => True, 0⟩ (mainCode env seed items) := by
  have any := env.within_any none_
  rw [bare] at any
  exact within_mainCode env seed (fun _ _ _ _ => trivial) (fun _ _ _ _ _ _ => trivial) fun _ _ => trivial

end Routines

end Lantern.Emit
