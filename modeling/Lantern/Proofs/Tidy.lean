import Lantern.Proofs.Emission

/-!
# Temporaries and labels

A step of code generation is tidy when it gives back the temporaries it takes and places no label
but its own. Every form of expression and statement is tidy, so the labels of a routine are distinct
however deep its parts nest and however often a last block is generated again.
-/

namespace Lantern.Emit

open Assembly

/-- Whether an operation places a label. -/
@[reducible] def placesLabel : Op → Bool
  | .label => true
  | _ => false

/-- A truth value that is false; found for operations by evaluating them. -/
class Unset (b : Bool) : Prop where
  unset : b = false

instance : Unset false := ⟨rfl⟩

/-- A name is in a list; found for names that are written out. -/
class Listed (name : String) (names : List String) : Prop where
  mem : name ∈ names

instance (name : String) (names : List String) : Listed name (name :: names) := ⟨List.mem_cons_self⟩

instance (name other : String) (names : List String) [listed : Listed name names] : Listed name (other :: names) :=
  ⟨List.mem_cons_of_mem other listed.mem⟩

instance (c : Prop) [Decidable c] (a b : String) (names : List String) [Listed a names] [Listed b names] :
    Listed (if c then a else b) names := by
  split <;> infer_instance

/-- An operation that places no label. -/
abbrev Plain (op : Op) : Prop := Unset (placesLabel op)

/-- The number in the name of a label. -/
def number (l : String) : Nat := Nat.ofDigitChars 10 (l.toList.filter Char.isDigit) 0

/-- There is no digit in the base of a label. -/
def Wordy (base : String) : Prop := base.toList.filter Char.isDigit = []

theorem number_tag (base : String) (n : Nat) (wordy : Wordy base) : number (tag base n) = n := by
  have digits : (toString n).toList.filter Char.isDigit = (toString n).toList := by
    refine List.filter_eq_self.mpr fun c inside => ?_
    have : c ∈ Nat.toDigits 10 n := by simpa [toString, Nat.repr] using inside
    exact Nat.isDigit_of_mem_toDigits (by decide) (by decide) this
  simp only [number, tag, String.toList_append, List.filter_append, digits]
  rw [wordy]
  simp [toString, Nat.repr]

/-- Whether an instruction places a label with the given number. -/
def placesNumber (n : Nat) : Instr → Bool
  | ⟨.label, [.label l], _⟩ => number l == n
  | _ => false

/-- How often a label with the given number is placed. -/
def Gen.uses (g : Gen) (n : Nat) : Nat := g.code.toList.countP (placesNumber n)

namespace Gen

variable {g g' g'' : Gen}

@[grind =] theorem uses_push (op : Op) (args : List Operand) (n : Nat) [plain : Plain op] :
    (g.push op args).uses n = g.uses n := by
  have other : placesNumber n ⟨op, args, ""⟩ = false := by
    cases op <;> first | rfl | cases plain.unset
  simp [uses, push, other]

@[grind =] theorem uses_place (l : String) (n : Nat) :
    (g.push .label [.label l]).uses n = g.uses n + if number l = n then 1 else 0 := by
  simp [uses, push, placesNumber, List.countP_cons]

@[simp, grind =] theorem uses_bump (n : Nat) : g.bump.uses n = g.uses n := rfl
@[simp, grind =] theorem uses_lift (n : Nat) : g.lift.uses n = g.uses n := rfl
@[simp, grind =] theorem uses_drop (k n : Nat) : (g.drop k).uses n = g.uses n := rfl

/-- The second state comes after the first, with `k` temporaries fewer, and the labels placed in
    between were made in between. -/
structure Tidy (k : Nat) (g g' : Gen) : Prop where
  before : g.Before g'
  temps : g'.temps = g.temps - k
  once : ∀ n, g'.uses n ≤ g.uses n + 1
  fresh : ∀ n, g'.uses n ≤ g.uses n ∨ g.labels ≤ n ∧ n < g'.labels

theorem Tidy.trans {k l : Nat} (first : Tidy k g g') (second : Tidy l g' g'') :
    Tidy (k + l) g g'' := by
  refine ⟨first.before.trans second.before, ?_, fun n => ?_, fun n => ?_⟩
  · rw [second.temps, first.temps, Nat.sub_sub]
  · have := first.once n
    have := second.once n
    have := first.fresh n
    have := second.fresh n
    omega
  · have := first.fresh n
    have := second.fresh n
    have := first.before.labels
    have := second.before.labels
    omega

theorem Tidy.of_quiet {k : Nat} (before : g.Before g') (temps : g'.temps = g.temps - k)
    (uses : ∀ n, g'.uses n = g.uses n) : Tidy k g g' :=
  ⟨before, temps, fun n => by simp [uses], fun n => .inl (uses n).le⟩

end Gen

/-- A step that takes `k` temporaries away and otherwise leaves things in order. -/
class Tidy {α : Type} (k : Nat) (x : Emitting α) : Prop where
  tidy : ∀ g : Gen, Gen.Tidy k g (x.run g).2

section Tidy

variable {α β : Type} {k : Nat}

instance (priority := low) (x : Emitting α) [tidy : Tidy 0 x] : Grows x :=
  ⟨fun g => (tidy.tidy g).before⟩

theorem Lays.tidy {T : Text} {x : Emitting α} {g g' : Gen} {a : α} [tidy : Tidy 0 x]
    (lays : Lays T x g a g') : Gen.Tidy 0 g g' := by
  simpa [lays.run] using tidy.tidy g

instance (a : α) : Tidy 0 (pure a : Emitting α) := ⟨fun g => .of_quiet (.refl g) rfl fun _ => rfl⟩

instance (x : Emitting α) (f : α → Emitting β) [first : Tidy 0 x] [rest : ∀ a, Tidy k (f a)] :
    Tidy k (x >>= f) :=
  ⟨fun g => k.zero_add ▸ (first.tidy g).trans ((rest (x.run g).1).tidy (x.run g).2)⟩

instance (priority := 2000) (x : Emitting α) (y : Emitting β) [first : Tidy 0 x] [rest : Tidy k y] :
    Tidy k (x >>= fun _ => y) :=
  ⟨fun g => k.zero_add ▸ (first.tidy g).trans (rest.tidy (x.run g).2)⟩

instance (c : Prop) [Decidable c] (x y : Emitting α) [Tidy k x] [Tidy k y] :
    Tidy k (if c then x else y) := by
  split <;> infer_instance

theorem tidy_forM {xs : List α} {f : α → Emitting PUnit} (each : ∀ x ∈ xs, Tidy 0 (f x)) :
    Tidy 0 (xs.forM f) := by
  induction xs with
  | nil => exact inferInstanceAs (Tidy 0 (pure PUnit.unit))
  | cons x xs ih =>
      have := each x (by simp)
      have := ih fun y inside => each y (by simp [inside])
      exact inferInstanceAs (Tidy 0 (f x >>= fun _ => xs.forM f))

instance (op : Op) (args : List Operand) [Plain op] : Tidy 0 (emit op args) :=
  ⟨fun g => .of_quiet (g.before_push op args) rfl fun n => Gen.uses_push op args n⟩

instance (op : Op) (l : String) [Plain op] : Tidy 0 (jump op l) :=
  inferInstanceAs (Tidy 0 (emit _ _))

instance : Tidy 0 testResult := inferInstanceAs (Tidy 0 (emit _ _))

instance : Tidy 0 zero := inferInstanceAs (Tidy 0 (emit _ _))

instance (base : String) : Tidy 0 (newLabel base) :=
  ⟨fun g => .of_quiet g.before_bump rfl fun _ => rfl⟩

instance (s : String) : Tidy 0 (str s) := ⟨fun g => .of_quiet (g.before_pooled s) rfl fun _ => rfl⟩

instance (at_ : Span) (message : String) : Tidy 0 (warn at_ message) :=
  ⟨fun g => .of_quiet (Grows.grow (x := warn at_ message) g) rfl fun _ => rfl⟩

instance (n : Nat) : Tidy n (popTemps n) :=
  ⟨fun g => .of_quiet (Grows.grow (x := popTemps n) g) rfl fun _ => rfl⟩

instance (priority := 3000) (n : Nat) (y : Emitting α) [rest : Tidy k y] :
    Tidy (k + n) (popTemps n >>= fun _ => y) :=
  ⟨fun g => Nat.add_comm k n ▸ (Tidy.tidy (x := popTemps n) g).trans (rest.tidy _)⟩

instance (priority := 3000) (env : Env) (f : Operand → Emitting α)
    [rest : ∀ t, Tidy (k + 1) (f t)] : Tidy k (pushTemp env >>= f) := by
  refine ⟨fun g => ?_⟩
  have after := (rest (.slot (env.locals.length + 1 + g.temps))).tidy g.lift
  refine ⟨Gen.Before.trans (Grows.grow (x := pushTemp env) g) after.before, ?_, after.once,
    after.fresh⟩
  exact after.temps.trans (Nat.add_sub_add_right _ 1 k)

instance (priority := 3000) (env : Env) (f : Operand → Emitting α)
    [∀ t, Tidy (k + 1) (f t)] : Tidy k (spill env >>= f) := by
  simp only [spill, bind_assoc, pure_bind]
  infer_instance

instance (i : Nat) (args : List Operand) : Tidy 0 (setArgsFrom i args) := by
  induction args generalizing i with
  | nil => unfold setArgsFrom; infer_instance
  | cons a rest ih => unfold setArgsFrom; infer_instance

instance (args : List Operand) : Tidy 0 (setArgs args) := by
  refine ⟨fun g => ?_⟩
  have before := Tidy.tidy (k := 0) (x := setArgsFrom 0 args) g
  exact ⟨⟨before.before.code, before.before.pool, before.before.labels, before.before.externs⟩,
    before.temps, before.once, before.fresh⟩

instance (name : String) :
    Tidy 0 (modify fun g : Gen => { g with externs := addNew g.externs name } : Emitting Unit) :=
  ⟨fun _ => .of_quiet ⟨List.prefix_rfl, List.prefix_rfl, le_rfl, fun _ inside =>
    mem_addNew.mpr (.inl inside)⟩ rfl fun _ => rfl⟩

instance (name : String) (args : List Operand) : Tidy 0 (call name args) := by
  dsimp only [call]
  infer_instance

end Tidy

/-! ## Forms with labels of their own -/

/-- Whether a step is tidy can be read off the texts that show it. -/
theorem tidy_of_lays {α : Type} {x : Emitting α} [Grows x]
    (seen : ∀ T g a g', Lays T x g a g' → ∀ n, g'.temps = g.temps ∧
      g'.uses n ≤ g.uses n + 1 ∧ (g'.uses n ≤ g.uses n ∨ g.labels ≤ n ∧ n < g'.labels)) :
    Tidy 0 x := by
  refine ⟨fun g => ?_⟩
  have uses := seen _ _ _ _ (Lays.own (x := x) g)
  exact ⟨Grows.grow g, (uses 0).1, fun n => (uses n).2.1, fun n => (uses n).2.2⟩

theorem Lays.temps {α : Type} {T : Text} {x : Emitting α} [Tidy 0 x] {a : α} {g g' : Gen}
    (lays : Lays T x g a g') : g'.temps = g.temps := lays.tidy.temps

/-- What a tidy step says about one number. -/
theorem Lays.at {α : Type} {T : Text} {x : Emitting α} [Tidy 0 x] {a : α} {g g' : Gen}
    (lays : Lays T x g a g') (n : Nat) :
    g'.temps = g.temps ∧ g.labels ≤ g'.labels ∧ g'.uses n ≤ g.uses n + 1 ∧
      (g'.uses n ≤ g.uses n ∨ g.labels ≤ n ∧ n < g'.labels) :=
  ⟨lays.tidy.temps, lays.before.labels, lays.tidy.once n, lays.tidy.fresh n⟩

/-- How the counts of the generator change. -/
theorem tally :
    (∀ (g : Gen) op args, (g.push op args).temps = g.temps) ∧
    (∀ (g : Gen) op args, (g.push op args).labels = g.labels) ∧
    (∀ (g : Gen) op args n [Plain op], (g.push op args).uses n = g.uses n) ∧
    (∀ (g : Gen) l n, (g.push .label [.label l]).uses n =
      g.uses n + if number l = n then 1 else 0) ∧
    (∀ g : Gen, g.bump.temps = g.temps) ∧ (∀ g : Gen, g.bump.labels = g.labels + 1) ∧
    (∀ (g : Gen) n, g.bump.uses n = g.uses n) ∧
    (∀ g : Gen, g.lift.temps = g.temps + 1) ∧ (∀ g : Gen, g.lift.labels = g.labels) ∧
    (∀ (g : Gen) n, g.lift.uses n = g.uses n) ∧
    (∀ (g : Gen) k, (g.drop k).temps = g.temps - k) ∧ (∀ (g : Gen) k, (g.drop k).labels = g.labels) ∧
    (∀ (g : Gen) k n, (g.drop k).uses n = g.uses n) := by
  refine ⟨fun _ _ _ => rfl, fun _ _ _ => rfl, fun _ _ _ _ => Gen.uses_push _ _ _,
    fun _ _ _ => Gen.uses_place _ _, fun _ => rfl, fun _ => rfl, fun _ _ => rfl, fun _ => rfl,
    fun _ => rfl, fun _ _ => rfl, fun _ _ => rfl, fun _ _ => rfl, fun _ _ _ => rfl⟩

section Forms

variable (env : Env) (at_ : Span) (c a b l r v : Value) [Tidy 0 c.code] [Tidy 0 a.code]
  [Tidy 0 b.code] [Tidy 0 l.code] [Tidy 0 r.code] [Tidy 0 v.code]

instance (name : String) : Tidy 0 (ident env at_ name) := by
  unfold ident
  split <;> infer_instance

instance (name : String) : Tidy 0 (funcRef env at_ name) := by
  unfold funcRef
  infer_instance

instance (op : Op) [Plain op] : Tidy 0 (flagValue op) := by
  unfold flagValue
  infer_instance

instance (op : UnaryOp) : Tidy 0 (unary op v) := by
  cases op <;> unfold unary <;> infer_instance

instance : Grows (ternary c a b) := by unfold ternary; infer_instance

instance : Tidy 0 (ternary c a b) := by
  refine tidy_of_lays fun T g _ g' lays n => ?_
  simp only [ternary, lays_bind, layout, shown] at lays
  obtain ⟨g₁, cond, -, -, g₂, yes, -, -, g₃, no, -, rfl⟩ := lays
  have := number_tag "else" g.labels rfl
  have := number_tag "endif" g.bump.labels rfl
  have := cond.at n
  have := yes.at n
  have := no.at n
  simp only [tally] at *
  grind

instance (isOr : Bool) : Grows (shortCircuit isOr l r) := by
  cases isOr <;> dsimp only [shortCircuit] <;> infer_instance

instance (isOr : Bool) : Tidy 0 (shortCircuit isOr l r) := by
  refine tidy_of_lays fun T g _ g' lays n => ?_
  cases isOr
  all_goals
    simp only [shortCircuit, Bool.not_true, Bool.not_false, ↓reduceIte, Bool.false_eq_true,
      lays_bind, lays_emit, layout, shown] at lays
    obtain ⟨g₁, left, -, -, g₂, right, -, -, -, -, -, -, -, rfl⟩ := lays
    have := number_tag "sctrue" g.labels rfl
    have := number_tag "scfalse" g.labels rfl
    have := number_tag "scend" g.bump.labels rfl
    have := left.at n
    have := right.at n
    simp only [tally] at *
    grind

instance : Grows (powerForm env l r) := by unfold powerForm; infer_instance

instance : Tidy 0 (powerForm env l r) := by
  refine tidy_of_lays fun T g _ g' lays n => ?_
  simp only [powerForm, lays_bind, lays_emit, layout, shown] at lays
  obtain ⟨g₁, left, -, g₂, right, -, -, -, -, -, -, -, -, -, rfl⟩ := lays
  have := number_tag "pow" g.labels rfl
  have := number_tag "powend" g.bump.labels rfl
  have := left.at n
  have := right.at n
  simp only [tally] at *
  grind

instance (c : Prop) [Decidable c] (a b : Op) [Plain a] [Plain b] : Plain (if c then a else b) := by
  split <;> infer_instance

instance (op : BinaryOp) : Tidy 0 (wordOp op) := by
  cases op <;> dsimp only [wordOp, compareOp?] <;> infer_instance

instance (op : BinaryOp) : Tidy 0 (strictBinary env op l r) := by
  dsimp only [strictBinary]
  infer_instance

instance (op : BinaryOp) : Tidy 0 (binary env op l r) := by
  cases op <;> unfold binary <;> infer_instance

end Forms

/-- The code of every operand is tidy. -/
class AllTidy (vs : List Value) : Prop where
  each : ∀ v ∈ vs, Tidy 0 v.code

/-- The code of every key and value is tidy. -/
class EntriesTidy (es : List (Value × Value)) : Prop where
  each : ∀ e ∈ es, Tidy 0 e.1.code ∧ Tidy 0 e.2.code

/-- The code of every pending last block is tidy, under whatever loops it is generated. -/
class Env.Tidy (env : Env) : Prop where
  lasts : ∀ l ∈ env.lasts, ∀ loops, Emit.Tidy 0 (l.run loops)

section Calls

variable (env : Env) [tidy : env.Tidy] (at_ : Span)

theorem AllTidy.head {v : Value} {vs : List Value} (all : AllTidy (v :: vs)) : Tidy 0 v.code :=
  all.each v (by simp)

theorem AllTidy.tail {v : Value} {vs : List Value} (all : AllTidy (v :: vs)) : AllTidy vs :=
  ⟨fun w inside => all.each w (by simp [inside])⟩

instance (depth : Nat) : Tidy 0 (replay env depth) :=
  tidy_forM fun l inside => tidy.lasts l (List.mem_of_mem_take inside) env.loops

instance : Tidy 0 (raise env) := by
  dsimp only [raise]
  infer_instance

instance : Grows (checkException env) := by
  dsimp only [checkException]
  infer_instance

instance : Tidy 0 (checkException env) := by
  refine tidy_of_lays fun T g _ g' lays n => ?_
  simp only [checkException, lays_bind, lays_emit, shown] at lays
  obtain ⟨-, lays⟩ := lays
  split at lays
  · simp only [layout] at lays
    obtain ⟨-, rfl⟩ := lays
    simp [tally]
  · simp only [lays_bind, layout, shown] at lays
    obtain ⟨-, g₁, raised, -, rfl⟩ := lays
    have := number_tag "noexc" (g.push .test [rdx, rdx]).labels rfl
    have := raised.at n
    simp only [tally] at *
    grind

instance (target : Operand) (args : List Operand) : Tidy 0 (callRoutine env target args) := by
  unfold callRoutine
  infer_instance

instance (address : Operand) (args : List Operand) : Tidy 0 (callAddress env address args) := by
  unfold callAddress
  infer_instance

omit tidy in
theorem tidy_evalArgs {α : Type} {k : Nat} (vs : List Value) (all : AllTidy vs)
    (f : List Operand → Emitting α) (rest : ∀ ops, Tidy (ops.length + k) (f ops)) :
    Tidy k (evalArgs env vs >>= f) := by
  induction vs generalizing k f with
  | nil => simpa [evalArgs] using rest []
  | cons v vs ih =>
      have := all.head
      have (t : Operand) : Tidy (k + 1) (evalArgs env vs >>= fun ts => f (t :: ts)) :=
        ih all.tail _ fun ts => by simpa [Nat.add_assoc, Nat.add_comm 1 k] using rest (t :: ts)
      simp only [evalArgs, bind_assoc, pure_bind]
      infer_instance

omit tidy in
instance (priority := 3000) {α : Type} {k : Nat} (vs : List Value) [all : AllTidy vs]
    (f : List Operand → Emitting α) [rest : ∀ ops, Tidy (ops.length + k) (f ops)] :
    Tidy k (evalArgs env vs >>= f) :=
  tidy_evalArgs env vs all f rest

instance (receiver : Operand) (args : List Operand) : Tidy 0 (callMethod env receiver args) := by
  unfold callMethod
  infer_instance

variable (args : List Value) [AllTidy args]

instance (name : String) : Tidy 0 (superCall env at_ name args) := by
  unfold superCall
  split <;> infer_instance

instance (cls name : String) : Tidy 0 (staticCall env at_ cls name args) := by
  unfold staticCall
  split <;> infer_instance

instance (receiver : Value) [Tidy 0 receiver.code] (name : String) :
    Tidy 0 (dispatch env receiver name args) := by
  unfold dispatch
  infer_instance

instance (receiver : Value) [Tidy 0 receiver.code] (name : String) :
    Tidy 0 (methodCall env at_ receiver name args) := by
  unfold methodCall
  split
  · infer_instance
  · split <;> infer_instance

instance (c : ClassDecl) (obj : Operand) : Tidy 0 (construct env at_ c obj args) := by
  dsimp only [construct]
  infer_instance

instance (name : String) : Tidy 0 (loadStatic env at_ name cls) := by
  unfold loadStatic
  split <;> infer_instance

end Calls

section Collections

variable (env : Env) (at_ : Span) (b k v x d : Value) [Tidy 0 b.code] [Tidy 0 k.code]
  [Tidy 0 v.code] [Tidy 0 x.code] [Tidy 0 d.code]

instance : Tidy 0 (key v) := by
  unfold key
  split <;> infer_instance

theorem tidy_pushElems (list : Operand) (vs : List Value) (all : AllTidy vs) :
    Tidy 0 (pushElems list vs) := by
  induction vs with
  | nil => unfold pushElems; infer_instance
  | cons v vs ih =>
      have := all.head
      have := ih all.tail
      unfold pushElems
      infer_instance

instance (list : Operand) (vs : List Value) [all : AllTidy vs] : Tidy 0 (pushElems list vs) :=
  tidy_pushElems list vs all

instance (vs : List Value) [AllTidy vs] : Tidy 0 (listLit env vs) := by
  unfold listLit
  infer_instance

theorem tidy_putEntries (map : Operand) (es : List (Value × Value)) (all : EntriesTidy es) :
    Tidy 0 (putEntries env map es) := by
  induction es with
  | nil => unfold putEntries; infer_instance
  | cons e es ih =>
      obtain ⟨_, _⟩ := all.each e (by simp)
      have := ih ⟨fun e' inside => all.each e' (by simp [inside])⟩
      unfold putEntries
      infer_instance

instance (map : Operand) (es : List (Value × Value)) [all : EntriesTidy es] :
    Tidy 0 (putEntries env map es) :=
  tidy_putEntries env map es all

instance (es : List (Value × Value)) [EntriesTidy es] : Tidy 0 (mapLit env es) := by
  unfold mapLit
  infer_instance

instance : Tidy 0 (index env at_ b k) := by
  unfold index
  split
  · infer_instance
  · dsimp only
    infer_instance

instance (name : String) : Tidy 0 (member env at_ v name) := by
  unfold member
  split <;> infer_instance

instance (op : StepOp) : Plain (stepInstr op) := by
  cases op <;> exact ⟨rfl⟩

instance (op : StepOp) (first : Bool) (place : Operand) : Tidy 0 (stepPlace op first place) := by
  unfold stepPlace
  infer_instance

instance (op : StepOp) (first : Bool) (name : String) : Tidy 0 (stepVar env at_ op first name) := by
  unfold stepVar
  split <;> infer_instance

instance (op : StepOp) (first : Bool) : Tidy 0 (stepElement env at_ op first b k) := by
  unfold stepElement
  split
  · split <;> infer_instance
  · dsimp only
    infer_instance

instance : Tidy 0 boolWord := by
  unfold boolWord
  infer_instance

instance (format : String) : Tidy 0 (readString format) := by
  unfold readString
  infer_instance

instance : Tidy 0 (lenForm v) := by
  unfold lenForm
  infer_instance

instance : Tidy 0 (strForm v) := by
  unfold strForm
  split <;> infer_instance

instance : Tidy 0 (numForm v) := by
  unfold numForm
  infer_instance

instance : Tidy 0 (containsForm env v x) := by
  dsimp only [containsForm]
  infer_instance

instance : Tidy 0 (deleteForm env v k) := by
  unfold deleteForm
  infer_instance

instance : Tidy 0 (getOrForm env v k d) := by
  unfold getOrForm
  infer_instance

instance : Tidy 0 (freeForm v) := by
  unfold freeForm
  infer_instance

instance (readStr : Bool) : Tidy 0 (inputForm readStr) := by
  unfold inputForm
  infer_instance

instance (f : LibFunc) (readStr : Bool) (args : List Value) [all : AllTidy args] :
    Tidy 0 (libraryCall env at_ f readStr args) := by
  unfold libraryCall
  split
  · infer_instance
  · split
    case h_1 => infer_instance
    case h_2 | h_3 | h_4 | h_8 =>
      have := all.head
      infer_instance
    case h_5 | h_6 =>
      have := all.head
      have := all.tail.head
      infer_instance
    case h_7 =>
      have := all.head
      have := all.tail.head
      have := all.tail.tail.head
      infer_instance
    case h_9 | h_10 | h_11 => infer_instance

instance [env.Tidy] (name : String) (args : List Value) [AllTidy args] :
    Tidy 0 (callByName env at_ name args) := by
  unfold callByName
  split
  · infer_instance
  · split <;> infer_instance

instance (type : Option Sigil) : Tidy 0 (defaultValue type) := by
  unfold defaultValue
  split <;> infer_instance

theorem tidy_setFields (obj : Operand) (initial : Expr → Emitting Unit)
    (each : ∀ e, Tidy 0 (initial e)) (fs : List Field) : Tidy 0 (setFields obj initial fs) := by
  induction fs with
  | nil => unfold setFields; infer_instance
  | cons f fs ih =>
      unfold setFields
      dsimp only
      split <;> infer_instance

instance (obj : Operand) (initial : Expr → Emitting Unit) [each : ∀ e, Tidy 0 (initial e)]
    (fs : List Field) : Tidy 0 (setFields obj initial fs) :=
  tidy_setFields obj initial each fs

instance [env.Tidy] (initial : Expr → Emitting Unit) [∀ e, Tidy 0 (initial e)] (cls : String)
    (args : List Value) [AllTidy args] : Tidy 0 (newObject env initial at_ cls args) := by
  unfold newObject
  split
  · infer_instance
  · dsimp only
    infer_instance

end Collections

/-! ## Expressions -/

section Expressions

variable (initial : Expr → Emitting Unit) (env : Env)

mutual

theorem tidy_exprWith (each : ∀ e, Tidy 0 (initial e)) (tidy : env.Tidy) (e : Expr) :
    Tidy 0 (exprWith initial env e) := by
  cases e with
  | number | str | super | funcRef | ident => unfold exprWith; infer_instance
  | bool i v => unfold exprWith; infer_instance
  | binary i op l r =>
      have := tidy_exprWith each tidy l
      have := tidy_exprWith each tidy r
      unfold exprWith
      infer_instance
  | unary i op e =>
      have := tidy_exprWith each tidy e
      unfold exprWith
      infer_instance
  | ternary i c a b =>
      have := tidy_exprWith each tidy c
      have := tidy_exprWith each tidy a
      have := tidy_exprWith each tidy b
      unfold exprWith
      infer_instance
  | list i es =>
      have := tidy_valuesWith each tidy es
      unfold exprWith
      infer_instance
  | map i es =>
      have := tidy_entriesWith each tidy es
      unfold exprWith
      infer_instance
  | index i b k =>
      have := tidy_exprWith each tidy b
      have := tidy_exprWith each tidy k
      unfold exprWith
      infer_instance
  | member i o name =>
      have := tidy_exprWith each tidy o
      unfold exprWith
      infer_instance
  | call i callee args =>
      have := tidy_valuesWith each tidy args
      unfold exprWith
      infer_instance
  | method i r name args =>
      have := tidy_exprWith each tidy r
      have := tidy_valuesWith each tidy args
      unfold exprWith
      infer_instance
  | new_ i cls args =>
      have := tidy_valuesWith each tidy args
      unfold exprWith
      infer_instance
  | step i op first t =>
      cases t with
      | index j b k =>
          have := tidy_exprWith each tidy b
          have := tidy_exprWith each tidy k
          unfold exprWith
          infer_instance
      | member j o name =>
          have := tidy_exprWith each tidy o
          unfold exprWith
          infer_instance
      | _ => unfold exprWith; infer_instance

theorem tidy_valuesWith (each : ∀ e, Tidy 0 (initial e)) (tidy : env.Tidy) (es : List Expr) :
    AllTidy (valuesWith initial env es) := by
  cases es with
  | nil => exact ⟨by simp [valuesWith]⟩
  | cons e es =>
      refine ⟨fun v inside => ?_⟩
      rcases List.mem_cons.mp inside with rfl | inside
      · exact tidy_exprWith each tidy e
      · exact (tidy_valuesWith each tidy es).each v inside

theorem tidy_entriesWith (each : ∀ e, Tidy 0 (initial e)) (tidy : env.Tidy)
    (es : List (Expr × Expr)) : EntriesTidy (entriesWith initial env es) := by
  cases es with
  | nil => exact ⟨by simp [entriesWith]⟩
  | cons e es =>
      obtain ⟨k, v⟩ := e
      refine ⟨fun e inside => ?_⟩
      rcases List.mem_cons.mp inside with rfl | inside
      · exact ⟨tidy_exprWith each tidy k, tidy_exprWith each tidy v⟩
      · exact (tidy_entriesWith each tidy es).each e inside

end

instance tidy_exprAt [tidy : env.Tidy] (depth : Nat) (e : Expr) : Tidy 0 (exprAt depth env e) := by
  induction depth generalizing e with
  | zero => exact tidy_exprWith _ env (fun _ => inferInstance) tidy e
  | succ depth ih => exact tidy_exprWith _ env ih tidy e

instance [env.Tidy] (e : Expr) : Tidy 0 (expr env e) :=
  inferInstanceAs (Tidy 0 (exprAt env.classes.length env e))

instance [env.Tidy] (e : Expr) : Tidy 0 (value env e).code := inferInstanceAs (Tidy 0 (expr env e))

instance [env.Tidy] (es : List Expr) : AllTidy (es.map (value env)) := by
  refine ⟨fun v inside => ?_⟩
  obtain ⟨e, -, rfl⟩ := List.mem_map.mp inside
  infer_instance

instance [env.Tidy] (target : Sigil) (e : Expr) : Tidy 0 (valueFor env target e) := by
  unfold valueFor
  split <;> infer_instance

end Expressions

/-! ## Statements -/

section Statements

variable (env : Env) [tidy : env.Tidy]

instance (at_ : Span) (name : String) : Tidy 0 (store env at_ name) := by
  unfold store
  split <;> infer_instance

instance (format : String) (args : List Operand) : Tidy 0 (printf format args) :=
  inferInstanceAs (Tidy 0 (call _ _))

instance (t : Operand) : Tidy 0 (increment t) := by
  unfold increment
  infer_instance

instance (loop endL skip : String) (i n : Operand) : Grows (loopHead loop endL skip i n) := by
  unfold loopHead
  infer_instance

section

-- The layouts below are long, and the search for their instances goes as deep as they are.
set_option synthInstance.maxSize 1000

instance (s : Sigil) : Grows (printList env s) := by
  unfold printList
  infer_instance

instance : Grows (printMap env) := by
  unfold printMap
  infer_instance

instance (base k : Value) [Tidy 0 base.code] [Tidy 0 k.code] : Grows (printEntry env base k) := by
  unfold printEntry
  infer_instance

instance (s : Sigil) : Tidy 0 (printList env s) := by
  refine tidy_of_lays fun T g _ g' lays n => ?_
  simp only [printList, loopHead, lays_bind, lays_emit, layout, shown] at lays
  obtain ⟨-, g₁, open_, g₂, length, -, -, -, -, -, -, -, -, -, ⟨g₃, comma, -, rfl⟩, g₄, elem, g₅,
    word, g₆, step, -, -, g₇, close, rfl⟩ := lays
  have := number_tag "plist" g.labels rfl
  have := number_tag "plistend" g.bump.labels rfl
  have := number_tag "nocomma" g.bump.bump.labels rfl
  have := open_.at n
  have := length.at n
  have := comma.at n
  have := elem.at n
  have := word.at n
  have := step.at n
  have := close.at n
  simp only [tally] at *
  grind

instance : Tidy 0 (printMap env) := by
  refine tidy_of_lays fun T g _ g' lays n => ?_
  simp only [printMap, loopHead, lays_bind, lays_emit, layout, shown] at lays
  obtain ⟨-, g₁, open_, g₂, size, -, -, -, -, -, -, -, -, -, ⟨g₃, comma, -, rfl⟩, g₄, key_, g₅,
    quoted, g₆, colon, g₇, isStr, -, -, g₈, value₁, g₉, word₁, -, -, g₁₀, value₂, g₁₁, word₂, -, g₁₂,
    step, -, -, g₁₃, close, rfl⟩ := lays
  have := number_tag "pmap" g.labels rfl
  have := number_tag "pmapend" g.bump.labels rfl
  have := number_tag "nocomma" g.bump.bump.labels rfl
  have := number_tag "pint" g.bump.bump.bump.labels rfl
  have := number_tag "pnext" g.bump.bump.bump.bump.labels rfl
  have := open_.at n
  have := size.at n
  have := comma.at n
  have := key_.at n
  have := quoted.at n
  have := colon.at n
  have := isStr.at n
  have := value₁.at n
  have := word₁.at n
  have := value₂.at n
  have := word₂.at n
  have := step.at n
  have := close.at n
  simp only [tally] at *
  grind

instance (base k : Value) [Tidy 0 base.code] [Tidy 0 k.code] : Tidy 0 (printEntry env base k) := by
  refine tidy_of_lays fun T g _ g' lays n => ?_
  simp only [printEntry, lays_bind, layout, shown] at lays
  obtain ⟨g₁, base_, -, g₂, key_, -, g₃, get_, -, g₄, isStr, -, -, g₅, word₁, -, -, g₆, word₂, -,
    rfl⟩ := lays
  have := number_tag "pint" g.labels rfl
  have := number_tag "pdone" g.bump.labels rfl
  have := base_.at n
  have := key_.at n
  have := get_.at n
  have := isStr.at n
  have := word₁.at n
  have := word₂.at n
  simp only [tally] at *
  grind

end

instance (v : Value) [Tidy 0 v.code] : Tidy 0 (printValue env v) := by
  unfold printValue
  split <;> infer_instance

instance (e : Expr) : Tidy 0 (print env e) := by
  unfold print
  split <;> infer_instance

instance (at_ : Span) (goOn : Bool) : Tidy 0 (leave env at_ goOn) := by
  unfold leave
  split <;> infer_instance

instance (e : Option Expr) : Tidy 0 (returnStmt env e) := by
  dsimp only [returnStmt]
  split <;> infer_instance

instance (type : String) (e : Expr) : Tidy 0 (throwStmt env type e) := by
  dsimp only [throwStmt]
  infer_instance

instance (at_ : Span) (base k e : Expr) : Tidy 0 (indexAssign env at_ base k e) := by
  unfold indexAssign
  split
  · split <;> infer_instance
  · dsimp only
    infer_instance

instance (exc : Operand) (type next : String) : Tidy 0 (testCatch exc type next) := by
  unfold testCatch
  infer_instance

instance (exit next : String) (isSwitch : Bool) : (env.inFrame exit next isSwitch).Tidy :=
  ⟨tidy.lasts⟩

instance (loops : List LoopFrame) : Env.Tidy { env with loops := loops } := ⟨tidy.lasts⟩

end Statements

instance (at_ : Span) (kind : NodeKind) : Tidy 0 (unsupported at_ kind) := by
  unfold unsupported
  infer_instance

instance (known : Bool) (label : String) : Tidy 0 (jumpUnless known label) := by
  unfold jumpUnless
  infer_instance

instance (env : Env) [tidy : env.Tidy] (endL : String) (c : Option Expr) :
    Tidy 0 (loopTest env endL c) := by
  cases c <;> unfold loopTest <;> infer_instance

instance (strSubject : Bool) (subject : Operand) (v : Expr) :
    Tidy 0 (compareValue strSubject subject v) := by
  unfold compareValue
  infer_instance

instance (env : Env) [tidy : env.Tidy] (strSubject : Bool) (subject : Operand) (cs : List Clause) :
    Tidy 0 (compareClauses env strSubject subject cs) := by
  induction cs with
  | nil => unfold compareClauses; infer_instance
  | cons c cs ih =>
      cases c with
      | case_ s v body => rw [compareClauses_case]; infer_instance
      | default_ s body => unfold compareClauses; infer_instance

/-- How many of some labels have the given number. -/
def owed (ls : List String) (n : Nat) : Nat := ls.countP (number · == n)

theorem owed_cons (l : String) (ls : List String) (n : Nat) :
    owed (l :: ls) n = owed ls n + if number l = n then 1 else 0 := by
  simp [owed, List.countP_cons]

/-- The labels of clauses are new. -/
theorem owed_compareClauses {T : Text} {env : Env} [env.Tidy] {strSubject : Bool}
    {subject : Operand} {cs : List Clause} {g g' : Gen} {ls : List String}
    (lays : Lays T (compareClauses env strSubject subject cs) g ls g') (n : Nat) :
    g'.uses n + owed ls n ≤ g.uses n + 1 ∧
      (g'.uses n + owed ls n ≤ g.uses n ∨ g.labels ≤ n ∧ n < g'.labels) := by
  induction cs generalizing g ls with
  | nil =>
      obtain ⟨rfl, rfl⟩ := lays_pure.mp lays
      simp [owed]
  | cons c cs ih =>
      cases c with
      | case_ s v body =>
          simp only [compareClauses_case, lays_bind, lays_pure, layout, shown] at lays
          obtain ⟨g₁, value, g₂, compare, -, ls, g₃, rest, rfl, rfl⟩ := lays
          have := number_tag "case" g.labels rfl
          have := ih rest
          have := rest.at n
          have := value.at n
          have := compare.at n
          simp only [tally, owed_cons] at *
          grind
      | default_ s body =>
          simp only [compareClauses, lays_bind, lays_pure, layout, shown] at lays
          obtain ⟨ls, g₁, rest, rfl, rfl⟩ := lays
          have := number_tag "defcase" g.labels rfl
          have := ih rest
          have := rest.at n
          simp only [tally, owed_cons] at *
          grind

theorem grows_clauseBodies {env : Env} {cs : List Clause}
    (bodies : ∀ c ∈ cs, Tidy 0 (stmts env (clauseBody c))) (ls : List String) :
    Grows (clauseBodies env cs ls) := by
  induction cs generalizing ls with
  | nil => cases ls <;> exact inferInstanceAs (Grows (pure ()))
  | cons c cs ih =>
      cases ls with
      | nil => cases c <;> exact inferInstanceAs (Grows (pure ()))
      | cons l ls =>
          have := bodies c (by simp)
          have := ih (fun c' inside => bodies c' (by simp [inside])) ls
          rw [clauseBodies_cons]
          infer_instance

/-- The bodies of clauses place the labels of the clauses and otherwise only their own. -/
theorem owed_clauseBodies {env : Env} {cs : List Clause}
    (bodies : ∀ c ∈ cs, Tidy 0 (stmts env (clauseBody c))) {T : Text} {ls : List String}
    {g g' : Gen} (lays : Lays T (clauseBodies env cs ls) g () g') (n : Nat) :
    g'.temps = g.temps ∧ g.labels ≤ g'.labels ∧ g'.uses n ≤ g.uses n + owed ls n + 1 ∧
      (g'.uses n ≤ g.uses n + owed ls n ∨ g.labels ≤ n ∧ n < g'.labels) := by
  induction cs generalizing ls g with
  | nil =>
      have done : g = g' := by cases ls <;> exact (lays_pure.mp lays).2
      subst done
      simp [Nat.add_assoc]
  | cons c cs ih =>
      cases ls with
      | nil =>
          have done : g = g' := by cases c <;> exact (lays_pure.mp lays).2
          subst done
          simp [Nat.add_assoc]
      | cons l ls =>
          have others (c' : Clause) (inside : c' ∈ cs) := bodies c' (by simp [inside])
          have := bodies c (by simp)
          have := grows_clauseBodies others ls
          rw [clauseBodies_cons] at lays
          simp only [lays_bind, layout, shown] at lays
          obtain ⟨-, g₁, body, rest⟩ := lays
          have := body.at n
          have := ih others rest
          simp only [tally, owed_cons] at *
          grind

theorem tidy_handlers {env : Env} [env.Tidy] {cs : List Catch}
    (bodies : ∀ c ∈ cs, Tidy 0 (stmt env c.body)) (exc : Operand) (lastL : String) :
    Tidy 0 (handlers env exc lastL cs) := by
  induction cs with
  | nil => exact inferInstanceAs (Tidy 0 (pure false))
  | cons c cs ih =>
      have := bodies c (by simp)
      have := ih fun c' inside => bodies c' (by simp [inside])
      rw [handlers_cons]
      refine tidy_of_lays fun T g _ g' lays n => ?_
      simp only [lays_bind, lays_emit, layout, shown] at lays
      obtain ⟨g₁, test, -, g₂, stored, g₃, body, -, -, rest⟩ := lays
      have := number_tag "nextcatch" g.labels rfl
      have := test.at n
      have := stored.at n
      have := body.at n
      have := rest.at n
      simp only [tally] at *
      grind

theorem tidy_guarded {env : Env} (tidy : env.Tidy) (label : String) (last : Option LastBlock)
    (each : ∀ l ∈ last, ∀ loops, Tidy 0 (l.run loops)) : (env.guarded label last).Tidy := by
  refine ⟨fun l inside loops => ?_⟩
  rcases List.mem_append.mp inside with own | outer
  · exact each l (by simpa using own) loops
  · exact tidy.lasts l outer loops

section

-- As above: the layouts of guarded statements and loops are long.
set_option synthInstance.maxSize 1000

mutual

theorem tidy_stmt (env : Env) (tidy : env.Tidy) (s : Stmt) : Tidy 0 (stmt env s) := by
  cases s with
  | print s e => exact inferInstanceAs (Tidy 0 (print env e))
  | printStmt s b =>
      exact inferInstanceAs
        (Tidy 0 (do unsupported b.span b.kind; printf "fmt_int" [rax]; printf "newline" []))
  | expr s e => exact inferInstanceAs (Tidy 0 (expr env e))
  | bare e => exact inferInstanceAs (Tidy 0 (warn _ _))
  | assign s name e => exact inferInstanceAs (Tidy 0 (do valueFor env _ e; store env s name))
  | indexAssign s b k e => exact inferInstanceAs (Tidy 0 (indexAssign env s b k e))
  | varDecl s name type init =>
      cases init with
      | none => exact inferInstanceAs (Tidy 0 (do defaultValue type; store env s name))
      | some e => exact inferInstanceAs (Tidy 0 (do valueFor env _ e; store env s name))
  | block s body => exact tidy_stmts env tidy body
  | ifElse s c a b =>
      have := tidy_stmt env tidy a
      have := tidy_stmt? env tidy b
      rw [stmt_ifElse]
      refine tidy_of_lays fun T g _ g' lays n => ?_
      simp only [lays_bind, layout, shown] at lays
      obtain ⟨g₁, cond, -, -, g₂, yes, -, -, g₃, no, -, rfl⟩ := lays
      have := number_tag "else" g.labels rfl
      have := number_tag "endif" g.bump.labels rfl
      have := cond.at n
      have := yes.at n
      have := no.at n
      simp only [tally] at *
      grind
  | while_ s c body =>
      have ih (env' : Env) [tidy' : env'.Tidy] := tidy_stmt env' tidy' body
      rw [stmt_while]
      refine tidy_of_lays fun T g _ g' lays n => ?_
      simp only [lays_bind, layout, shown] at lays
      obtain ⟨-, -, g₁, cond, -, -, g₂, round, -, -, rfl⟩ := lays
      have := number_tag "loop" g.labels rfl
      have := number_tag "cont" g.bump.labels rfl
      have := number_tag "endloop" g.bump.bump.labels rfl
      have := cond.at n
      have := round.at n
      simp only [tally] at *
      grind
  | doWhile s body c =>
      have ih (env' : Env) [tidy' : env'.Tidy] := tidy_stmt env' tidy' body
      rw [stmt_doWhile]
      refine tidy_of_lays fun T g _ g' lays n => ?_
      simp only [lays_bind, layout, shown] at lays
      obtain ⟨-, g₁, round, -, g₂, cond, -, -, -, rfl⟩ := lays
      have := number_tag "doloop" g.labels rfl
      have := number_tag "docont" g.bump.labels rfl
      have := number_tag "doend" g.bump.bump.labels rfl
      have := cond.at n
      have := round.at n
      simp only [tally] at *
      grind
  | for_ s init cond post body =>
      have := tidy_stmt? env tidy init
      have := tidy_stmt? env tidy post
      have ih (env' : Env) [tidy' : env'.Tidy] := tidy_stmt env' tidy' body
      rw [stmt_for]
      refine tidy_of_lays fun T g _ g' lays n => ?_
      simp only [lays_bind, layout, shown] at lays
      obtain ⟨g₁, start, -, g₂, test, g₃, round, -, g₄, step, -, -, rfl⟩ := lays
      have := number_tag "forloop" g.labels rfl
      have := number_tag "forcont" g.bump.labels rfl
      have := number_tag "forend" g.bump.bump.labels rfl
      have := start.at n
      have := test.at n
      have := round.at n
      have := step.at n
      simp only [tally] at *
      grind
  | switch s e cs =>
      have grows (env' : Env) [tidy' : env'.Tidy] (ls : List String) :=
        grows_clauseBodies (tidy_clauses env' tidy' cs) ls
      rw [stmt_switch]
      refine tidy_of_lays fun T g _ g' lays n => ?_
      simp only [lays_bind, layout, shown] at lays
      obtain ⟨g₁, subject, -, ls, g₂, compare, -, g₃, bodies, -, rfl⟩ := lays
      have := number_tag "switchend" g.labels rfl
      have := subject.at n
      have := compare.at n
      have := owed_compareClauses compare n
      have := owed_clauseBodies (tidy_clauses _ inferInstance cs) bodies n
      simp only [tally] at *
      grind
  | break_ s => exact inferInstanceAs (Tidy 0 (leave env s false))
  | continue_ s => exact inferInstanceAs (Tidy 0 (leave env s true))
  | return_ s e => exact inferInstanceAs (Tidy 0 (returnStmt env e))
  | throw_ s type e => exact inferInstanceAs (Tidy 0 (throwStmt env type e))
  | try_ s body cs last =>
      have := tidy_stmt? env tidy last
      have block : ∀ l ∈ lastBlock? env last, ∀ loops, Tidy 0 (l.run loops) := by
        intro l own loops
        cases last with
        | none => simp [lastBlock?] at own
        | some last =>
            obtain rfl : _ = l := by simpa [lastBlock?] using own
            exact tidy_stmt { env with loops := loops } ⟨tidy.lasts⟩ last
      have guarded (label : String) : (env.guarded label (lastBlock? env last)).Tidy :=
        tidy_guarded tidy label _ block
      have ih (env' : Env) [tidy' : env'.Tidy] := tidy_stmt env' tidy' body
      have caught (env' : Env) [tidy' : env'.Tidy] (exc : Operand) (lastL : String) :=
        tidy_handlers (tidy_catches env' tidy' cs) exc lastL
      rw [stmt_try]
      refine tidy_of_lays fun T g _ g' lays n => ?_
      simp only [lays_bind, lays_emit, layout, shown] at lays
      obtain ⟨g₁, tried, -, -, -, all, g₂, catches, g₃, skip, -, -, -, g₄, first, -, g₅, up, -, g₆,
        second, -, rfl⟩ := lays
      have := number_tag "catch" g.labels rfl
      have := number_tag "catchexit" g.bump.labels rfl
      have := number_tag "rethrow" g.bump.bump.labels rfl
      have := number_tag "finally" g.bump.bump.bump.labels rfl
      have := number_tag "endtry" g.bump.bump.bump.bump.labels rfl
      have := tried.at n
      have := catches.at n
      have := skip.at n
      have := first.at n
      have := up.at n
      have := second.at n
      simp only [tally] at *
      grind
  | func f => exact inferInstanceAs (Tidy 0 (warn _ _))
  | class_ c => exact inferInstanceAs (Tidy 0 (warn _ _))

theorem tidy_stmt? (env : Env) (tidy : env.Tidy) (s : Option Stmt) : Tidy 0 (stmt? env s) := by
  cases s with
  | none => exact inferInstanceAs (Tidy 0 (pure ()))
  | some s => exact tidy_stmt env tidy s

theorem tidy_stmts (env : Env) (tidy : env.Tidy) (ss : List Stmt) : Tidy 0 (stmts env ss) := by
  cases ss with
  | nil => exact inferInstanceAs (Tidy 0 (pure ()))
  | cons s ss =>
      have := tidy_stmt env tidy s
      have := tidy_stmts env tidy ss
      exact inferInstanceAs (Tidy 0 (do stmt env s; stmts env ss))

theorem tidy_clauses (env : Env) (tidy : env.Tidy) (cs : List Clause) :
    ∀ c ∈ cs, Tidy 0 (stmts env (clauseBody c)) := by
  cases cs with
  | nil => simp
  | cons c cs =>
      refine List.forall_mem_cons.mpr ⟨?_, tidy_clauses env tidy cs⟩
      cases c with
      | case_ s v body => exact tidy_stmts env tidy body
      | default_ s body => exact tidy_stmts env tidy body

theorem tidy_catches (env : Env) (tidy : env.Tidy) (cs : List Catch) :
    ∀ c ∈ cs, Tidy 0 (stmt env c.body) := by
  cases cs with
  | nil => simp
  | cons c cs =>
      obtain ⟨s, type, name, body⟩ := c
      exact List.forall_mem_cons.mpr ⟨tidy_stmt env tidy body, tidy_catches env tidy cs⟩

end

end

instance (env : Env) [tidy : env.Tidy] (s : Stmt) : Tidy 0 (stmt env s) := tidy_stmt env tidy s

instance (env : Env) [tidy : env.Tidy] (s : Option Stmt) : Tidy 0 (stmt? env s) :=
  tidy_stmt? env tidy s

instance (env : Env) [tidy : env.Tidy] (ss : List Stmt) : Tidy 0 (stmts env ss) :=
  tidy_stmts env tidy ss

/-! ## Routines -/

/-- The instructions of a routine, in the order of generation. -/
def routineCode (env : Env) (names : List String) (body : Stmt) : Emitting Unit := do
  emit .prologue []
  loadParams env 0 names
  let t ← newTail
  stmt (env.enter t) body
  routineEnd t

instance (env : Env) (t : Tail) : (env.enter t).Tidy := ⟨by simp [Env.enter]⟩

instance (env : Env) (i : Nat) (names : List String) : Tidy 0 (loadParams env i names) := by
  induction names generalizing i with
  | nil => unfold loadParams; infer_instance
  | cons name names ih => unfold loadParams; infer_instance

instance : Tidy 0 newTail := by
  unfold newTail
  infer_instance

instance (t : Tail) : Grows (routineEnd t) := by
  unfold routineEnd
  infer_instance

instance (env : Env) (names : List String) (body : Stmt) : Tidy 0 (routineCode env names body) := by
  have : Grows (routineCode env names body) := by unfold routineCode; infer_instance
  refine tidy_of_lays fun T g _ g' lays n => ?_
  simp only [routineCode, newTail, routineEnd, lays_bind, lays_emit, lays_pure, layout, shown] at lays
  obtain ⟨-, g₁, params, _, rfl, _, rfl, g₂, inner, -, -, -, -, -, -, -, -, rfl⟩ := lays
  have := number_tag "ret" g₁.labels rfl
  have := number_tag "unwind" g₁.bump.labels rfl
  have := number_tag "epi" g₁.bump.bump.labels rfl
  have := params.at n
  have := inner.at n
  simp only [tally] at *
  grind

end Lantern.Emit
