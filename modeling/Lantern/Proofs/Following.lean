import Lantern.Proofs.Circles
import Lantern.Proofs.Points

/-!
# Generation over stacks and over environments

What is generated while the stacks change is what is generated under the environment they describe. The stacks of a
run come about by entering loops and guarded statements and by cutting back to where a statement stood, so each pending
last block is generated again under the environment of its own statement.
-/

namespace Lantern

namespace Emit

/-- The environment that stacks describe, with the code of the pending last blocks. -/
def Env.amid (env : Env) (σ : Stacked.Stacks) (lasts : List LastBlock) : Env :=
  { env with loops := σ.loops, lasts := lasts, unwind := σ.unwind }

/-- The environment comes about while code for the classes is generated, with the given last blocks pending,
    innermost first. -/
inductive Env.Arises (t : ClassTable) : Env → List Stmt → Prop
  /-- At the start of a routine. -/
  | enter {env : Env} (table : env.classes = t) (tail : Tail) : Arises t (env.enter tail) []
  /-- Inside a loop or switch. -/
  | inFrame {env : Env} {pending : List Stmt} (around : Arises t env pending) (exit next : String) (isSwitch : Bool) :
      Arises t (env.inFrame exit next isSwitch) pending
  /-- Inside a guarded statement. -/
  | guarded {env : Env} {pending : List Stmt} (around : Arises t env pending) (label : String) (last : Option Stmt) :
      Arises t (env.guarded label (lastBlock? env last)) (last.toList ++ pending)
  /-- In a last block, under the loops of the place that leaves its statement. -/
  | leaving {env : Env} {pending : List Stmt} (around : Arises t env pending) (loops : List LoopFrame) :
      Arises t { env with loops := loops } pending

end Emit

namespace Stacked

open Assembly Emit

variable {α β : Type} {σ σ' σ'' : Stacks} {K : List LastBlock} {env : Env}

/-! ## Runs side by side -/

/-- From the one state of the stacks a step does what the other does, does not stop, and comes to the other state. -/
def Goes (σ σ' : Stacks) (x : Stacking α) (y : Emitting α) : Prop :=
  ∀ s, s.around = σ → ∃ points, x s = .ok (y.run s.gen).1 ⟨(y.run s.gen).2, σ', points⟩

/-- A step does what the other does and leaves the stacks as they were. -/
class Follows (σ : Stacks) (x : Stacking α) (y : Emitting α) : Prop where
  goes : Goes σ σ x y

theorem Goes.bind {x : Stacking α} {y : Emitting α} {f : α → Stacking β} {g : α → Emitting β} (first : Goes σ σ' x y)
    (rest : ∀ a, Goes σ' σ'' (f a) (g a)) : Goes σ σ'' (x >>= f) (y >>= g) := by
  intro s start
  obtain ⟨points, run⟩ := first s start
  rw [bind_apply, run]
  exact rest _ ⟨_, σ', points⟩ rfl

/-- A change of the stacks has nothing beside it. -/
theorem Goes.behind {f : Stacks → Stacks} {x : Stacking α} {y : Emitting α} (eq : f σ = σ') (rest : Goes σ' σ'' x y) :
    Goes σ σ'' (change f >>= fun _ => x) y := by
  rintro s rfl
  exact rest ⟨s.gen, f s.around, s.points⟩ eq

theorem Goes.then {x : Stacking α} {y : Emitting α} {f : α → Stacking β} {g : α → Emitting β}
    [first : Follows σ x y] (rest : ∀ a, Goes σ σ' (f a) (g a)) : Goes σ σ' (x >>= f) (y >>= g) :=
  first.goes.bind rest

instance (a : α) : Follows σ (pure a) (pure a) := by
  refine ⟨fun s start => ⟨s.points, ?_⟩⟩
  subst start
  rfl

instance (y : Emitting α) : Follows σ (liftM y) y := by
  refine ⟨fun s start => ⟨⟨s.around, none⟩ :: s.points, ?_⟩⟩
  subst start
  rfl

instance (x : Stacking α) (y : Emitting α) (f : α → Stacking β) (g : α → Emitting β) [Follows σ x y]
    [rest : ∀ a, Follows σ (f a) (g a)] : Follows σ (x >>= f) (y >>= g) :=
  ⟨.then fun a => (rest a).goes⟩

instance (priority := 2000) (x : Stacking α) (y : Emitting α) (x' : Stacking β) (y' : Emitting β) [Follows σ x y]
    [rest : Follows σ x' y'] : Follows σ (x >>= fun _ => x') (y >>= fun _ => y') :=
  ⟨.then fun _ => rest.goes⟩

instance (c : Prop) [Decidable c] (x x' : Stacking α) (y y' : Emitting α) [Follows σ x y] [Follows σ x' y'] :
    Follows σ (if c then x else x') (if c then y else y') := by
  split <;> infer_instance

theorem Goes.look {f : Stacks → Stacking α} {y : Emitting α} (rest : Goes σ σ' (f σ) y) : Goes σ σ' (look >>= f) y := by
  rintro s rfl
  exact rest ⟨s.gen, s.around, ⟨s.around, none⟩ :: s.points⟩ rfl

theorem Goes.note {n : Option Node} {x : Stacking α} {y : Emitting α} (rest : Goes σ σ' x y) :
    Goes σ σ' (Stacked.note n >>= fun _ => x) y := by
  rintro s rfl
  exact rest ⟨s.gen, s.around, ⟨s.around, n⟩ :: s.points⟩ rfl

theorem follows_look {f : Stacks → Stacking α} {y : Emitting α} (rest : Follows σ (f σ) y) : Follows σ (look >>= f) y :=
  ⟨.look rest.goes⟩

instance (priority := 3000) (f : Stacks → Stacking α) (y : Emitting α) [rest : Follows σ (f σ) y] :
    Follows σ (look >>= f) y :=
  follows_look rest

instance (priority := 3000) (n : Option Node) (x : Stacking α) (y : Emitting α) [rest : Follows σ x y] :
    Follows σ (note n >>= fun _ => x) y :=
  ⟨.note rest.goes⟩

theorem follows_forM {xs : List α} {f : α → Stacking PUnit} {g : α → Emitting PUnit}
    (each : ∀ x ∈ xs, Follows σ (f x) (g x)) : Follows σ (xs.forM f) (xs.forM g) := by
  induction xs with
  | nil => exact inferInstanceAs (Follows σ (pure PUnit.unit) (pure PUnit.unit))
  | cons x xs ih =>
      have := each x List.mem_cons_self
      have := ih fun y inside => each y (List.mem_cons_of_mem _ inside)
      exact inferInstanceAs (Follows σ (f x >>= fun _ => xs.forM f) (g x >>= fun _ => xs.forM g))

/-! ## What does not look at the stacks -/

section Around

variable (at_ : Span)

instance : Follows σ (liftM (spill env)) (spill (env.amid σ K)) :=
  inferInstanceAs (Follows σ (liftM (spill env)) (spill env))

instance : Follows σ (liftM (pushTemp env)) (pushTemp (env.amid σ K)) :=
  inferInstanceAs (Follows σ (liftM (pushTemp env)) (pushTemp env))

instance (name : String) : Follows σ (liftM (ident env at_ name)) (ident (env.amid σ K) at_ name) :=
  inferInstanceAs (Follows σ (liftM (ident env at_ name)) (ident env at_ name))

instance (name : String) : Follows σ (liftM (funcRef env at_ name)) (funcRef (env.amid σ K) at_ name) :=
  inferInstanceAs (Follows σ (liftM (funcRef env at_ name)) (funcRef env at_ name))

instance (cls field : String) :
    Follows σ (liftM (loadStatic env at_ cls field)) (loadStatic (env.amid σ K) at_ cls field) :=
  inferInstanceAs (Follows σ (liftM (loadStatic env at_ cls field)) (loadStatic env at_ cls field))

instance (op : StepOp) (first : Bool) (name : String) :
    Follows σ (liftM (stepVar env at_ op first name)) (stepVar (env.amid σ K) at_ op first name) :=
  inferInstanceAs (Follows σ (liftM (stepVar env at_ op first name)) (stepVar env at_ op first name))

instance (name : String) : Follows σ (liftM (store env at_ name)) (store (env.amid σ K) at_ name) :=
  inferInstanceAs (Follows σ (liftM (store env at_ name)) (store env at_ name))

end Around

/-! ## Forms of expressions -/

/-- An operand beside another: the same expression, and code that follows. -/
class Pair (σ : Stacks) (v : Value) (w : Emit.Value) : Prop where
  expr : w.expr = v.expr
  code : Follows σ v.code w.code

/-- Operands beside others. -/
class Pairs (σ : Stacks) (vs : List Value) (ws : List Emit.Value) : Prop where
  each : List.Forall₂ (Pair σ) vs ws

/-- Keys and values beside others. -/
class EntryPairs (σ : Stacks) (vs : List (Value × Value)) (ws : List (Emit.Value × Emit.Value)) : Prop where
  each : List.Forall₂ (fun v w => Pair σ v.1 w.1 ∧ Pair σ v.2 w.2) vs ws

instance (e : Expr) (x : Stacking Unit) (y : Emitting Unit) [follows : Follows σ x y] : Pair σ ⟨e, x⟩ ⟨e, y⟩ :=
  ⟨rfl, follows⟩

/-- A form whose operand is computed before anything else. -/
class Sequenced (form : Emit.Value → Emitting Unit) : Prop where
  first : ∀ e y, form ⟨e, y⟩ = (y >>= fun _ => form ⟨e, pure ()⟩)

instance : Sequenced key := ⟨fun _ _ => rfl⟩

instance (op : UnaryOp) : Sequenced (unary op) := ⟨fun _ _ => rfl⟩

instance : Sequenced lenForm := ⟨fun _ _ => rfl⟩

instance : Sequenced strForm := ⟨fun _ _ => rfl⟩

instance : Sequenced numForm := ⟨fun _ _ => rfl⟩

instance : Sequenced freeForm := ⟨fun _ _ => rfl⟩

instance : Sequenced (printValue env) := ⟨fun _ _ => rfl⟩

-- The layouts are long, and the search for their instances goes as deep as they are.
set_option synthInstance.maxSize 1000

section Forms

variable (e e₁ e₂ e₃ : Expr) (x x₁ x₂ x₃ : Stacking Unit) (y y₁ y₂ y₃ : Emitting Unit) [follows : Follows σ x y]
  [Follows σ x₁ y₁] [Follows σ x₂ y₂] [Follows σ x₃ y₃] (at_ : Span)

instance (form : Emit.Value → Emitting Unit) [sequenced : Sequenced form] :
    Follows σ (after ⟨e, x⟩ form) (form ⟨e, y⟩) := by
  rw [sequenced.first]
  exact inferInstanceAs (Follows σ (x >>= fun _ => liftM (form ⟨e, pure ()⟩)) (y >>= fun _ => form ⟨e, pure ()⟩))

instance : Follows σ (ternary ⟨e₁, x₁⟩ ⟨e₂, x₂⟩ ⟨e₃, x₃⟩) (Emit.ternary ⟨e₁, y₁⟩ ⟨e₂, y₂⟩ ⟨e₃, y₃⟩) := by
  unfold ternary Emit.ternary
  infer_instance

instance (isOr : Bool) :
    Follows σ (shortCircuit isOr ⟨e₁, x₁⟩ ⟨e₂, x₂⟩) (Emit.shortCircuit isOr ⟨e₁, y₁⟩ ⟨e₂, y₂⟩) := by
  dsimp only [shortCircuit, Emit.shortCircuit]
  infer_instance

instance : Follows σ (powerForm env ⟨e₁, x₁⟩ ⟨e₂, x₂⟩) (Emit.powerForm (env.amid σ K) ⟨e₁, y₁⟩ ⟨e₂, y₂⟩) := by
  unfold powerForm Emit.powerForm
  infer_instance

instance (op : BinaryOp) :
    Follows σ (strictBinary env op ⟨e₁, x₁⟩ ⟨e₂, x₂⟩) (Emit.strictBinary (env.amid σ K) op ⟨e₁, y₁⟩ ⟨e₂, y₂⟩) := by
  unfold strictBinary Emit.strictBinary
  dsimp +instances only [Value.sigil, Emit.Value.sigil]
  infer_instance

instance (op : BinaryOp) :
    Follows σ (binary env op ⟨e₁, x₁⟩ ⟨e₂, x₂⟩) (Emit.binary (env.amid σ K) op ⟨e₁, y₁⟩ ⟨e₂, y₂⟩) := by
  cases op <;> unfold binary Emit.binary <;> infer_instance

theorem follows_pushElems (list : Operand) {vs : List Value} {ws : List Emit.Value}
    (pairs : List.Forall₂ (Pair σ) vs ws) : Follows σ (pushElems list vs) (Emit.pushElems list ws) := by
  induction pairs with
  | nil => exact inferInstanceAs (Follows σ (pure ()) (pure ()))
  | cons pair _ ih =>
      have := pair.code
      unfold pushElems Emit.pushElems
      infer_instance

instance (vs : List Value) (ws : List Emit.Value) [pairs : Pairs σ vs ws] :
    Follows σ (listLit env vs) (Emit.listLit (env.amid σ K) ws) := by
  have (list : Operand) : Follows σ (pushElems list vs) (Emit.pushElems list ws) := follows_pushElems list pairs.each
  unfold listLit Emit.listLit
  infer_instance

theorem follows_putEntries (map : Operand) {vs : List (Value × Value)} {ws : List (Emit.Value × Emit.Value)}
    (pairs : List.Forall₂ (fun v w => Pair σ v.1 w.1 ∧ Pair σ v.2 w.2) vs ws) :
    Follows σ (putEntries env map vs) (Emit.putEntries (env.amid σ K) map ws) := by
  induction pairs with
  | nil => exact inferInstanceAs (Follows σ (pure ()) (pure ()))
  | @cons v w _ _ pair _ ih =>
      obtain ⟨⟨k, kx⟩, ⟨e, x⟩⟩ := v
      obtain ⟨⟨k', ky⟩, ⟨e', y⟩⟩ := w
      obtain ⟨⟨rfl, _⟩, ⟨rfl, _⟩⟩ := pair
      dsimp only at *
      unfold putEntries Emit.putEntries
      dsimp +instances only [Value.sigil, Emit.Value.sigil]
      infer_instance

instance (vs : List (Value × Value)) (ws : List (Emit.Value × Emit.Value)) [pairs : EntryPairs σ vs ws] :
    Follows σ (mapLit env vs) (Emit.mapLit (env.amid σ K) ws) := by
  have (map : Operand) : Follows σ (putEntries env map vs) (Emit.putEntries (env.amid σ K) map ws) :=
    follows_putEntries map pairs.each
  unfold mapLit Emit.mapLit
  rw [pairs.each.length_eq]
  infer_instance

instance : Follows σ (index env at_ ⟨e₁, x₁⟩ ⟨e₂, x₂⟩) (Emit.index (env.amid σ K) at_ ⟨e₁, y₁⟩ ⟨e₂, y₂⟩) := by
  have same : staticRef? (env.amid σ K) e₁ e₂ = staticRef? env e₁ e₂ := rfl
  unfold index Emit.index
  rw [same]
  rcases staticRef? env e₁ e₂ with _ | ⟨cls, field⟩
  · dsimp +instances only [Value.sigil, Emit.Value.sigil]
    infer_instance
  · infer_instance

instance (name : String) : Follows σ (member env at_ ⟨e, x⟩ name) (Emit.member (env.amid σ K) at_ ⟨e, y⟩ name) := by
  have same : (env.amid σ K).classRef? e = env.classRef? e := rfl
  unfold member Emit.member
  rw [same]
  cases env.classRef? e <;> infer_instance

instance (op : StepOp) (first : Bool) : Follows σ (stepElement env at_ op first ⟨e₁, x₁⟩ ⟨e₂, x₂⟩)
    (Emit.stepElement (env.amid σ K) at_ op first ⟨e₁, y₁⟩ ⟨e₂, y₂⟩) := by
  have same : staticRef? (env.amid σ K) e₁ e₂ = staticRef? env e₁ e₂ := rfl
  have classes : (env.amid σ K).classes = env.classes := rfl
  unfold stepElement Emit.stepElement
  rw [same, classes]
  rcases staticRef? env e₁ e₂ with _ | ⟨cls, field⟩
  · dsimp +instances only [Value.sigil, Emit.Value.sigil]
    infer_instance
  · dsimp only
    cases env.classes.staticField? cls field <;> infer_instance

theorem follows_evalArgs {vs : List Value} {ws : List Emit.Value} (pairs : List.Forall₂ (Pair σ) vs ws) :
    Follows σ (evalArgs env vs) (Emit.evalArgs (env.amid σ K) ws) := by
  induction pairs with
  | nil => exact inferInstanceAs (Follows σ (pure []) (pure []))
  | cons pair _ ih =>
      have := pair.code
      unfold evalArgs Emit.evalArgs
      infer_instance

instance (vs : List Value) (ws : List Emit.Value) [pairs : Pairs σ vs ws] :
    Follows σ (evalArgs env vs) (Emit.evalArgs (env.amid σ K) ws) :=
  follows_evalArgs pairs.each

instance : Follows σ (printEntry env ⟨e₁, x₁⟩ ⟨e₂, x₂⟩) (Emit.printEntry (env.amid σ K) ⟨e₁, y₁⟩ ⟨e₂, y₂⟩) := by
  unfold printEntry Emit.printEntry
  infer_instance

instance : Follows σ (containsForm env ⟨e₁, x₁⟩ ⟨e₂, x₂⟩) (Emit.containsForm (env.amid σ K) ⟨e₁, y₁⟩ ⟨e₂, y₂⟩) := by
  unfold containsForm Emit.containsForm
  dsimp +instances only [Value.sigil, Emit.Value.sigil]
  infer_instance

instance : Follows σ (deleteForm env ⟨e₁, x₁⟩ ⟨e₂, x₂⟩) (Emit.deleteForm (env.amid σ K) ⟨e₁, y₁⟩ ⟨e₂, y₂⟩) := by
  unfold deleteForm Emit.deleteForm
  infer_instance

instance : Follows σ (getOrForm env ⟨e₁, x₁⟩ ⟨e₂, x₂⟩ ⟨e₃, x₃⟩)
    (Emit.getOrForm (env.amid σ K) ⟨e₁, y₁⟩ ⟨e₂, y₂⟩ ⟨e₃, y₃⟩) := by
  unfold getOrForm Emit.getOrForm
  infer_instance

end Forms

theorem Pair.parts {v : Value} {w : Emit.Value} (pair : Pair σ v w) :
    ∃ e x y, v = ⟨e, x⟩ ∧ w = ⟨e, y⟩ ∧ Follows σ x y := by
  obtain ⟨e, x⟩ := v
  obtain ⟨_, y⟩ := w
  obtain ⟨rfl, follows⟩ := pair
  exact ⟨_, x, y, rfl, rfl, follows⟩

instance (at_ : Span) (f : LibFunc) (readStr : Bool) (vs : List Value) (ws : List Emit.Value) [pairs : Pairs σ vs ws] :
    Follows σ (libraryCall env at_ f readStr vs) (Emit.libraryCall (env.amid σ K) at_ f readStr ws) := by
  have each := pairs.each
  unfold libraryCall Emit.libraryCall
  rw [each.length_eq]
  split
  · infer_instance
  · split
    case h_1 routine found =>
      rw [found]
      infer_instance
    case h_2 =>
      rcases each with _ | ⟨pair, _ | _⟩
      obtain ⟨e, x, y, rfl, rfl, follows⟩ := pair.parts
      show Follows σ (after ⟨e, x⟩ lenForm) (lenForm ⟨e, y⟩)
      infer_instance
    case h_3 =>
      rcases each with _ | ⟨pair, _ | _⟩
      obtain ⟨e, x, y, rfl, rfl, follows⟩ := pair.parts
      show Follows σ (after ⟨e, x⟩ strForm) (strForm ⟨e, y⟩)
      infer_instance
    case h_4 =>
      rcases each with _ | ⟨pair, _ | _⟩
      obtain ⟨e, x, y, rfl, rfl, follows⟩ := pair.parts
      show Follows σ (after ⟨e, x⟩ numForm) (numForm ⟨e, y⟩)
      infer_instance
    case h_5 =>
      rcases each with _ | ⟨pair, _ | ⟨pair', _ | _⟩⟩
      obtain ⟨e, x, y, rfl, rfl, follows⟩ := pair.parts
      obtain ⟨e', x', y', rfl, rfl, follows'⟩ := pair'.parts
      show Follows σ (containsForm env ⟨e, x⟩ ⟨e', x'⟩) (Emit.containsForm (env.amid σ K) ⟨e, y⟩ ⟨e', y'⟩)
      infer_instance
    case h_6 =>
      rcases each with _ | ⟨pair, _ | ⟨pair', _ | _⟩⟩
      obtain ⟨e, x, y, rfl, rfl, follows⟩ := pair.parts
      obtain ⟨e', x', y', rfl, rfl, follows'⟩ := pair'.parts
      show Follows σ (deleteForm env ⟨e, x⟩ ⟨e', x'⟩) (Emit.deleteForm (env.amid σ K) ⟨e, y⟩ ⟨e', y'⟩)
      infer_instance
    case h_7 =>
      rcases each with _ | ⟨pair, _ | ⟨pair', _ | ⟨pair'', _ | _⟩⟩⟩
      obtain ⟨e, x, y, rfl, rfl, follows⟩ := pair.parts
      obtain ⟨e', x', y', rfl, rfl, follows'⟩ := pair'.parts
      obtain ⟨e'', x'', y'', rfl, rfl, follows''⟩ := pair''.parts
      show Follows σ (getOrForm env ⟨e, x⟩ ⟨e', x'⟩ ⟨e'', x''⟩)
        (Emit.getOrForm (env.amid σ K) ⟨e, y⟩ ⟨e', y'⟩ ⟨e'', y''⟩)
      infer_instance
    case h_8 =>
      rcases each with _ | ⟨pair, _ | _⟩
      obtain ⟨e, x, y, rfl, rfl, follows⟩ := pair.parts
      show Follows σ (after ⟨e, x⟩ freeForm) (freeForm ⟨e, y⟩)
      infer_instance
    case h_9 =>
      show Follows σ (liftM (inputForm readStr)) (inputForm readStr)
      infer_instance
    case h_10 =>
      show Follows σ (liftM (readString "fmt_read_line")) (readString "fmt_read_line")
      infer_instance
    case h_11 noInput noInputLine noLen noStr noNum noContains noDelete noGetOr noFree _ none_ =>
      -- the first side is in no line of the table, so neither is the other
      rw [none_]
      split
      case h_1 => contradiction
      case h_2 =>
        rcases each with _ | ⟨_, _ | _⟩
        exact (noLen _ rfl rfl).elim
      case h_3 =>
        rcases each with _ | ⟨_, _ | _⟩
        exact (noStr _ rfl rfl).elim
      case h_4 =>
        rcases each with _ | ⟨_, _ | _⟩
        exact (noNum _ rfl rfl).elim
      case h_5 =>
        rcases each with _ | ⟨_, _ | ⟨_, _ | _⟩⟩
        exact (noContains _ _ rfl rfl).elim
      case h_6 =>
        rcases each with _ | ⟨_, _ | ⟨_, _ | _⟩⟩
        exact (noDelete _ _ rfl rfl).elim
      case h_7 =>
        rcases each with _ | ⟨_, _ | ⟨_, _ | ⟨_, _ | _⟩⟩⟩
        exact (noGetOr _ _ _ rfl rfl).elim
      case h_8 =>
        rcases each with _ | ⟨_, _ | _⟩
        exact (noFree _ rfl rfl).elim
      case h_9 => exact (noInput rfl).elim
      case h_10 => exact (noInputLine rfl).elim
      case h_11 => infer_instance

/-! ## Targets of exceptions -/

/-- The innermost target runs all pending last blocks itself. -/
class Direct (σ : Stacks) (K : List LastBlock) : Prop where
  covers : ∃ u outer, σ.unwind = u :: outer ∧ u.depth = σ.lasts.length
  length : K.length = σ.lasts.length

section Targets

variable {knot : Knot} {u : UnwindTarget} {outer : List UnwindTarget}

theorem follows_target {f : UnwindTarget → Stacking α} {y : Emitting α} (top : σ.unwind = u :: outer)
    (rest : Follows σ (f u) y) : Follows σ (target >>= f) y := by
  unfold target
  rw [bind_assoc]
  apply follows_look
  rw [top]
  exact rest

theorem target_amid (top : σ.unwind = u :: outer) : (env.amid σ K).target = u := by
  simp [Env.target, Env.amid, top]

variable [direct : Direct σ K]

/-- An exception is delivered by one jump. -/
theorem follows_raise (top : σ.unwind = u :: outer) (depth : u.depth = σ.lasts.length) :
    Follows σ (raise knot env) (jump .jmp u.label) := by
  apply follows_target top
  apply follows_look
  rw [if_neg depth.not_lt]
  infer_instance

/-- The test behind a call is one conditional jump. -/
theorem follows_checkException (top : σ.unwind = u :: outer) (depth : u.depth = σ.lasts.length) :
    Follows σ (checkException knot env) (do
      emit .test [rdx, rdx]
      jump .jnz u.label) := by
  apply follows_target top
  have test : Follows σ (liftM (emit .test [rdx, rdx])) (emit .test [rdx, rdx]) := inferInstance
  refine ⟨.then fun _ => (follows_look ?_).goes⟩
  rw [if_pos depth.ge]
  infer_instance

instance : Follows σ (raise knot env) (Emit.raise (env.amid σ K)) := by
  obtain ⟨u, outer, top, depth⟩ := direct.covers
  have eq : Emit.raise (env.amid σ K) = jump .jmp u.label := by
    unfold Emit.raise
    rw [target_amid top, if_neg]
    rw [depth]
    exact direct.length.not_gt
  rw [eq]
  exact follows_raise top depth

instance : Follows σ (checkException knot env) (Emit.checkException (env.amid σ K)) := by
  obtain ⟨u, outer, top, depth⟩ := direct.covers
  have eq : Emit.checkException (env.amid σ K) = (do
      emit .test [rdx, rdx]
      jump .jnz u.label) := by
    unfold Emit.checkException
    rw [target_amid top, if_pos]
    rw [depth]
    exact direct.length.le
  rw [eq]
  exact follows_checkException top depth

end Targets

/-! ## Calls -/

section Calls

variable {knot : Knot} [direct : Direct σ K] (at_ : Span) (vs : List Value) (ws : List Emit.Value)
  [pairs : Pairs σ vs ws] (e : Expr) (x : Stacking Unit) (y : Emitting Unit) [Follows σ x y]

instance (target : Operand) (ops : List Operand) :
    Follows σ (callRoutine knot env target ops) (Emit.callRoutine (env.amid σ K) target ops) := by
  unfold callRoutine Emit.callRoutine
  infer_instance

instance (address : Operand) (ops : List Operand) :
    Follows σ (callAddress knot env address ops) (Emit.callAddress (env.amid σ K) address ops) := by
  unfold callAddress Emit.callAddress
  infer_instance

instance (receiver : Operand) (ops : List Operand) :
    Follows σ (callMethod knot env receiver ops) (Emit.callMethod (env.amid σ K) receiver ops) := by
  unfold callMethod Emit.callMethod
  infer_instance

instance (name : String) :
    Follows σ (superCall knot env at_ name vs) (Emit.superCall (env.amid σ K) at_ name ws) := by
  have locals : (env.amid σ K).locals = env.locals := rfl
  have cls : (env.amid σ K).cls = env.cls := rfl
  unfold superCall Emit.superCall
  rw [locals, cls]
  rcases env.locals.idxOf? "this" with _ | i
  · infer_instance
  · cases env.cls.isEmpty <;> infer_instance

instance (cls name : String) :
    Follows σ (staticCall knot env at_ cls name vs) (Emit.staticCall (env.amid σ K) at_ cls name ws) := by
  have classes : (env.amid σ K).classes = env.classes := rfl
  unfold staticCall Emit.staticCall
  rw [classes]
  cases env.classes.staticMethod? cls name <;> infer_instance

instance (name : String) :
    Follows σ (dispatch knot env ⟨e, x⟩ name vs) (Emit.dispatch (env.amid σ K) ⟨e, y⟩ name ws) := by
  unfold dispatch Emit.dispatch
  infer_instance

instance (name : String) :
    Follows σ (methodCall knot env at_ ⟨e, x⟩ name vs) (Emit.methodCall (env.amid σ K) at_ ⟨e, y⟩ name ws) := by
  have same : (env.amid σ K).classRef? e = env.classRef? e := rfl
  unfold methodCall Emit.methodCall
  cases e with
  | super => infer_instance
  | _ =>
      dsimp only
      rw [same]
      generalize env.classRef? _ = ref
      cases ref <;> infer_instance

instance (name : String) :
    Follows σ (callByName knot env at_ name vs) (Emit.callByName (env.amid σ K) at_ name ws) := by
  have same : (env.amid σ K).lookup? name = env.lookup? name := rfl
  have funcs : (env.amid σ K).funcs = env.funcs := rfl
  unfold callByName Emit.callByName
  rw [same, funcs]
  rcases env.lookup? name with _ | place
  · cases LibFunc.ofName? name <;> infer_instance
  · infer_instance

instance (c : ClassDecl) (obj : Operand) :
    Follows σ (construct knot env at_ c obj vs) (Emit.construct (env.amid σ K) at_ c obj ws) := by
  have length : ws.length = vs.length := pairs.each.length_eq.symm
  have empty : ws.isEmpty = vs.isEmpty := by rw [Bool.eq_iff_iff, List.isEmpty_iff_length_eq_zero, length,
    List.isEmpty_iff_length_eq_zero]
  unfold construct Emit.construct
  rw [length, empty]
  infer_instance

variable {initial : Expr → Emitting Unit}

omit direct pairs in
theorem follows_setFields (obj : Operand) {fs : List Field}
    (each : ∀ f ∈ fs, ∀ e ∈ f.init, Follows σ (knot.initial e) (initial e)) :
    Follows σ (setFields knot obj fs) (Emit.setFields obj initial fs) := by
  induction fs with
  | nil => exact inferInstanceAs (Follows σ (pure ()) (pure ()))
  | cons f fs ih =>
      obtain ⟨own, others⟩ := List.forall_mem_cons.mp each
      have := ih others
      unfold setFields Emit.setFields
      dsimp only
      cases init : f.init with
      | none => infer_instance
      | some e =>
          have := own e init
          infer_instance

theorem follows_newObject (cls : String)
    (initials : ∀ f ∈ env.classes.flatFields cls, ∀ e ∈ f.init, Follows σ (knot.initial e) (initial e)) :
    Follows σ (newObject knot env at_ cls vs) (Emit.newObject (env.amid σ K) initial at_ cls ws) := by
  have (obj : Operand) : Follows σ (setFields knot obj (env.classes.flatFields cls))
      (Emit.setFields obj initial (env.classes.flatFields cls)) := follows_setFields obj initials
  have classes : (env.amid σ K).classes = env.classes := rfl
  unfold newObject Emit.newObject
  rw [classes]
  cases env.classes.get? cls with
  | none => infer_instance
  | some c =>
      dsimp only
      infer_instance

end Calls

/-! ## Expressions -/

section Expressions

variable {knot : Knot} {initial : Expr → Emitting Unit}

/-- The initial values of a class follow those beside them. -/
def InitialsFollow (env : Env) (σ : Stacks) (knot : Knot) (initial : Expr → Emitting Unit) (cls : String) : Prop :=
  ∀ f ∈ env.classes.flatFields cls, ∀ e ∈ f.init, Follows σ (knot.initial e) (initial e)

mutual

theorem follows_exprWith [direct : Direct σ K] (e : Expr)
    (initials : ∀ cls ∈ e.creates, InitialsFollow env σ knot initial cls) :
    Follows σ (expr knot env e) (exprWith initial (env.amid σ K) e) := by
  unfold expr
  cases e with
  | number | str | super | funcRef | ident | bool =>
      unfold exprWith
      infer_instance
  | binary i op l r =>
      obtain ⟨first, second⟩ := List.forall_mem_append.mp initials
      have := follows_exprWith l first
      have := follows_exprWith r second
      unfold exprWith
      infer_instance
  | unary i op e =>
      have := follows_exprWith e initials
      unfold exprWith
      infer_instance
  | ternary i c a b =>
      obtain ⟨first, third⟩ := List.forall_mem_append.mp initials
      obtain ⟨first, second⟩ := List.forall_mem_append.mp first
      have := follows_exprWith c first
      have := follows_exprWith a second
      have := follows_exprWith b third
      unfold exprWith
      infer_instance
  | list i es =>
      have := follows_valuesWith es initials
      unfold exprWith
      infer_instance
  | map i es =>
      have := follows_entriesWith es initials
      unfold exprWith
      infer_instance
  | index i b k =>
      obtain ⟨first, second⟩ := List.forall_mem_append.mp initials
      have := follows_exprWith b first
      have := follows_exprWith k second
      unfold exprWith
      infer_instance
  | member i o name =>
      have := follows_exprWith o initials
      unfold exprWith
      infer_instance
  | call i callee args =>
      have := follows_valuesWith args initials
      unfold exprWith
      infer_instance
  | method i r name args =>
      obtain ⟨first, second⟩ := List.forall_mem_append.mp initials
      have := follows_exprWith r first
      have := follows_valuesWith args second
      unfold exprWith
      infer_instance
  | new_ i cls args =>
      obtain ⟨own, others⟩ := List.forall_mem_cons.mp initials
      have := follows_valuesWith args others
      have : Follows σ (newObject knot env i.span cls (values knot env args))
          (Emit.newObject (env.amid σ K) initial i.span cls (valuesWith initial (env.amid σ K) args)) :=
        follows_newObject i.span _ _ cls own
      unfold exprWith
      infer_instance
  | step i op first t =>
      cases t with
      | index j b k =>
          obtain ⟨left, right⟩ := List.forall_mem_append.mp initials
          have := follows_exprWith b left
          have := follows_exprWith k right
          unfold exprWith
          infer_instance
      | member j o name =>
          have := follows_exprWith o initials
          unfold exprWith
          infer_instance
      | _ =>
          unfold exprWith
          infer_instance

theorem follows_valuesWith [direct : Direct σ K] (es : List Expr)
    (initials : ∀ cls ∈ createdIn es, InitialsFollow env σ knot initial cls) :
    Pairs σ (values knot env es) (valuesWith initial (env.amid σ K) es) := by
  cases es with
  | nil => exact ⟨.nil⟩
  | cons e es =>
      obtain ⟨first, others⟩ := List.forall_mem_append.mp initials
      exact ⟨.cons ⟨rfl, follows_exprWith e first⟩ (follows_valuesWith es others).each⟩

theorem follows_entriesWith [direct : Direct σ K] (es : List (Expr × Expr))
    (initials : ∀ cls ∈ createdInEntries es, InitialsFollow env σ knot initial cls) :
    EntryPairs σ (entries knot env es) (entriesWith initial (env.amid σ K) es) := by
  cases es with
  | nil => exact ⟨.nil⟩
  | cons e es =>
      obtain ⟨k, v⟩ := e
      obtain ⟨first, others⟩ := List.forall_mem_append.mp initials
      obtain ⟨first, second⟩ := List.forall_mem_append.mp first
      exact ⟨.cons ⟨⟨rfl, follows_exprWith k first⟩, ⟨rfl, follows_exprWith v second⟩⟩
        (follows_entriesWith es others).each⟩

end

variable (free : env.classes.NoCircle) {depth : Nat}

include free

theorem exprWith_amid (e : Expr) :
    Emit.expr (env.amid σ K) e = exprWith (Emit.expr (env.amid σ K)) (env.amid σ K) e := by
  have free : (env.amid σ K).classes.NoCircle := free
  exact congrFun ((eq_exprWith_iff free).mpr rfl) e

variable [direct : Direct σ K]

/-- A jump for each level of objects that initial values create is enough. -/
theorem initialsFollow_of_shallow {n : Nat} {C : String} (shallow : env.classes.Shallow n C) (deep : n < depth) :
    InitialsFollow env σ (Stacked.knot env depth) (Emit.expr (env.amid σ K)) C := by
  induction n generalizing C depth with
  | zero =>
      obtain ⟨depth, rfl⟩ := Nat.exists_eq_succ_of_ne_zero deep.ne'
      intro f mem e init
      rw [exprWith_amid free]
      refine follows_exprWith e fun D created g held => ?_
      exact absurd ⟨ClassTable.has_of_mem_flatFields held, f, mem, e, init, created⟩ (shallow D)
  | succ n ih =>
      obtain ⟨depth, rfl⟩ := Nat.exists_eq_succ_of_ne_zero (Nat.ne_of_gt (Nat.zero_lt_of_lt deep))
      intro f mem e init
      rw [exprWith_amid free]
      refine follows_exprWith e fun D created g held => ?_
      have creates : env.classes.Creates C D := ⟨ClassTable.has_of_mem_flatFields held, f, mem, e, init, created⟩
      exact ih (shallow D creates) (Nat.lt_of_succ_lt_succ deep) g held

/-- The code of an expression follows if there are as many jumps as classes. -/
theorem follows_expr (deep : env.classes.length ≤ depth) (e : Expr) :
    Follows σ (expr (Stacked.knot env depth) env e) (Emit.expr (env.amid σ K) e) := by
  rw [exprWith_amid free]
  refine follows_exprWith e fun C created f held => ?_
  have known : env.classes.has C := ClassTable.has_of_mem_flatFields held
  have some_ : 0 < env.classes.length := by
    obtain ⟨c, mem, -⟩ := List.any_eq_true.mp known
    exact List.length_pos_of_mem mem
  exact initialsFollow_of_shallow free (free.shallow known) (by omega) f held

theorem pair_value (deep : env.classes.length ≤ depth) (e : Expr) :
    Pair σ (value (Stacked.knot env depth) env e) (Emit.value (env.amid σ K) e) :=
  ⟨rfl, follows_expr free deep e⟩

theorem follows_valueFor (deep : env.classes.length ≤ depth) (target : Sigil) (e : Expr) :
    Follows σ (valueFor (Stacked.knot env depth) env target e) (Emit.valueFor (env.amid σ K) target e) := by
  have := follows_expr (σ := σ) (K := K) free deep e
  cases e with
  | call i callee args =>
      have : Pairs σ (args.map (value (Stacked.knot env depth) env)) (args.map (Emit.value (env.amid σ K))) :=
        ⟨List.forall₂_map_left_iff.mpr (List.forall₂_map_right_iff.mpr
          (List.forall₂_same.mpr fun e _ => pair_value free deep e))⟩
      have same : (env.amid σ K).isVariable callee = env.isVariable callee := rfl
      unfold valueFor Emit.valueFor
      dsimp only
      rw [same]
      infer_instance
  | _ => exact this

end Expressions

/-! ## Stacks that arise -/

/-- The stacks come about while a routine is generated, with the code of the pending last blocks. -/
inductive Stands (env : Env) : Stacks → List LastBlock → Prop
  /-- At the start of the routine. -/
  | enter (label : String) : Stands env (Stacks.empty.pushTarget label 0) []
  /-- Inside a loop or switch. -/
  | framed {σ : Stacks} {K : List LastBlock} (outside : Stands env σ K) (exit next : String) (isSwitch : Bool) :
      Stands env (σ.pushLoop exit next isSwitch) K
  /-- Inside a guarded statement. -/
  | guarded {σ : Stacks} {K : List LastBlock} (outside : Stands env σ K) (label : String) (last : Option Stmt) :
      Stands env (σ.guarded label last) ((lastBlock? (env.amid σ K) last).toList ++ K)
  /-- In a last block, under the loops of the place that leaves its statement. -/
  | leaving {σ : Stacks} {K : List LastBlock} (outside : Stands env σ K) (loops : List LoopFrame) :
      Stands env { σ with loops := loops } K

namespace Stands

theorem length (stands : Stands env σ K) : K.length = σ.lasts.length := by
  induction stands with
  | enter => rfl
  | framed _ _ _ _ ih | leaving _ _ ih => exact ih
  | guarded outside label last ih =>
      cases last with
      | none => exact ih
      | some l => exact congrArg (· + 1) ih

/-- The innermost target runs the pending last blocks itself, all of them and no others. -/
theorem covers (stands : Stands env σ K) : ∃ u outer, σ.unwind = u :: outer ∧ u.depth = σ.lasts.length := by
  induction stands with
  | enter => exact ⟨_, _, rfl, rfl⟩
  | framed _ _ _ _ ih | leaving _ _ ih => exact ih
  | @guarded σ K _ label last _ =>
      refine ⟨_, _, rfl, ?_⟩
      show σ.lasts.length + last.toList.length = (last.toList.map (Pending.mk · σ.unwind.length) ++ σ.lasts).length
      rw [List.length_append, List.length_map, Nat.add_comm]

theorem direct (stands : Stands env σ K) : Direct σ K := ⟨stands.covers, stands.length⟩

theorem inFrame_amid (stands : Stands env σ K) (exit next : String) (isSwitch : Bool) :
    (env.amid σ K).inFrame exit next isSwitch = env.amid (σ.pushLoop exit next isSwitch) K := by
  show { env.amid σ K with loops := ⟨exit, next, isSwitch, K.length⟩ :: σ.loops } = _
  rw [stands.length]
  rfl

theorem guarded_amid (stands : Stands env σ K) (label : String) (last : Option Stmt) :
    (env.amid σ K).guarded label (lastBlock? (env.amid σ K) last) =
      env.amid (σ.guarded label last) ((lastBlock? (env.amid σ K) last).toList ++ K) := by
  have length := stands.length
  cases last with
  | none =>
      show { env.amid σ K with unwind := ⟨label, K.length⟩ :: σ.unwind } = _
      rw [length]
      rfl
  | some l =>
      show { env.amid σ K with
        lasts := ⟨fun loops => Emit.stmt { env.amid σ K with loops := loops } l⟩ :: K
        unwind := ⟨label, K.length + 1⟩ :: σ.unwind } = _
      rw [length]
      rfl

/-- What the stacks describe is an environment that arises. -/
theorem arises (stands : Stands env σ K) : (env.amid σ K).Arises env.classes (σ.lasts.map Pending.body) := by
  induction stands with
  | enter label => exact .enter rfl ⟨env.retLabel, label, ""⟩
  | framed outside exit next isSwitch ih =>
      rw [← outside.inFrame_amid]
      exact ih.inFrame exit next isSwitch
  | leaving outside loops ih => exact ih.leaving loops
  | @guarded σ K outside label last ih =>
      rw [← outside.guarded_amid]
      cases last with
      | none => exact ih.guarded label none
      | some l => exact ih.guarded label (some l)

/-- A pending last block was pushed where the stacks were those it is generated again with, but for the loops. -/
theorem cut (stands : Stands env σ K) {inner : List Pending} {e : Pending} {outer : List Pending}
    (held : σ.lasts = inner ++ e :: outer) : e.targets ≤ σ.unwind.length ∧ ∃ K' : List LastBlock,
      Stands env { σ with lasts := outer, unwind := cutTo e.targets σ.unwind } K' ∧
      K.drop inner.length = ⟨fun loops => Emit.stmt
        (env.amid ⟨loops, outer, cutTo e.targets σ.unwind⟩ K') e.body⟩ :: K' := by
  induction stands generalizing inner with
  | enter => cases inner <;> cases held
  | framed outside exit next isSwitch ih =>
      obtain ⟨below, K', stands, code⟩ := ih held
      exact ⟨below, K', stands.leaving _, code⟩
  | leaving outside loops ih =>
      obtain ⟨below, K', stands, code⟩ := ih held
      exact ⟨below, K', stands.leaving loops, code⟩
  | @guarded σ K outside label last ih =>
      -- the target of the statement itself is above those that were there when a block further out was pushed
      have further {inner : List Pending} (held : σ.lasts = inner ++ e :: outer) :
          e.targets ≤ (σ.guarded label last).unwind.length ∧ ∃ K' : List LastBlock,
            Stands env { σ.guarded label last with
              lasts := outer, unwind := cutTo e.targets (σ.guarded label last).unwind } K' ∧
            K.drop inner.length = ⟨fun loops => Emit.stmt
              (env.amid ⟨loops, outer, cutTo e.targets (σ.guarded label last).unwind⟩ K') e.body⟩ :: K' := by
        obtain ⟨below, K', stands, code⟩ := ih held
        have above : cutTo e.targets (σ.guarded label last).unwind = cutTo e.targets σ.unwind := by
          show (_ :: σ.unwind).drop (σ.unwind.length + 1 - e.targets) = _
          rw [Nat.succ_sub below, List.drop_succ_cons]
          rfl
        rw [above]
        exact ⟨Nat.le_succ_of_le below, K', stands, code⟩
      cases last with
      | none => exact further held
      | some l =>
          cases inner with
          | nil =>
              obtain ⟨rfl, rfl⟩ := List.cons.inj held
              have own : cutTo σ.unwind.length (σ.guarded label (some l)).unwind = σ.unwind := by
                show (_ :: σ.unwind).drop (σ.unwind.length + 1 - σ.unwind.length) = _
                rw [Nat.add_sub_cancel_left]
                rfl
              rw [own]
              exact ⟨Nat.le_succ _, K, outside, rfl⟩
          | cons first inner => exact further (List.cons.inj held).2

end Stands

/-! ## Copies of last blocks -/

section Leaving

variable {knot : Knot}

/-- Each pending last block follows where it is generated again. -/
def LastsFollow (env : Env) (σ : Stacks) (knot : Knot) : Prop :=
  ∀ inner e outer K', σ.lasts = inner ++ e :: outer →
    Stands env { σ with lasts := outer, unwind := cutTo e.targets σ.unwind } K' →
    Follows { σ with lasts := outer, unwind := cutTo e.targets σ.unwind } (knot.last e.body)
      (Emit.stmt (env.amid ⟨σ.loops, outer, cutTo e.targets σ.unwind⟩ K') e.body)

variable (stands : Stands env σ K) (lasts : LastsFollow env σ knot)

include stands lasts

theorem goes_replayFrom (depth : Nat) {inner rest : List Pending} {τ : Stacks} (loops : τ.loops = σ.loops)
    (held : σ.lasts = inner ++ rest) : Goes τ σ
      (replayFrom knot σ depth rest >>= fun _ => change fun τ => { τ with lasts := σ.lasts, unwind := σ.unwind })
      (((K.drop inner.length).take (rest.length - depth)).forM fun l => l.run σ.loops) := by
  have back {τ : Stacks} (loops : τ.loops = σ.loops) : Goes τ σ
      ((pure () : Stacking Unit) >>= fun _ => change fun τ => { τ with lasts := σ.lasts, unwind := σ.unwind })
      (pure ()) := by
    rintro s rfl
    refine ⟨s.points, ?_⟩
    show EStateM.Result.ok () (Site.mk s.gen ⟨s.around.loops, σ.lasts, σ.unwind⟩ s.points) = _
    rw [loops]
    rfl
  induction rest generalizing inner τ with
  | nil =>
      rw [List.length_nil, Nat.zero_sub, List.take_zero]
      exact back loops
  | cons e outer ih =>
      obtain ⟨-, K', stands', code⟩ := stands.cut held
      unfold replayFrom
      split
      · next above =>
          have next : K.drop (inner ++ [e]).length = K' := by
            rw [List.length_append, ← List.drop_drop, code]
            rfl
          have copy := (lasts inner e outer K' held stands').goes
          have others := ih (τ := { σ with lasts := outer, unwind := cutTo e.targets σ.unwind }) rfl
            (held.trans (List.append_cons inner e outer))
          rw [next] at others
          rw [code, List.length_cons, Nat.succ_sub above, List.take_succ_cons]
          simp only [bind_assoc]
          exact .behind (by rw [loops]) (copy.bind fun _ => others)
      · next above =>
          rw [List.length_cons, Nat.sub_eq_zero_of_le (Nat.lt_of_not_le above), List.take_zero]
          exact back loops

theorem follows_replay (depth : Nat) : Follows σ (replay knot depth) (Emit.replay (env.amid σ K) depth) := by
  unfold replay
  apply follows_look
  have goes := goes_replayFrom stands lasts depth rfl (List.nil_append σ.lasts).symm
  rw [← stands.length] at goes
  exact ⟨goes⟩

theorem follows_leave (at_ : Span) (goOn : Bool) :
    Follows σ (leave knot at_ goOn) (Emit.leave (env.amid σ K) at_ goOn) := by
  have loops : (env.amid σ K).loops = σ.loops := rfl
  have := follows_replay stands lasts
  unfold leave Emit.leave
  rw [loops]
  apply follows_look
  cases σ.loops.find? fun l => !(goOn && l.isSwitch) <;> infer_instance

end Leaving

/-! ## Statements -/

/-- What is inside a loop or switch, and what follows. -/
theorem follows_framed {exit next : String} {isSwitch : Bool} {x : Stacking α} {y : Emitting α} {x' : Stacking β}
    {y' : Emitting β} (body : Follows (σ.pushLoop exit next isSwitch) x y) (rest : Follows σ x' y') :
    Follows σ (change (·.pushLoop exit next isSwitch) >>= fun _ => x >>= fun _ => change (·.popLoop) >>= fun _ => x')
      (y >>= fun _ => y') :=
  ⟨.behind rfl (body.goes.bind fun _ => .behind rfl rest.goes)⟩

instance (known : Bool) (label : String) : Follows σ (jumpUnless known label) (Emit.jumpUnless known label) := by
  unfold jumpUnless Emit.jumpUnless
  infer_instance

/-- The sizes of the pending last blocks together, and a jump for each. -/
noncomputable def Stacks.weight (σ : Stacks) : Nat := (σ.lasts.map fun e => sizeOf e.body + 1).sum

theorem Stacks.weight_guarded (label : String) (last : Option Stmt) :
    (σ.guarded label last).weight ≤ sizeOf last + σ.weight := by
  cases last with
  | none => exact Nat.le_add_left _ _
  | some l =>
      show (sizeOf l + 1) + σ.weight ≤ sizeOf (some l) + σ.weight
      simp only [Option.some.sizeOf_spec]
      omega

/-- There are enough jumps for the objects in initial values, for all that is below something of the given size, and for
    copies of last blocks in copies. -/
def Room (env : Env) (σ : Stacks) (size depth : Nat) : Prop := env.classes.length + size + σ.weight ≤ depth

/-- Pending last blocks follow where they are jumped to, with one jump less. -/
def JumpsFollow (env : Env) (depth : Nat) : Prop :=
  ∀ σ K s, Stands env σ K → Room env σ (sizeOf s + 1) depth →
    Follows σ ((knot env depth).last s) (Emit.stmt (env.amid σ K) s)

section Statements

variable {depth : Nat} (free : env.classes.NoCircle) (jumps : JumpsFollow env depth)

include jumps in
theorem JumpsFollow.lasts {size : Nat} (room : Room env σ size depth) : LastsFollow env σ (knot env depth) := by
  intro inner e outer K' held stands
  refine jumps _ K' e.body stands ?_
  have weight : σ.weight = (inner.map fun e => sizeOf e.body + 1).sum +
      (sizeOf e.body + 1 + (outer.map fun e => sizeOf e.body + 1).sum) := by
    rw [Stacks.weight, held, List.map_append, List.sum_append, List.map_cons, List.sum_cons]
  unfold Room Stacks.weight at *
  dsimp only
  omega

include free

theorem follows_after (stands : Stands env σ K) (deep : env.classes.length ≤ depth) (e : Expr)
    (form : Emit.Value → Emitting Unit) [Sequenced form] :
    Follows σ (after (value (knot env depth) env e) form) (form (Emit.value (env.amid σ K) e)) := by
  have := stands.direct
  have := follows_expr (σ := σ) (K := K) free deep e
  exact inferInstanceAs (Follows σ (after ⟨e, expr (knot env depth) env e⟩ form) (form ⟨e, Emit.expr (env.amid σ K) e⟩))

theorem follows_print (stands : Stands env σ K) (deep : env.classes.length ≤ depth) (e : Expr) :
    Follows σ (print (knot env depth) env e) (Emit.print (env.amid σ K) e) := by
  have := stands.direct
  have (e : Expr) := follows_expr (σ := σ) (K := K) free deep e
  unfold print Emit.print
  rcases mapEntry? e with _ | ⟨base, x⟩
  · have same : printValue (env.amid σ K) = printValue env := rfl
    have := follows_after free stands deep e (printValue env)
    rw [same]
    infer_instance
  · have : Follows σ (printEntry env (value (knot env depth) env base) (value (knot env depth) env x))
        (Emit.printEntry (env.amid σ K) (Emit.value (env.amid σ K) base) (Emit.value (env.amid σ K) x)) :=
      inferInstanceAs (Follows σ (printEntry env ⟨base, expr (knot env depth) env base⟩ ⟨x, expr (knot env depth) env x⟩)
        (Emit.printEntry (env.amid σ K) ⟨base, Emit.expr (env.amid σ K) base⟩ ⟨x, Emit.expr (env.amid σ K) x⟩))
    infer_instance

theorem follows_throwStmt (stands : Stands env σ K) (deep : env.classes.length ≤ depth) (type : String) (e : Expr) :
    Follows σ (throwStmt (knot env depth) env type e) (Emit.throwStmt (env.amid σ K) type e) := by
  have := stands.direct
  have := follows_expr (σ := σ) (K := K) free deep e
  unfold throwStmt Emit.throwStmt
  infer_instance

theorem follows_indexAssign (stands : Stands env σ K) (deep : env.classes.length ≤ depth) (at_ : Span) (b x e : Expr) :
    Follows σ (indexAssign (knot env depth) env at_ b x e) (Emit.indexAssign (env.amid σ K) at_ b x e) := by
  have := stands.direct
  have (e : Expr) := follows_expr (σ := σ) (K := K) free deep e
  have (target : Sigil) := follows_valueFor (σ := σ) (K := K) free deep target e
  have same : staticRef? (env.amid σ K) b x = staticRef? env b x := rfl
  have classes : (env.amid σ K).classes = env.classes := rfl
  unfold indexAssign Emit.indexAssign
  rw [same, classes]
  rcases staticRef? env b x with _ | ⟨cls, field⟩
  · have := follows_after free stands deep x key
    infer_instance
  · dsimp only
    cases env.classes.staticField? cls field <;> infer_instance

theorem follows_compareClauses (stands : Stands env σ K) (deep : env.classes.length ≤ depth) (strSubject : Bool)
    (subject : Operand) (cs : List Clause) :
    Follows σ (compareClauses (knot env depth) env strSubject subject cs)
      (Emit.compareClauses (env.amid σ K) strSubject subject cs) := by
  have := stands.direct
  induction cs with
  | nil => exact inferInstanceAs (Follows σ (pure []) (pure []))
  | cons c cs ih =>
      cases c with
      | case_ s v body =>
          have := follows_expr (σ := σ) (K := K) free deep v
          unfold compareClauses Emit.compareClauses
          infer_instance
      | default_ s body =>
          unfold compareClauses Emit.compareClauses
          infer_instance

theorem follows_loopTest (stands : Stands env σ K) (deep : env.classes.length ≤ depth) (endL : String)
    (e : Option Expr) : Follows σ (loopTest (knot env depth) env endL e) (Emit.loopTest (env.amid σ K) endL e) := by
  have := stands.direct
  cases e with
  | none => exact inferInstanceAs (Follows σ (pure ()) (pure ()))
  | some e =>
      have := follows_expr (σ := σ) (K := K) free deep e
      unfold loopTest Emit.loopTest
      infer_instance

theorem follows_returnStmt (stands : Stands env σ K) (deep : env.classes.length ≤ depth)
    (lasts : LastsFollow env σ (knot env depth)) (e : Option Expr) :
    Follows σ (returnStmt (knot env depth) env e) (Emit.returnStmt (env.amid σ K) e) := by
  have := stands.direct
  have := follows_replay stands lasts
  have retSlot : (env.amid σ K).retSlot = env.retSlot := rfl
  have retLabel : (env.amid σ K).retLabel = env.retLabel := rfl
  have pending : (env.amid σ K).lasts.isEmpty = σ.lasts.isEmpty := by
    rw [Bool.eq_iff_iff, List.isEmpty_iff_length_eq_zero, List.isEmpty_iff_length_eq_zero]
    exact iff_of_eq (congrArg (· = 0) stands.length)
  unfold returnStmt Emit.returnStmt
  rw [retSlot, retLabel, pending]
  cases e with
  | none => infer_instance
  | some e =>
      have := follows_expr (σ := σ) (K := K) free deep e
      infer_instance

omit free in
theorem Room.deep {size : Nat} (room : Room env σ size depth) : env.classes.length ≤ depth := by
  unfold Room at room
  omega

omit free in
theorem Room.mono {size size' : Nat} (room : Room env σ size depth) (le : size' ≤ size) : Room env σ size' depth := by
  unfold Room at *
  omega

omit free in
theorem Room.guarded {size size' : Nat} (room : Room env σ size depth) (label : String) (last : Option Stmt)
    (le : size' + sizeOf last ≤ size) : Room env (σ.guarded label last) size' depth := by
  have := Stacks.weight_guarded (σ := σ) label last
  unfold Room at *
  omega

end Statements

section Bodies

variable {depth : Nat}

mutual

theorem follows_stmt {σ : Stacks} {K : List LastBlock} (free : env.classes.NoCircle) (jumps : JumpsFollow env depth)
    (stands : Stands env σ K) (s : Stmt)
    (room : Room env σ (sizeOf s) depth) : Follows σ (stmt (knot env depth) env s) (Emit.stmt (env.amid σ K) s) := by
  have := stands.direct
  have deep := room.deep
  have lasts := jumps.lasts room
  have value (e : Expr) := follows_expr (σ := σ) (K := K) free deep e
  have valueFor (target : Sigil) (e : Expr) := follows_valueFor (σ := σ) (K := K) free deep target e
  cases s with
  | block s body =>
      have := follows_stmts free jumps stands body (room.mono (by simp only [Stmt.block.sizeOf_spec]; omega))
      exact inferInstanceAs (Follows σ (note _ >>= fun _ => stmts (knot env depth) env body)
        (Emit.stmts (env.amid σ K) body))
  | print s e =>
      have := follows_print free stands deep e
      exact inferInstanceAs (Follows σ (note _ >>= fun _ => print (knot env depth) env e) (Emit.print (env.amid σ K) e))
  | printStmt s b =>
      exact inferInstanceAs (Follows σ (do
        note _
        unsupported b.span b.kind
        printf "fmt_int" [rax]
        printf "newline" [] : Stacking Unit) (do
        unsupported b.span b.kind
        printf "fmt_int" [rax]
        printf "newline" []))
  | expr s e =>
      exact inferInstanceAs (Follows σ (note _ >>= fun _ => expr (knot env depth) env e) (Emit.expr (env.amid σ K) e))
  | bare e => exact inferInstanceAs (Follows σ (note _ >>= fun _ => liftM (warn _ _)) (warn _ _))
  | assign s name e =>
      exact inferInstanceAs (Follows σ (do
        note _
        Stacked.valueFor (knot env depth) env (env.facts.var env.routine name) e
        store env s name) (do
        Emit.valueFor (env.amid σ K) (env.facts.var env.routine name) e
        store (env.amid σ K) s name))
  | varDecl s name type init =>
      cases init with
      | none =>
          exact inferInstanceAs (Follows σ (do
            note _
            defaultValue type
            store env s name : Stacking Unit) (do
            defaultValue type
            store (env.amid σ K) s name))
      | some e =>
          exact inferInstanceAs (Follows σ (do
            note _
            Stacked.valueFor (knot env depth) env (env.facts.var env.routine name) e
            store env s name) (do
            Emit.valueFor (env.amid σ K) (env.facts.var env.routine name) e
            store (env.amid σ K) s name))
  | indexAssign s b x e =>
      have := follows_indexAssign free stands deep s b x e
      exact inferInstanceAs (Follows σ (note _ >>= fun _ => indexAssign (knot env depth) env s b x e)
        (Emit.indexAssign (env.amid σ K) s b x e))
  | ifElse s c a b =>
      have := follows_stmt free jumps stands a (room.mono (by simp only [Stmt.ifElse.sizeOf_spec]; omega))
      have := follows_stmt? free jumps stands b (room.mono (by simp only [Stmt.ifElse.sizeOf_spec]; omega))
      rw [stmt_ifElse, Emit.stmt_ifElse]
      infer_instance
  | while_ s c body =>
      have body (endL next : String) {x : Stacking Unit} {y : Emitting Unit} [rest : Follows σ x y] :=
        follows_framed (follows_stmt free jumps (stands.framed endL next false) body
          (room.mono (by simp only [Stmt.while_.sizeOf_spec]; omega))) rest
      rw [stmt_while, Emit.stmt_while]
      simp only [stands.inFrame_amid]
      infer_instance
  | doWhile s body c =>
      have body (endL next : String) {x : Stacking Unit} {y : Emitting Unit} [rest : Follows σ x y] :=
        follows_framed (follows_stmt free jumps (stands.framed endL next false) body
          (room.mono (by simp only [Stmt.doWhile.sizeOf_spec]; omega))) rest
      rw [stmt_doWhile, Emit.stmt_doWhile]
      simp only [stands.inFrame_amid]
      infer_instance
  | for_ s init cond post body =>
      have := follows_stmt? free jumps stands init (room.mono (by simp only [Stmt.for_.sizeOf_spec]; omega))
      have := follows_stmt? free jumps stands post (room.mono (by simp only [Stmt.for_.sizeOf_spec]; omega))
      have (endL : String) := follows_loopTest free stands deep endL cond
      have body (endL next : String) {x : Stacking Unit} {y : Emitting Unit} [rest : Follows σ x y] :=
        follows_framed (follows_stmt free jumps (stands.framed endL next false) body
          (room.mono (by simp only [Stmt.for_.sizeOf_spec]; omega))) rest
      rw [stmt_for, Emit.stmt_for]
      simp only [stands.inFrame_amid]
      infer_instance
  | switch s e cs =>
      have (subject : Operand) := follows_compareClauses free stands deep e.sigil.isStr subject cs
      have body (endL : String) (labels : List String) {x : Stacking Unit} {y : Emitting Unit} [rest : Follows σ x y] :=
        follows_framed (follows_clauseBodies free jumps (stands.framed endL "" true) cs
          (room.mono (by simp only [Stmt.switch.sizeOf_spec]; omega)) labels) rest
      rw [stmt_switch, Emit.stmt_switch]
      simp only [stands.inFrame_amid]
      infer_instance
  | break_ s =>
      have := follows_leave stands lasts s false
      exact inferInstanceAs (Follows σ (note _ >>= fun _ => leave (knot env depth) s false)
        (Emit.leave (env.amid σ K) s false))
  | continue_ s =>
      have := follows_leave stands lasts s true
      exact inferInstanceAs (Follows σ (note _ >>= fun _ => leave (knot env depth) s true)
        (Emit.leave (env.amid σ K) s true))
  | return_ s e =>
      have := follows_returnStmt free stands deep lasts e
      exact inferInstanceAs (Follows σ (note _ >>= fun _ => returnStmt (knot env depth) env e)
        (Emit.returnStmt (env.amid σ K) e))
  | throw_ s type e =>
      have := follows_throwStmt free stands deep type e
      exact inferInstanceAs (Follows σ (note _ >>= fun _ => throwStmt (knot env depth) env type e)
        (Emit.throwStmt (env.amid σ K) type e))
  | try_ s body cs last =>
      have inside (label : String) := stands.guarded label last
      have (label : String) := follows_stmt free jumps (inside label) body
        (room.guarded label last (by simp only [Stmt.try_.sizeOf_spec]; omega))
      have (label lastL : String) (exc : Operand) := follows_handlers free jumps (inside label) cs
        (room.guarded label last (by simp only [Stmt.try_.sizeOf_spec]; omega)) exc lastL
      have := follows_stmt? free jumps stands last (room.mono (by simp only [Stmt.try_.sizeOf_spec]; omega))
      rw [stmt_try, Emit.stmt_try]
      simp only [stands.guarded_amid]
      refine ⟨.note (.then fun catchL => .then fun catchExit => .then fun rethrow => .then fun lastL =>
        .then fun endL => .then fun exc => .look (.behind rfl (.behind (pushLast_guarded catchL last) ?_)))⟩
      refine .then fun _ => .then fun _ => .behind (setTarget_guarded catchL catchExit last) ?_
      refine .then fun _ => .then fun _ => .then fun caughtAll => .then fun _ => .then fun _ => .then fun _ => ?_
      exact .behind rfl (.behind (popLast_guarded catchExit last) Follows.goes)
  | func f => exact inferInstanceAs (Follows σ (note _ >>= fun _ => liftM (warn _ _)) (warn _ _))
  | class_ c => exact inferInstanceAs (Follows σ (note _ >>= fun _ => liftM (warn _ _)) (warn _ _))

theorem follows_stmt? {σ : Stacks} {K : List LastBlock} (free : env.classes.NoCircle) (jumps : JumpsFollow env depth)
    (stands : Stands env σ K) (s : Option Stmt)
    (room : Room env σ (sizeOf s) depth) : Follows σ (stmt? (knot env depth) env s) (Emit.stmt? (env.amid σ K) s) := by
  cases s with
  | none => exact inferInstanceAs (Follows σ (pure ()) (pure ()))
  | some s => exact follows_stmt free jumps stands s (room.mono (by simp only [Option.some.sizeOf_spec]; omega))

theorem follows_stmts {σ : Stacks} {K : List LastBlock} (free : env.classes.NoCircle) (jumps : JumpsFollow env depth)
    (stands : Stands env σ K) (ss : List Stmt)
    (room : Room env σ (sizeOf ss) depth) :
    Follows σ (stmts (knot env depth) env ss) (Emit.stmts (env.amid σ K) ss) := by
  cases ss with
  | nil => exact inferInstanceAs (Follows σ (pure ()) (pure ()))
  | cons s ss =>
      have := follows_stmt free jumps stands s (room.mono (by simp only [List.cons.sizeOf_spec]; omega))
      have := follows_stmts free jumps stands ss (room.mono (by simp only [List.cons.sizeOf_spec]; omega))
      exact inferInstanceAs (Follows σ (stmt (knot env depth) env s >>= fun _ => stmts (knot env depth) env ss)
        (Emit.stmt (env.amid σ K) s >>= fun _ => Emit.stmts (env.amid σ K) ss))

theorem follows_clauseBodies {σ : Stacks} {K : List LastBlock} (free : env.classes.NoCircle)
    (jumps : JumpsFollow env depth) (stands : Stands env σ K) (cs : List Clause)
    (room : Room env σ (sizeOf cs) depth) (labels : List String) :
    Follows σ (clauseBodies (knot env depth) env cs labels) (Emit.clauseBodies (env.amid σ K) cs labels) := by
  cases cs with
  | nil => exact inferInstanceAs (Follows σ (pure ()) (pure ()))
  | cons c cs =>
      cases labels with
      | nil => cases c <;> exact inferInstanceAs (Follows σ (pure ()) (pure ()))
      | cons l ls =>
          have := follows_clauseBodies free jumps stands cs (room.mono (by simp only [List.cons.sizeOf_spec]; omega)) ls
          have : Follows σ (stmts (knot env depth) env (clauseBody c)) (Emit.stmts (env.amid σ K) (clauseBody c)) := by
            cases c with
            | case_ s v body =>
                exact follows_stmts free jumps stands body
                  (room.mono (by simp only [List.cons.sizeOf_spec, Clause.case_.sizeOf_spec]; omega))
            | default_ s body =>
                exact follows_stmts free jumps stands body
                  (room.mono (by simp only [List.cons.sizeOf_spec, Clause.default_.sizeOf_spec]; omega))
          rw [clauseBodies_cons, Emit.clauseBodies_cons]
          infer_instance

theorem follows_handlers {σ : Stacks} {K : List LastBlock} (free : env.classes.NoCircle) (jumps : JumpsFollow env depth)
    (stands : Stands env σ K) (cs : List Catch)
    (room : Room env σ (sizeOf cs) depth) (exc : Operand) (lastL : String) :
    Follows σ (handlers (knot env depth) env exc lastL cs) (Emit.handlers (env.amid σ K) exc lastL cs) := by
  cases cs with
  | nil => exact inferInstanceAs (Follows σ (pure false) (pure false))
  | cons c cs =>
      have := follows_handlers free jumps stands cs (room.mono (by simp only [List.cons.sizeOf_spec]; omega)) exc lastL
      have : Follows σ (stmt (knot env depth) env c.body) (Emit.stmt (env.amid σ K) c.body) := by
        obtain ⟨s, type, name, body⟩ := c
        exact follows_stmt free jumps stands body
          (room.mono (by simp only [List.cons.sizeOf_spec, Catch.mk.sizeOf_spec]; omega))
      rw [handlers_cons, Emit.handlers_cons]
      infer_instance

end

/-- So many jumps are enough for all last blocks that are pending at once. -/
theorem jumpsFollow (free : env.classes.NoCircle) (depth : Nat) : JumpsFollow env depth := by
  induction depth with
  | zero =>
      intro σ K s stands room
      unfold Room at room
      omega
  | succ depth ih =>
      intro σ K s stands room
      refine follows_stmt free ih stands s ?_
      unfold Room at *
      omega

namespace Stands

/-- Where the stacks came about by entering statements and copies of last blocks, generating an expression ends. -/
theorem goes_expr (stands : Stands env σ K) (free : env.classes.NoCircle) (e : Expr)
    (room : env.classes.length ≤ depth) : Goes σ σ (expr (knot env depth) env e) (Emit.expr (env.amid σ K) e) :=
  have := stands.direct
  (follows_expr free room e).goes

/-- So does generating a statement. -/
theorem goes_stmt (stands : Stands env σ K) (free : env.classes.NoCircle) (s : Stmt)
    (room : env.classes.length + sizeOf s + σ.weight ≤ depth) :
    Goes σ σ (stmt (knot env depth) env s) (Emit.stmt (env.amid σ K) s) :=
  (follows_stmt free (jumpsFollow free depth) stands s room).goes

end Stands

end Bodies

end Stacked

end Lantern
