import Lantern.Proofs.Statements
import Lantern.Proofs.Tidy
import Lantern.Stacked

/-!
# What generation does to the stacks

Whatever is pushed is taken away again, so every expression and statement leaves the stacks as they were, from whatever
stacks it starts and however last blocks nest in copies of last blocks. What is watched at the points of a run is kept
with them: a property of stacks that holds inside whatever a statement pushes and after every cutting back, and one of
nodes that passes to the nodes code is generated for next.
-/

namespace Lantern

/-! ## Nodes below a node -/

/-- The expressions directly below an expression. The target of a step is not computed as a whole. -/
def Expr.parts : Expr → List Expr
  | .number .. | .bool .. | .str .. | .ident .. | .super _ | .funcRef .. => []
  | .binary _ _ l r => [l, r]
  | .unary _ _ e => [e]
  | .ternary _ c a b => [c, a, b]
  | .list _ es => es
  | .map _ es => es.flatMap fun e => [e.1, e.2]
  | .index _ b k => [b, k]
  | .member _ o _ => [o]
  | .call _ _ args => args
  | .method _ r _ args => r :: args
  | .new_ _ _ args => args
  | .step _ _ _ t => t.parts

/-- The value of a clause that has one. -/
def Clause.value? : Clause → Option Expr
  | .case_ _ v _ => some v
  | .default_ _ _ => none

namespace Stmt

/-- The values of a statement. -/
def values : Stmt → List Expr
  | .print _ e | .expr _ e | .assign _ _ e | .throw_ _ _ e | .while_ _ e _ | .doWhile _ _ e | .ifElse _ e _ _ => [e]
  | .varDecl _ _ _ e | .return_ _ e | .for_ _ _ e _ _ => e.toList
  | .indexAssign _ b k e => [b, k, e]
  | .switch _ e cs => e :: cs.filterMap Clause.value?
  | _ => []

/-- The statements directly below a statement. -/
def parts : Stmt → List Stmt
  | .block _ body => body
  | .ifElse _ _ a b => a :: b.toList
  | .while_ _ _ body | .doWhile _ body _ => [body]
  | .for_ _ init _ post body => init.toList ++ post.toList ++ [body]
  | .switch _ _ cs => cs.flatMap Emit.clauseBody
  | .try_ _ body cs last => body :: cs.map Catch.body ++ last.toList
  | _ => []

end Stmt

namespace Emit

/-- A step that gives back `k` temporaries. -/
class Releases {α : Type} (k : Nat) (x : Emitting α) : Prop where
  temps : ∀ g, (x.run g).2.temps = g.temps - k

instance (priority := low) {α : Type} (k : Nat) (x : Emitting α) [tidy : Tidy k x] : Releases k x :=
  ⟨fun g => (tidy.tidy g).temps⟩

instance (l : String) : Releases 0 (place l) := ⟨fun _ => rfl⟩

instance {α β : Type} (k : Nat) (x : Emitting α) (f : α → Emitting β) [first : Releases 0 x]
    [rest : ∀ a, Releases k (f a)] : Releases k (x >>= f) :=
  ⟨fun g => ((rest (x.run g).1).temps (x.run g).2).trans (congrArg (· - k) (first.temps g))⟩

end Emit

namespace Stacked

open Assembly Emit

/-! ## What is watched -/

/-- The stacks inside a guarded statement. -/
def Stacks.guarded (σ : Stacks) (label : String) (last : Option Stmt) : Stacks :=
  (σ.pushTarget label (σ.lasts.length + last.toList.length)).pushLast last σ.unwind.length

/-- What is watched while code for the classes is generated. -/
structure Watch (t : ClassTable) where
  /-- Stacks that may be met. -/
  holds : Stacks → Prop
  /-- Nodes that may be met. -/
  good : Node → Prop
  operands : ∀ {e}, good (.expr e) → ∀ e' ∈ e.parts, good (.expr e')
  values : ∀ {s}, good (.stmt s) → ∀ e ∈ s.values, good (.expr e)
  parts : ∀ {s}, good (.stmt s) → ∀ s' ∈ s.parts, good (.stmt s')
  initial : ∀ {cls f e}, f ∈ t.flatFields cls → f.init = some e → good (.expr e)
  loop : ∀ {σ}, holds σ → ∀ exit next isSwitch, holds (σ.pushLoop exit next isSwitch)
  guard : ∀ {σ}, holds σ → ∀ label (last : Option Stmt), (∀ l ∈ last, good (.stmt l)) → holds (σ.guarded label last)
  start : ∀ label, holds (Stacks.empty.pushTarget label 0)
  cut : ∀ {σ inner e outer}, holds σ → σ.lasts = inner ++ e :: outer →
    good (.stmt e.body) ∧ holds { σ with lasts := outer, unwind := cutTo e.targets σ.unwind }

variable {t : ClassTable} {W : Watch t} {α β : Type} {k : Nat} {σ σ' σ'' : Stacks}

/-- The stacks may be met inside a routine. -/
class Watch.Holds (W : Watch t) (σ : Stacks) : Prop where
  holds : W.holds σ

/-- The stacks may be met, also before there is a target of exceptions. -/
class Watch.Met (W : Watch t) (σ : Stacks) : Prop where
  met : σ = .empty ∨ W.holds σ

instance [inside : W.Holds σ] : W.Met σ := ⟨.inr inside.holds⟩

instance : W.Met .empty := ⟨.inl rfl⟩

/-- The point is one that may be met. -/
structure Point.Fine (W : Watch t) (p : Point) : Prop where
  around : p.around = .empty ∨ W.holds p.around
  node : ∀ n ∈ p.node?, W.good n

/-- Where a run comes to, whether it ends or stops. -/
def reached : EStateM.Result Stop Site α → Site
  | .ok _ s => s
  | .error _ s => s

/-- From such stacks a step adds only points that may be met, whether it ends or stops. -/
def Visits (W : Watch t) (σ : Stacks) (x : Stacking α) : Prop :=
  ∀ s, s.around = σ → (∀ p ∈ s.points, p.Fine W) → ∀ p ∈ (reached (x s)).points, p.Fine W

/-- A step leads from the one state of the stacks to the other and gives back `k` temporaries, with only points that
    may be met between. -/
structure Moves (W : Watch t) (σ σ' : Stacks) (k : Nat) (x : Stacking α) : Prop where
  ends : ∀ {s a s'}, s.around = σ → x s = .ok a s' → s'.around = σ' ∧ s'.gen.temps = s.gen.temps - k
  points : Visits W σ x

/-- A step that leaves the stacks as they were. -/
class Steady (W : Watch t) (σ : Stacks) (k : Nat) (x : Stacking α) : Prop where
  moves : Moves W σ σ k x

/-! ## Steps -/

theorem bind_apply (x : Stacking α) (f : α → Stacking β) (s : Site) : (x >>= f) s =
    match x s with
    | .ok a s' => f a s'
    | .error e s' => .error e s' := by
  show EStateM.bind x f s = _
  unfold EStateM.bind
  cases x s <;> rfl

instance : LawfulMonad Stacking := by
  refine LawfulMonad.mk' Stacking (fun x => ?_) (fun a f => rfl) (fun x f g => ?_)
  · funext s
    show EStateM.map id x s = x s
    unfold EStateM.map
    cases x s <;> rfl
  · funext s
    simp only [bind_apply]
    cases x s <;> rfl

theorem Visits.bind {x : Stacking α} {f : α → Stacking β} (first : Moves W σ σ' k x) (rest : ∀ a, Visits W σ' (f a)) :
    Visits W σ (x >>= f) := by
  intro s start fine
  have before := first.points s start fine
  rw [bind_apply]
  cases run : x s with
  | error e s' => rwa [run] at before
  | ok a s' =>
      rw [run] at before
      exact rest a s' (first.ends start run).1 before

theorem Moves.bind {x : Stacking α} {f : α → Stacking β} {m : Nat} (first : Moves W σ σ' k x)
    (rest : ∀ a, Moves W σ' σ'' m (f a)) : Moves W σ σ'' (k + m) (x >>= f) := by
  refine ⟨?_, Visits.bind first fun a => (rest a).points⟩
  intro s b s'' start eq
  rw [bind_apply] at eq
  cases run : x s with
  | error e s' =>
      rw [run] at eq
      cases eq
  | ok a s' =>
      rw [run] at eq
      obtain ⟨between, temps⟩ := first.ends start run
      obtain ⟨end_, temps'⟩ := (rest a).ends between eq
      exact ⟨end_, by rw [temps', temps, Nat.sub_sub]⟩

theorem Moves.change (W : Watch t) {f : Stacks → Stacks} (eq : f σ = σ') : Moves W σ σ' 0 (change f) := by
  subst eq
  constructor
  · rintro s a s' rfl run
    cases run
    exact ⟨rfl, rfl⟩
  · intro s _ fine
    exact fine

/-- A change of the stacks and what follows. -/
theorem Moves.behind {f : Stacks → Stacks} {y : Stacking α} (eq : f σ = σ') (rest : Moves W σ' σ'' k y) :
    Moves W σ σ'' k (Stacked.change f >>= fun _ => y) :=
  k.zero_add ▸ (Moves.change W eq).bind fun _ => rest

/-- A step that leaves the stacks as they were and what follows. -/
theorem Moves.then {x : Stacking α} {f : α → Stacking β} [first : Steady W σ 0 x] (rest : ∀ a, Moves W σ σ' k (f a)) :
    Moves W σ σ' k (x >>= f) :=
  k.zero_add ▸ first.moves.bind rest

instance (a : α) : Steady W σ 0 (pure a : Stacking α) := by
  refine ⟨⟨?_, fun _ _ fine => fine⟩⟩
  rintro s b s' rfl run
  cases run
  exact ⟨rfl, rfl⟩

instance (e : Stop) : Steady W σ k (throw e : Stacking α) := by
  refine ⟨⟨?_, fun _ _ fine => fine⟩⟩
  rintro s a s' rfl run
  cases run

instance (x : Stacking α) (f : α → Stacking β) [first : Steady W σ 0 x] [rest : ∀ a, Steady W σ k (f a)] :
    Steady W σ k (x >>= f) :=
  ⟨.then fun a => (rest a).moves⟩

instance (priority := 2000) (x : Stacking α) (y : Stacking β) [first : Steady W σ 0 x] [rest : Steady W σ k y] :
    Steady W σ k (x >>= fun _ => y) :=
  ⟨.then fun _ => rest.moves⟩

instance (c : Prop) [Decidable c] (x y : Stacking α) [Steady W σ k x] [Steady W σ k y] :
    Steady W σ k (if c then x else y) := by
  split <;> infer_instance

theorem steady_forM {xs : List α} {f : α → Stacking PUnit} (each : ∀ x ∈ xs, Steady W σ 0 (f x)) :
    Steady W σ 0 (xs.forM f) := by
  induction xs with
  | nil => exact inferInstanceAs (Steady W σ 0 (pure PUnit.unit))
  | cons x xs ih =>
      have := each x List.mem_cons_self
      have := ih fun y inside => each y (List.mem_cons_of_mem _ inside)
      exact inferInstanceAs (Steady W σ 0 (f x >>= fun _ => xs.forM f))

section Steps

variable [met : W.Met σ]

theorem moves_note {n : Option Node} (good : ∀ m ∈ n, W.good m) : Moves W σ σ 0 (note n) := by
  constructor
  · rintro s a s' rfl run
    cases run
    exact ⟨rfl, rfl⟩
  · rintro s rfl fine
    exact List.forall_mem_cons.mpr ⟨⟨met.met, good⟩, fine⟩

/-- The entry of a node. -/
theorem steady_visit {n : Node} (good : W.good n) {x : Stacking α} (rest : Steady W σ k x) :
    Steady W σ k (note (some n) >>= fun _ => x) := by
  have entry : Moves W σ σ 0 (note (some n)) := moves_note fun m mem => Option.mem_some_iff.mp mem ▸ good
  exact ⟨k.zero_add ▸ entry.bind fun _ => rest.moves⟩

instance (x : Emitting α) [releases : Releases k x] : Steady W σ k (liftM x) := by
  have silent : ∀ n ∈ (none : Option Node), W.good n := nofun
  have look : Moves W σ σ 0 (note none) := moves_note silent
  refine ⟨⟨?_, look.points⟩⟩
  rintro s a s' rfl run
  cases run
  exact ⟨rfl, releases.temps s.gen⟩

theorem Moves.look {f : Stacks → Stacking α} (rest : Moves W σ σ' k (f σ)) : Moves W σ σ' k (look >>= f) := by
  have silent : ∀ n ∈ (none : Option Node), W.good n := nofun
  have seen : Moves W σ σ 0 (note none) := moves_note silent
  have all : Moves W σ σ' k (note none >>= fun _ => f σ) := k.zero_add ▸ seen.bind fun _ => rest
  constructor
  · rintro s a s' rfl run
    exact all.ends rfl run
  · rintro s rfl fine
    exact all.points _ rfl fine

theorem steady_look {f : Stacks → Stacking α} (rest : Steady W σ k (f σ)) : Steady W σ k (look >>= f) :=
  ⟨.look rest.moves⟩

instance (priority := 3000) (f : Stacks → Stacking α) [rest : Steady W σ k (f σ)] : Steady W σ k (look >>= f) :=
  steady_look rest

instance (priority := 3000) (n : Nat) (y : Stacking α) [rest : Steady W σ k y] :
    Steady W σ (k + n) ((liftM (popTemps n) : Stacking Unit) >>= fun _ => y) := by
  have first : Steady W σ n (liftM (popTemps n) : Stacking Unit) := inferInstance
  exact ⟨Nat.add_comm n k ▸ first.moves.bind fun _ => rest.moves⟩

/-- A step that takes a temporary and hands it on. -/
theorem steady_of_takes {x : Emitting Operand} (takes : ∀ g, (x.run g).2.temps = g.temps + 1) (f : Operand → Stacking α)
    (rest : ∀ o, Steady W σ (k + 1) (f o)) : Steady W σ k ((liftM x : Stacking Operand) >>= f) := by
  have silent : ∀ n ∈ (none : Option Node), W.good n := nofun
  have seen : Moves W σ σ 0 (note none) := moves_note silent
  refine ⟨⟨?_, ?_⟩⟩
  · rintro s a s' rfl run
    obtain ⟨around, temps⟩ := (rest _).moves.ends (by exact rfl) run
    refine ⟨around, temps.trans ?_⟩
    show (x.run s.gen).2.temps - (k + 1) = _
    rw [takes, Nat.add_sub_add_right]
  · rintro s rfl fine
    exact (rest _).moves.points _ (by exact rfl) (seen.points _ rfl fine)

instance (priority := 3000) (env : Env) (f : Operand → Stacking α) [rest : ∀ o, Steady W σ (k + 1) (f o)] :
    Steady W σ k ((liftM (pushTemp env) : Stacking Operand) >>= f) :=
  steady_of_takes (fun _ => rfl) f rest

instance (priority := 3000) (env : Env) (f : Operand → Stacking α) [rest : ∀ o, Steady W σ (k + 1) (f o)] :
    Steady W σ k ((liftM (spill env) : Stacking Operand) >>= f) :=
  steady_of_takes (fun _ => rfl) f rest

end Steps

/-! ## Pending last blocks and targets -/

/-- What generation goes on to that is not below leaves all stacks as they were. -/
class Knot.Steady (W : Watch t) (k : Knot) : Prop where
  initial : ∀ {σ e}, W.holds σ → W.good (.expr e) → Stacked.Steady W σ 0 (k.initial e)
  last : ∀ {σ s}, W.holds σ → W.good (.stmt s) → Stacked.Steady W σ 0 (k.last s)

section Targets

variable {knot : Knot} [steady : knot.Steady W] [inside : W.Holds σ]

/-- Copies of last blocks start from stacks that are cut back, and behind them all is restored. -/
theorem moves_replayFrom (depth : Nat) {inner rest : List Pending} {τ : Stacks} (loops : τ.loops = σ.loops)
    (held : σ.lasts = inner ++ rest) : Moves W τ σ 0 (replayFrom knot σ depth rest >>= fun _ =>
      change fun τ => { τ with lasts := σ.lasts, unwind := σ.unwind }) := by
  have back {τ : Stacks} (loops : τ.loops = σ.loops) :
      Moves W τ σ 0 (change fun τ => { τ with lasts := σ.lasts, unwind := σ.unwind }) := .change W (by rw [loops])
  induction rest generalizing inner τ with
  | nil => exact .then (x := (pure () : Stacking Unit)) fun _ => back loops
  | cons e outer ih =>
      unfold replayFrom
      split
      · obtain ⟨good, holds⟩ := W.cut inside.holds held
        have := steady.last holds good
        simp only [bind_assoc]
        refine .behind (by rw [loops]) (.then fun _ => ?_)
        exact ih rfl (held.trans (List.append_cons inner e outer))
      · exact .then (x := (pure () : Stacking Unit)) fun _ => back loops

instance (depth : Nat) : Stacked.Steady W σ 0 (replay knot depth) := by
  have : Stacked.Steady W σ 0 (replayFrom knot σ depth σ.lasts >>= fun _ =>
      change fun τ => { τ with lasts := σ.lasts, unwind := σ.unwind }) :=
    ⟨moves_replayFrom depth rfl (List.nil_append σ.lasts).symm⟩
  unfold replay
  infer_instance

omit steady in
instance : Stacked.Steady W σ 0 target := by
  unfold target
  apply steady_look
  split <;> infer_instance

instance (env : Env) : Stacked.Steady W σ 0 (raise knot env) := by
  unfold raise
  infer_instance

instance (env : Env) : Stacked.Steady W σ 0 (checkException knot env) := by
  unfold checkException
  infer_instance

end Targets

/-! ## Forms of expressions -/

/-- The code of every operand leaves the stacks as they were. -/
class AllSteady (W : Watch t) (σ : Stacks) (vs : List Value) : Prop where
  each : ∀ v ∈ vs, Steady W σ 0 v.code

/-- The code of every key and value leaves the stacks as they were. -/
class EntriesSteady (W : Watch t) (σ : Stacks) (es : List (Value × Value)) : Prop where
  each : ∀ e ∈ es, Steady W σ 0 e.1.code ∧ Steady W σ 0 e.2.code

theorem AllSteady.head {v : Value} {vs : List Value} (all : AllSteady W σ (v :: vs)) : Steady W σ 0 v.code :=
  all.each v List.mem_cons_self

theorem AllSteady.tail {v : Value} {vs : List Value} (all : AllSteady W σ (v :: vs)) : AllSteady W σ vs :=
  ⟨fun w mem => all.each w (List.mem_cons_of_mem v mem)⟩

-- The layouts are long, and the search for their instances goes as deep as they are.
set_option synthInstance.maxSize 1000

section Forms

variable [inside : W.Holds σ] (env : Env) (at_ : Span) (c a b l r v x d : Value) [Steady W σ 0 c.code]
  [Steady W σ 0 a.code] [Steady W σ 0 b.code] [Steady W σ 0 l.code] [Steady W σ 0 r.code] [Steady W σ 0 v.code]
  [Steady W σ 0 x.code] [Steady W σ 0 d.code]

instance (form : Emit.Value → Emitting Unit) [Releases 0 (form ⟨v.expr, pure ()⟩)] : Steady W σ 0 (after v form) := by
  unfold after
  infer_instance

instance : Steady W σ 0 (ternary c a b) := by
  unfold ternary
  infer_instance

instance (isOr : Bool) : Steady W σ 0 (shortCircuit isOr l r) := by
  cases isOr <;> dsimp only [shortCircuit] <;> infer_instance

instance : Steady W σ 0 (powerForm env l r) := by
  unfold powerForm
  infer_instance

instance (op : BinaryOp) : Steady W σ 0 (strictBinary env op l r) := by
  unfold strictBinary
  infer_instance

instance (op : BinaryOp) : Steady W σ 0 (binary env op l r) := by
  cases op <;> unfold binary <;> infer_instance

theorem steady_pushElems (list : Operand) {vs : List Value} (all : AllSteady W σ vs) :
    Steady W σ 0 (pushElems list vs) := by
  induction vs with
  | nil => unfold pushElems; infer_instance
  | cons v vs ih =>
      have := all.head
      have := ih all.tail
      unfold pushElems
      infer_instance

instance (list : Operand) (vs : List Value) [all : AllSteady W σ vs] : Steady W σ 0 (pushElems list vs) :=
  steady_pushElems list all

instance (vs : List Value) [AllSteady W σ vs] : Steady W σ 0 (listLit env vs) := by
  unfold listLit
  infer_instance

theorem steady_putEntries (map : Operand) {es : List (Value × Value)} (all : EntriesSteady W σ es) :
    Steady W σ 0 (putEntries env map es) := by
  induction es with
  | nil => unfold putEntries; infer_instance
  | cons e es ih =>
      obtain ⟨_, _⟩ := all.each e List.mem_cons_self
      have := ih ⟨fun e' mem => all.each e' (List.mem_cons_of_mem _ mem)⟩
      unfold putEntries
      infer_instance

instance (map : Operand) (es : List (Value × Value)) [all : EntriesSteady W σ es] :
    Steady W σ 0 (putEntries env map es) :=
  steady_putEntries env map all

instance (es : List (Value × Value)) [EntriesSteady W σ es] : Steady W σ 0 (mapLit env es) := by
  unfold mapLit
  infer_instance

instance : Steady W σ 0 (index env at_ b x) := by
  unfold index
  split
  · infer_instance
  · dsimp only
    infer_instance

instance (name : String) : Steady W σ 0 (member env at_ v name) := by
  unfold member
  split <;> infer_instance

instance (op : StepOp) (first : Bool) : Steady W σ 0 (stepElement env at_ op first b x) := by
  unfold stepElement
  split
  · split <;> infer_instance
  · dsimp only
    infer_instance

theorem steady_evalArgs {k : Nat} {vs : List Value} (all : AllSteady W σ vs) (f : List Operand → Stacking α)
    (rest : ∀ ops, Steady W σ (ops.length + k) (f ops)) : Steady W σ k (evalArgs env vs >>= f) := by
  induction vs generalizing k f with
  | nil => simpa [evalArgs] using rest []
  | cons v vs ih =>
      have := all.head
      have (t : Operand) : Steady W σ (k + 1) (evalArgs env vs >>= fun ts => f (t :: ts)) :=
        ih all.tail _ fun ts => by simpa [Nat.add_assoc, Nat.add_comm 1 k] using rest (t :: ts)
      simp only [evalArgs, bind_assoc, pure_bind]
      infer_instance

instance (priority := 3000) {k : Nat} (vs : List Value) [all : AllSteady W σ vs] (f : List Operand → Stacking α)
    [rest : ∀ ops, Steady W σ (ops.length + k) (f ops)] : Steady W σ k (evalArgs env vs >>= f) :=
  steady_evalArgs env all f rest

instance : Steady W σ 0 (containsForm env v x) := by
  unfold containsForm
  infer_instance

instance : Steady W σ 0 (deleteForm env v x) := by
  unfold deleteForm
  infer_instance

instance : Steady W σ 0 (getOrForm env v x d) := by
  unfold getOrForm
  infer_instance

instance (f : LibFunc) (readStr : Bool) (args : List Value) [all : AllSteady W σ args] :
    Steady W σ 0 (libraryCall env at_ f readStr args) := by
  unfold libraryCall
  split
  · infer_instance
  · split
    case h_1 => infer_instance
    case h_2 | h_3 | h_4 | h_8 =>
      have := all.head
      infer_instance
    case h_5 | h_6 =>
      have := all.head
      have := all.tail.head
      infer_instance
    case h_7 =>
      have := all.head
      have := all.tail.head
      have := all.tail.tail.head
      infer_instance
    case h_9 | h_10 | h_11 => infer_instance

end Forms

/-! ## Calls -/

section Calls

variable [inside : W.Holds σ] {knot : Knot} [steady : knot.Steady W] (env : Env) (at_ : Span) (args : List Value)
  [AllSteady W σ args]

instance (target : Operand) (ops : List Operand) : Steady W σ 0 (callRoutine knot env target ops) := by
  unfold callRoutine
  infer_instance

instance (address : Operand) (ops : List Operand) : Steady W σ 0 (callAddress knot env address ops) := by
  unfold callAddress
  infer_instance

instance (receiver : Operand) (ops : List Operand) : Steady W σ 0 (callMethod knot env receiver ops) := by
  unfold callMethod
  infer_instance

instance (name : String) : Steady W σ 0 (superCall knot env at_ name args) := by
  unfold superCall
  split <;> infer_instance

instance (cls name : String) : Steady W σ 0 (staticCall knot env at_ cls name args) := by
  unfold staticCall
  split <;> infer_instance

instance (receiver : Value) [Steady W σ 0 receiver.code] (name : String) :
    Steady W σ 0 (dispatch knot env receiver name args) := by
  unfold dispatch
  infer_instance

instance (receiver : Value) [Steady W σ 0 receiver.code] (name : String) :
    Steady W σ 0 (methodCall knot env at_ receiver name args) := by
  unfold methodCall
  split
  · infer_instance
  · split <;> infer_instance

instance (name : String) : Steady W σ 0 (callByName knot env at_ name args) := by
  unfold callByName
  split
  · infer_instance
  · split <;> infer_instance

instance (c : ClassDecl) (obj : Operand) : Steady W σ 0 (construct knot env at_ c obj args) := by
  unfold construct
  infer_instance

omit [AllSteady W σ args] in
theorem steady_setFields (obj : Operand) {fs : List Field} (each : ∀ f ∈ fs, ∀ e, f.init = some e → W.good (.expr e)) :
    Steady W σ 0 (setFields knot obj fs) := by
  induction fs with
  | nil => unfold setFields; infer_instance
  | cons f fs ih =>
      have := ih fun g mem => each g (List.mem_cons_of_mem f mem)
      unfold setFields
      dsimp only
      split
      · next e init =>
          have := steady.initial inside.holds (each f List.mem_cons_self e init)
          infer_instance
      · infer_instance

theorem steady_newObject (table : env.classes = t) (cls : String) : Steady W σ 0 (newObject knot env at_ cls args) := by
  have (obj : Operand) : Steady W σ 0 (setFields knot obj (env.classes.flatFields cls)) :=
    steady_setFields obj fun f mem e init => W.initial (table ▸ mem) init
  unfold newObject
  split
  · infer_instance
  · dsimp only
    infer_instance

end Calls

/-! ## Expressions -/

section Expressions

variable {knot : Knot} {env : Env}

mutual

theorem steady_expr [inside : W.Holds σ] [steady : knot.Steady W] (table : env.classes = t) {e : Expr}
    (good : W.good (.expr e)) : Steady W σ 0 (expr knot env e) := by
  have below {e'} (mem : e' ∈ e.parts) : W.good (.expr e') := W.operands good e' mem
  unfold expr
  refine steady_visit good ?_
  cases e with
  | number | str | super | funcRef | ident => infer_instance
  | bool i v => infer_instance
  | binary i op l r =>
      have : Steady W σ 0 (expr knot env l) := steady_expr table (below (by simp [Expr.parts]))
      have : Steady W σ 0 (expr knot env r) := steady_expr table (below (by simp [Expr.parts]))
      infer_instance
  | unary i op e =>
      have : Steady W σ 0 (expr knot env e) := steady_expr table (below (by simp [Expr.parts]))
      infer_instance
  | ternary i c a b =>
      have : Steady W σ 0 (expr knot env c) := steady_expr table (below (by simp [Expr.parts]))
      have : Steady W σ 0 (expr knot env a) := steady_expr table (below (by simp [Expr.parts]))
      have : Steady W σ 0 (expr knot env b) := steady_expr table (below (by simp [Expr.parts]))
      infer_instance
  | list i es =>
      have : AllSteady W σ (values knot env es) := steady_values table fun e mem => below mem
      infer_instance
  | map i es =>
      have : EntriesSteady W σ (entries knot env es) := steady_entries table fun e mem => below mem
      infer_instance
  | index i b k =>
      have : Steady W σ 0 (expr knot env b) := steady_expr table (below (by simp [Expr.parts]))
      have : Steady W σ 0 (expr knot env k) := steady_expr table (below (by simp [Expr.parts]))
      infer_instance
  | member i o name =>
      have : Steady W σ 0 (expr knot env o) := steady_expr table (below (by simp [Expr.parts]))
      infer_instance
  | call i callee args =>
      have : AllSteady W σ (values knot env args) := steady_values table fun e mem => below mem
      infer_instance
  | method i r name args =>
      have : Steady W σ 0 (expr knot env r) := steady_expr table (below (by simp [Expr.parts]))
      have : AllSteady W σ (values knot env args) := steady_values table fun e mem => below (List.mem_cons_of_mem r mem)
      infer_instance
  | new_ i cls args =>
      have : AllSteady W σ (values knot env args) := steady_values table fun e mem => below mem
      exact steady_newObject env i.span (values knot env args) table cls
  | step i op first k =>
      cases k with
      | index j b k =>
          have : Steady W σ 0 (expr knot env b) := steady_expr table (below (by simp [Expr.parts]))
          have : Steady W σ 0 (expr knot env k) := steady_expr table (below (by simp [Expr.parts]))
          infer_instance
      | member j o name =>
          have : Steady W σ 0 (expr knot env o) := steady_expr table (below (by simp [Expr.parts]))
          infer_instance
      | _ => infer_instance

theorem steady_values [inside : W.Holds σ] [steady : knot.Steady W] (table : env.classes = t) {es : List Expr}
    (good : ∀ e ∈ es, W.good (.expr e)) :
    AllSteady W σ (values knot env es) := by
  cases es with
  | nil => exact ⟨by simp [values]⟩
  | cons e es =>
      refine ⟨fun v mem => ?_⟩
      rcases List.mem_cons.mp mem with rfl | mem
      · exact steady_expr table (good e List.mem_cons_self)
      · exact (steady_values table fun e' mem => good e' (List.mem_cons_of_mem e mem)).each v mem

theorem steady_entries [inside : W.Holds σ] [steady : knot.Steady W] (table : env.classes = t) {es : List (Expr × Expr)}
    (good : ∀ e ∈ es.flatMap fun e => [e.1, e.2], W.good (.expr e)) : EntriesSteady W σ (entries knot env es) := by
  cases es with
  | nil => exact ⟨by simp [entries]⟩
  | cons e es =>
      obtain ⟨k, v⟩ := e
      refine ⟨fun e mem => ?_⟩
      rcases List.mem_cons.mp mem with rfl | mem
      · exact ⟨steady_expr table (good k (by simp)), steady_expr table (good v (by simp))⟩
      · exact (steady_entries table fun e' mem => good e' (List.mem_append_right _ mem)).each e mem

end

variable [inside : W.Holds σ] [steady : knot.Steady W]

theorem steady_value (table : env.classes = t) {e : Expr} (good : W.good (.expr e)) :
    Steady W σ 0 (value knot env e).code := steady_expr table good

theorem steady_valueFor (table : env.classes = t) (target : Sigil) {e : Expr} (good : W.good (.expr e)) :
    Steady W σ 0 (valueFor knot env target e) := by
  have : Steady W σ 0 (expr knot env e) := steady_expr table good
  unfold valueFor
  split
  · next i callee args =>
      have : AllSteady W σ (args.map (value knot env)) := by
        refine ⟨fun v mem => ?_⟩
        obtain ⟨e, held, rfl⟩ := List.mem_map.mp mem
        exact steady_value table (W.operands good e held)
      infer_instance
  · infer_instance

end Expressions

/-! ## What a statement generates -/

/-- A statement that may be missing. -/
def stmt? (k : Knot) (env : Env) : Option Stmt → Stacking Unit
  | some s => stmt k env s
  | none => pure ()

section Equations

variable (k : Knot) (env : Env) (s : Span)

theorem stmt_ifElse (c : Expr) (a : Stmt) (b : Option Stmt) : stmt k env (.ifElse s c a b) = (do
    note (some (.stmt (.ifElse s c a b)))
    let elseL ← newLabel "else"
    let endL ← newLabel "endif"
    expr k env c
    testResult
    jump .jz elseL
    stmt k env a
    jump .jmp endL
    place elseL
    stmt? k env b
    place endL) := by
  cases b <;> rfl

theorem stmt_while (c : Expr) (body : Stmt) : stmt k env (.while_ s c body) = (do
    note (some (.stmt (.while_ s c body)))
    let loop ← newLabel "loop"
    let next ← newLabel "cont"
    let endL ← newLabel "endloop"
    place loop
    place next
    expr k env c
    testResult
    jump .jz endL
    change (·.pushLoop endL next false)
    stmt k env body
    change (·.popLoop)
    jump .jmp loop
    place endL) := rfl

theorem stmt_doWhile (c : Expr) (body : Stmt) : stmt k env (.doWhile s body c) = (do
    note (some (.stmt (.doWhile s body c)))
    let loop ← newLabel "doloop"
    let next ← newLabel "docont"
    let endL ← newLabel "doend"
    place loop
    change (·.pushLoop endL next false)
    stmt k env body
    change (·.popLoop)
    place next
    expr k env c
    testResult
    jump .jnz loop
    place endL) := rfl

theorem stmt_for (init : Option Stmt) (cond : Option Expr) (post : Option Stmt) (body : Stmt) :
    stmt k env (.for_ s init cond post body) = (do
    note (some (.stmt (.for_ s init cond post body)))
    let loop ← newLabel "forloop"
    let next ← newLabel "forcont"
    let endL ← newLabel "forend"
    stmt? k env init
    place loop
    loopTest k env endL cond
    change (·.pushLoop endL next false)
    stmt k env body
    change (·.popLoop)
    place next
    stmt? k env post
    jump .jmp loop
    place endL) := by
  cases init <;> cases post <;> rfl

theorem stmt_switch (e : Expr) (cs : List Clause) : stmt k env (.switch s e cs) = (do
    note (some (.stmt (.switch s e cs)))
    let endL ← newLabel "switchend"
    expr k env e
    let subject ← spill env
    let labels ← compareClauses k env e.sigil.isStr subject cs
    jump .jmp ((defaultLabel? cs labels).getD endL)
    change (·.pushLoop endL "" true)
    clauseBodies k env cs labels
    change (·.popLoop)
    place endL
    popTemps 1) := rfl

theorem stmt_try (body : Stmt) (cs : List Catch) (last : Option Stmt) : stmt k env (.try_ s body cs last) = (do
    note (some (.stmt (.try_ s body cs last)))
    let catchL ← newLabel "catch"
    let catchExit ← newLabel "catchexit"
    let rethrow ← newLabel "rethrow"
    let lastL ← newLabel "finally"
    let endL ← newLabel "endtry"
    let exc ← pushTemp env
    let outside ← look
    change (·.pushTarget catchL (outside.lasts.length + last.toList.length))
    change (·.pushLast last outside.unwind.length)
    stmt k env body
    jump .jmp lastL
    change (·.setTarget catchExit (outside.lasts.length + last.toList.length))
    place catchL
    emit .mov [exc, rdx]
    let caughtAll ← handlers k env exc lastL cs
    jumpUnless caughtAll rethrow
    place catchExit
    emit .mov [exc, rdx]
    change (·.cutTargets outside.unwind.length)
    change (·.popLast last)
    place rethrow
    stmt? k env last
    emit .mov [rdx, exc]
    raise k env
    place lastL
    stmt? k env last
    place endL
    popTemps 1) := by
  cases last <;> rfl

theorem clauseBodies_cons (c : Clause) (cs : List Clause) (l : String) (ls : List String) :
    clauseBodies k env (c :: cs) (l :: ls) = (do
    place l
    stmts k env (clauseBody c)
    clauseBodies k env cs ls) := by
  cases c <;> rfl

theorem handlers_cons (exc : Operand) (lastL : String) (c : Catch) (cs : List Catch) :
    handlers k env exc lastL (c :: cs) = (do
    let next ← newLabel "nextcatch"
    testCatch exc c.type next
    emit .mov [rax, exc]
    store env c.span c.name
    stmt k env c.body
    jump .jmp lastL
    place next
    if c.type.isEmpty then return true else handlers k env exc lastL cs) := by
  cases c
  rfl


end Equations

/-! ## Statements -/

/-- The collection and the key of an entry that is printed are below it. -/
theorem mapEntry?_parts {e base x : Expr} (entry : mapEntry? e = some (base, x)) : base ∈ e.parts ∧ x ∈ e.parts := by
  unfold mapEntry? at entry
  split at entry
  · split at entry
    · cases entry
      simp [Expr.parts]
    · cases entry
  · cases entry

section Leaving

variable [inside : W.Holds σ] {knot : Knot} [steady : knot.Steady W] {env : Env}

instance (base x : Value) [Steady W σ 0 base.code] [Steady W σ 0 x.code] : Steady W σ 0 (printEntry env base x) := by
  unfold printEntry
  infer_instance

instance (at_ : Span) (goOn : Bool) : Steady W σ 0 (leave knot at_ goOn) := by
  unfold leave
  apply steady_look
  split <;> infer_instance

instance (known : Bool) (label : String) : Steady W σ 0 (jumpUnless known label) := by
  unfold jumpUnless
  infer_instance

variable (table : env.classes = t)

include table

theorem steady_print {e : Expr} (good : W.good (.expr e)) : Steady W σ 0 (print knot env e) := by
  have : Steady W σ 0 (value knot env e).code := steady_value table good
  unfold print
  split
  · next base x entry =>
      obtain ⟨first, second⟩ := mapEntry?_parts entry
      have : Steady W σ 0 (value knot env base).code := steady_value table (W.operands good base first)
      have : Steady W σ 0 (value knot env x).code := steady_value table (W.operands good x second)
      infer_instance
  · infer_instance

theorem steady_returnStmt {e : Option Expr} (good : ∀ e' ∈ e, W.good (.expr e')) :
    Steady W σ 0 (returnStmt knot env e) := by
  unfold returnStmt
  cases e with
  | none => infer_instance
  | some e =>
      have : Steady W σ 0 (expr knot env e) := steady_expr table (good e rfl)
      infer_instance

theorem steady_throwStmt (type : String) {e : Expr} (good : W.good (.expr e)) :
    Steady W σ 0 (throwStmt knot env type e) := by
  have : Steady W σ 0 (expr knot env e) := steady_expr table good
  unfold throwStmt
  infer_instance

theorem steady_indexAssign (at_ : Span) {b x e : Expr} (base : W.good (.expr b)) (key : W.good (.expr x))
    (good : W.good (.expr e)) : Steady W σ 0 (indexAssign knot env at_ b x e) := by
  have : Steady W σ 0 (expr knot env b) := steady_expr table base
  have : Steady W σ 0 (expr knot env x) := steady_expr table key
  have : Steady W σ 0 (value knot env x).code := steady_value table key
  have (target : Sigil) : Steady W σ 0 (valueFor knot env target e) := steady_valueFor table target good
  unfold indexAssign
  split
  · split <;> infer_instance
  · infer_instance

theorem steady_compareClauses (strSubject : Bool) (subject : Operand) {cs : List Clause}
    (good : ∀ e ∈ cs.filterMap Clause.value?, W.good (.expr e)) :
    Steady W σ 0 (compareClauses knot env strSubject subject cs) := by
  induction cs with
  | nil => unfold compareClauses; infer_instance
  | cons c cs ih =>
      cases c with
      | case_ s v body =>
          have : Steady W σ 0 (expr knot env v) := steady_expr table (good v List.mem_cons_self)
          have := ih fun e mem => good e (List.mem_cons_of_mem v mem)
          unfold compareClauses
          infer_instance
      | default_ s body =>
          have := ih good
          unfold compareClauses
          infer_instance

theorem steady_loopTest (endL : String) {e : Option Expr} (good : ∀ e' ∈ e, W.good (.expr e')) :
    Steady W σ 0 (loopTest knot env endL e) := by
  unfold loopTest
  cases e with
  | none => infer_instance
  | some e =>
      have : Steady W σ 0 (expr knot env e) := steady_expr table (good e rfl)
      infer_instance

end Leaving

section Statements

variable {knot : Knot} {env : Env}

theorem pushLast_guarded (label : String) (last : Option Stmt) :
    (σ.pushTarget label (σ.lasts.length + last.toList.length)).pushLast last σ.unwind.length = σ.guarded label last :=
  rfl

/-- Before the handlers another target takes the place of the first. -/
theorem setTarget_guarded (label label' : String) (last : Option Stmt) :
    (σ.guarded label last).setTarget label' (σ.lasts.length + last.toList.length) = σ.guarded label' last := rfl

/-- Behind the handlers the stacks are cut back to what they were. -/
theorem popLast_guarded (label : String) (last : Option Stmt) :
    ((σ.guarded label last).cutTargets σ.unwind.length).popLast last = σ := by
  cases last <;> simp [Stacks.guarded, Stacks.pushTarget, Stacks.pushLast, Stacks.cutTargets, Stacks.popLast, cutTo]

/-- What is inside a loop or switch, and what follows. -/
theorem steady_framed {exit next : String} {isSwitch : Bool} {x : Stacking α} {y : Stacking β}
    (body : Steady W (σ.pushLoop exit next isSwitch) 0 x) (rest : Steady W σ k y) :
    Steady W σ k
      (change (·.pushLoop exit next isSwitch) >>= fun _ => x >>= fun _ => change (·.popLoop) >>= fun _ => y) :=
  ⟨.behind rfl (.then fun _ => .behind rfl rest.moves)⟩

mutual

theorem steady_stmt {σ : Stacks} [inside : W.Holds σ] [steady : knot.Steady W] (table : env.classes = t) {s : Stmt}
    (good : W.good (.stmt s)) : Steady W σ 0 (stmt knot env s) := by
  have value {e} (mem : e ∈ s.values) : W.good (.expr e) := W.values good e mem
  have part {s'} (mem : s' ∈ s.parts) : W.good (.stmt s') := W.parts good s' mem
  have framed (exit next : String) (isSwitch : Bool) : W.Holds (σ.pushLoop exit next isSwitch) :=
    ⟨W.loop inside.holds exit next isSwitch⟩
  cases s with
  | block s body =>
      have : Steady W σ 0 (stmts knot env body) := steady_stmts table fun s mem => part mem
      exact steady_visit good inferInstance
  | print s e => exact steady_visit good (steady_print table (value List.mem_cons_self))
  | printStmt s b => exact steady_visit good (inferInstanceAs (Steady W σ 0 (do
      unsupported b.span b.kind
      printf "fmt_int" [rax]
      printf "newline" [] : Stacking Unit)))
  | expr s e => exact steady_visit good (steady_expr table (value List.mem_cons_self))
  | bare e => exact steady_visit good (inferInstanceAs (Steady W σ 0 (liftM (warn _ _))))
  | assign s name e =>
      have : Steady W σ 0 (valueFor knot env (env.facts.var env.routine name) e) :=
        steady_valueFor table _ (value List.mem_cons_self)
      exact steady_visit good (inferInstanceAs (Steady W σ 0 (do
        valueFor knot env (env.facts.var env.routine name) e
        store env s name)))
  | varDecl s name type init =>
      cases init with
      | none => exact steady_visit good (inferInstanceAs (Steady W σ 0 (do
          defaultValue type
          store env s name : Stacking Unit)))
      | some e =>
          have : Steady W σ 0 (valueFor knot env (env.facts.var env.routine name) e) :=
            steady_valueFor table _ (value List.mem_cons_self)
          exact steady_visit good (inferInstanceAs (Steady W σ 0 (do
            valueFor knot env (env.facts.var env.routine name) e
            store env s name)))
  | indexAssign s b x e =>
      exact steady_visit good (steady_indexAssign table s (value (by simp [Stmt.values])) (value (by simp [Stmt.values]))
        (value (by simp [Stmt.values])))
  | ifElse s c a b =>
      have : Steady W σ 0 (expr knot env c) := steady_expr table (value List.mem_cons_self)
      have : Steady W σ 0 (stmt knot env a) := steady_stmt table (part List.mem_cons_self)
      have : Steady W σ 0 (stmt? knot env b) := steady_stmt? table fun s mem =>
        part (List.mem_cons_of_mem a (Option.mem_toList.mpr mem))
      rw [stmt_ifElse]
      exact steady_visit good inferInstance
  | while_ s c body =>
      have := framed
      have : Steady W σ 0 (expr knot env c) := steady_expr table (value List.mem_cons_self)
      have body (endL next : String) : Steady W (σ.pushLoop endL next false) 0 (stmt knot env body) :=
        steady_stmt table (part List.mem_cons_self)
      have (endL next : String) {y : Stacking Unit} [rest : Steady W σ 0 y] := steady_framed (body endL next) rest
      rw [stmt_while]
      exact steady_visit good inferInstance
  | doWhile s body c =>
      have := framed
      have : Steady W σ 0 (expr knot env c) := steady_expr table (value List.mem_cons_self)
      have body (endL next : String) : Steady W (σ.pushLoop endL next false) 0 (stmt knot env body) :=
        steady_stmt table (part List.mem_cons_self)
      have (endL next : String) {y : Stacking Unit} [rest : Steady W σ 0 y] := steady_framed (body endL next) rest
      rw [stmt_doWhile]
      exact steady_visit good inferInstance
  | for_ s init cond post body =>
      have := framed
      have : Steady W σ 0 (stmt? knot env init) := steady_stmt? table fun s mem =>
        part (List.mem_append_left _ (List.mem_append_left _ (Option.mem_toList.mpr mem)))
      have : Steady W σ 0 (stmt? knot env post) := steady_stmt? table fun s mem =>
        part (List.mem_append_left _ (List.mem_append_right _ (Option.mem_toList.mpr mem)))
      have (endL : String) : Steady W σ 0 (loopTest knot env endL cond) := steady_loopTest table endL fun e mem =>
        value (Option.mem_toList.mpr mem)
      have body (endL next : String) : Steady W (σ.pushLoop endL next false) 0 (stmt knot env body) :=
        steady_stmt table (part (List.mem_append_right _ List.mem_cons_self))
      have (endL next : String) {y : Stacking Unit} [rest : Steady W σ 0 y] := steady_framed (body endL next) rest
      rw [stmt_for]
      exact steady_visit good inferInstance
  | switch s e cs =>
      have := framed
      have : Steady W σ 0 (expr knot env e) := steady_expr table (value List.mem_cons_self)
      have (subject : Operand) : Steady W σ 0 (compareClauses knot env e.sigil.isStr subject cs) :=
        steady_compareClauses table _ subject fun e' mem => value (List.mem_cons_of_mem e mem)
      have body (endL : String) (labels : List String) :
          Steady W (σ.pushLoop endL "" true) 0 (clauseBodies knot env cs labels) :=
        steady_clauseBodies table (fun s mem => part mem) labels
      have (endL : String) (labels : List String) {y : Stacking Unit} [rest : Steady W σ 1 y] :=
        steady_framed (body endL labels) rest
      rw [stmt_switch]
      exact steady_visit good inferInstance
  | break_ s => exact steady_visit good (inferInstanceAs (Steady W σ 0 (leave knot s false)))
  | continue_ s => exact steady_visit good (inferInstanceAs (Steady W σ 0 (leave knot s true)))
  | return_ s e =>
      exact steady_visit good (steady_returnStmt table fun e' mem => value (Option.mem_toList.mpr mem))
  | throw_ s type e => exact steady_visit good (steady_throwStmt table type (value List.mem_cons_self))
  | try_ s body cs last =>
      have own {l} (mem : l ∈ last) : W.good (.stmt l) :=
        part (List.mem_append_right _ (Option.mem_toList.mpr mem))
      have (label : String) : W.Holds (σ.guarded label last) := ⟨W.guard inside.holds label last fun l => own⟩
      have (label : String) : Steady W (σ.guarded label last) 0 (stmt knot env body) :=
        steady_stmt table (part List.mem_cons_self)
      have (label : String) (exc : Operand) (lastL : String) :
          Steady W (σ.guarded label last) 0 (handlers knot env exc lastL cs) :=
        steady_handlers table (fun s mem => part (List.mem_cons_of_mem body (List.mem_append_left _ mem))) exc lastL
      have : Steady W σ 0 (stmt? knot env last) := steady_stmt? table fun l => own
      -- behind the handlers the stacks are those around the statement again
      have close (label : String) {y : Stacking Unit} [rest : Steady W σ 1 y] : Moves W (σ.guarded label last) σ 1
          (change (·.cutTargets σ.unwind.length) >>= fun _ => change (·.popLast last) >>= fun _ => y) :=
        .behind rfl (.behind (popLast_guarded label last) rest.moves)
      rw [stmt_try]
      refine steady_visit good ⟨.then fun catchL => .then fun catchExit => .then fun rethrow => .then fun lastL =>
        .then fun endL => (steady_of_takes (fun _ => rfl) _ fun exc => ⟨.look ?_⟩).moves⟩
      refine .behind rfl (.behind (pushLast_guarded catchL last) (.then fun _ => .then fun _ => ?_))
      exact .behind (setTarget_guarded catchL catchExit last) (.then fun _ => .then fun _ => .then fun caughtAll =>
        .then fun _ => .then fun _ => .then fun _ => close catchExit)
  | func f => exact steady_visit good (inferInstanceAs (Steady W σ 0 (liftM (warn _ _))))
  | class_ c => exact steady_visit good (inferInstanceAs (Steady W σ 0 (liftM (warn _ _))))

theorem steady_stmt? {σ : Stacks} [inside : W.Holds σ] [steady : knot.Steady W] (table : env.classes = t)
    {s : Option Stmt} (good : ∀ l ∈ s, W.good (.stmt l)) : Steady W σ 0 (stmt? knot env s) := by
  cases s with
  | none => exact inferInstanceAs (Steady W σ 0 (pure ()))
  | some s => exact steady_stmt table (good s rfl)

theorem steady_stmts {σ : Stacks} [inside : W.Holds σ] [steady : knot.Steady W] (table : env.classes = t)
    {ss : List Stmt} (good : ∀ s ∈ ss, W.good (.stmt s)) : Steady W σ 0 (stmts knot env ss) := by
  cases ss with
  | nil => exact inferInstanceAs (Steady W σ 0 (pure ()))
  | cons s ss =>
      have : Steady W σ 0 (stmt knot env s) := steady_stmt table (good s List.mem_cons_self)
      have : Steady W σ 0 (stmts knot env ss) := steady_stmts table fun s' mem => good s' (List.mem_cons_of_mem s mem)
      exact inferInstanceAs (Steady W σ 0 (stmt knot env s >>= fun _ => stmts knot env ss))

theorem steady_clauseBodies {σ : Stacks} [inside : W.Holds σ] [steady : knot.Steady W] (table : env.classes = t)
    {cs : List Clause} (good : ∀ s ∈ cs.flatMap clauseBody, W.good (.stmt s)) (labels : List String) :
    Steady W σ 0 (clauseBodies knot env cs labels) := by
  cases cs with
  | nil => exact inferInstanceAs (Steady W σ 0 (pure ()))
  | cons c cs =>
      cases labels with
      | nil => cases c <;> exact inferInstanceAs (Steady W σ 0 (pure ()))
      | cons l ls =>
          have : Steady W σ 0 (clauseBodies knot env cs ls) :=
            steady_clauseBodies table (fun s mem => good s (List.mem_append_right _ mem)) ls
          have : Steady W σ 0 (stmts knot env (clauseBody c)) := by
            cases c with
            | case_ _ _ body | default_ _ body =>
                exact steady_stmts table fun s mem => good s (List.mem_append_left _ mem)
          rw [clauseBodies_cons]
          infer_instance

theorem steady_handlers {σ : Stacks} [inside : W.Holds σ] [steady : knot.Steady W] (table : env.classes = t)
    {cs : List Catch} (good : ∀ s ∈ cs.map Catch.body, W.good (.stmt s)) (exc : Operand) (lastL : String) :
    Steady W σ 0 (handlers knot env exc lastL cs) := by
  cases cs with
  | nil => exact inferInstanceAs (Steady W σ 0 (pure false))
  | cons c cs =>
      have : Steady W σ 0 (stmt knot env c.body) := by
        obtain ⟨s, type, name, body⟩ := c
        exact steady_stmt table (good body List.mem_cons_self)
      have : Steady W σ 0 (handlers knot env exc lastL cs) :=
        steady_handlers table (fun s mem => good s (List.mem_cons_of_mem _ mem)) exc lastL
      rw [handlers_cons]
      infer_instance

end

/-- So does all that generation goes on to, however deep it jumps. -/
theorem steady_knot (table : env.classes = t) (depth : Nat) : (Stacked.knot env depth).Steady W := by
  induction depth with
  | zero =>
      have stop {σ : Stacks} : Steady W σ 0 (throw .deep : Stacking Unit) := inferInstance
      exact ⟨fun _ _ => stop, fun _ _ => stop⟩
  | succ depth ih =>
      constructor
      · intro σ e holds good
        have : W.Holds σ := ⟨holds⟩
        exact steady_expr table good
      · intro σ s holds good
        have : W.Holds σ := ⟨holds⟩
        exact steady_stmt table good

/-- Nothing is watched. -/
def Watch.any (t : ClassTable) : Watch t where
  holds _ := True
  good _ := True
  operands _ _ _ := trivial
  values _ _ _ := trivial
  parts _ _ _ := trivial
  initial _ _ := trivial
  loop _ _ _ _ := trivial
  guard _ _ _ _ := trivial
  start _ := trivial
  cut _ _ := ⟨trivial, trivial⟩

/-- Where code for an expression ends, the stacks are what they were where it began, and all temporaries are back. -/
theorem kept_expr (env : Env) (depth : Nat) (e : Expr) {s s' : Site} {a : Unit}
    (run : expr (Stacked.knot env depth) env e s = .ok a s') :
    s'.around = s.around ∧ s'.gen.temps = s.gen.temps := by
  have := steady_knot (W := .any env.classes) rfl depth
  have : (Watch.any env.classes).Holds s.around := ⟨trivial⟩
  exact (steady_expr (W := .any env.classes) (e := e) rfl trivial).moves.ends rfl run

/-- So it is with statements. -/
theorem kept_stmt (env : Env) (depth : Nat) (st : Stmt) {s s' : Site} {a : Unit}
    (run : stmt (Stacked.knot env depth) env st s = .ok a s') :
    s'.around = s.around ∧ s'.gen.temps = s.gen.temps := by
  have := steady_knot (W := .any env.classes) rfl depth
  have : (Watch.any env.classes).Holds s.around := ⟨trivial⟩
  exact (steady_stmt (W := .any env.classes) (s := st) rfl trivial).moves.ends rfl run

end Statements

end Stacked

end Lantern
