import Lantern.Proofs.Following
import Lantern.Proofs.Searches

/-!
# Code generation ends

Generating code goes from a node to the nodes below it, from a new object to the initial values of its class, and from
a jump, a return or a possible exception to the pending last blocks. Neither of the last two lies below. All the same a
run ends if the initial values of classes do not create each other in a circle and following bases ends: so many jumps
are enough as there are classes and as the bodies of routines are large, and what the run then makes is the image.
-/

namespace Lantern

namespace Stacked

open Assembly Emit

variable {α β : Type} {σ σ' : Stacks} {env : Env}

/-! ## Sizes of bodies -/

theorem sizeOf_func_lt {f : FuncDecl} {items : List Stmt} (mem : .func f ∈ items) : sizeOf f.body < sizeOf items := by
  have below := List.sizeOf_lt_of_mem mem
  cases f
  simp only [Stmt.func.sizeOf_spec, FuncDecl.mk.sizeOf_spec] at *
  omega

variable {t : ClassTable} {c : ClassDecl} (mem : c ∈ t)

include mem

theorem sizeOf_method_lt {m : Method} (own : m ∈ c.methods) : sizeOf m.body < sizeOf t := by
  have below := List.sizeOf_lt_of_mem mem
  have within := List.sizeOf_lt_of_mem own
  cases c
  cases m
  simp only [ClassDecl.mk.sizeOf_spec, Method.mk.sizeOf_spec] at *
  omega

theorem sizeOf_ctor_lt {k : Ctor} (own : k ∈ c.ctors) : sizeOf k.body < sizeOf t := by
  have below := List.sizeOf_lt_of_mem mem
  have within := List.sizeOf_lt_of_mem own
  cases c
  cases k
  simp only [ClassDecl.mk.sizeOf_spec, Ctor.mk.sizeOf_spec] at *
  omega

omit mem

/-! ## Routines -/

/-- From such stacks a step does what the other does and does not stop, wherever it leaves the stacks. -/
def Runs (σ : Stacks) (x : Stacking α) (y : Emitting α) : Prop :=
  ∀ s, s.around = σ → ∃ around points, x s = .ok (y.run s.gen).1 ⟨(y.run s.gen).2, around, points⟩

/-- A step does so from any stacks. -/
def Makes (x : Stacking α) (y : Emitting α) : Prop := ∀ σ, Runs σ x y

theorem Goes.runs {x : Stacking α} {y : Emitting α} (goes : Goes σ σ' x y) : Runs σ x y :=
  fun s start => ⟨σ', goes s start⟩

theorem Runs.bind {x : Stacking α} {y : Emitting α} {f : α → Stacking β} {g : α → Emitting β} (first : Runs σ x y)
    (rest : ∀ a, Makes (f a) (g a)) : Runs σ (x >>= f) (y >>= g) := by
  intro s start
  obtain ⟨around, points, run⟩ := first s start
  rw [bind_apply, run]
  exact rest _ around ⟨_, around, points⟩ rfl

theorem Runs.then {x : Stacking α} {y : Emitting α} {f : α → Stacking β} {g : α → Emitting β}
    [first : Follows σ x y] (rest : ∀ a, Runs σ (f a) (g a)) : Runs σ (x >>= f) (y >>= g) := by
  intro s start
  obtain ⟨points, run⟩ := first.goes s start
  rw [bind_apply, run]
  exact rest _ ⟨_, σ, points⟩ rfl

theorem Runs.behind {f : Stacks → Stacks} {x : Stacking α} {y : Emitting α} (rest : Runs (f σ) x y) :
    Runs σ (change f >>= fun _ => x) y := by
  rintro s rfl
  exact rest ⟨s.gen, f s.around, s.points⟩ rfl

theorem Makes.pure (a : α) : Makes (pure a) (pure a) := fun _ s _ => ⟨s.around, s.points, rfl⟩

theorem Makes.bind {x : Stacking α} {y : Emitting α} {f : α → Stacking β} {g : α → Emitting β} (first : Makes x y)
    (rest : ∀ a, Makes (f a) (g a)) : Makes (x >>= f) (y >>= g) :=
  fun σ => (first σ).bind rest

theorem Makes.mapM {xs : List α} {f : α → Stacking β} {g : α → Emitting β} (each : ∀ x ∈ xs, Makes (f x) (g x)) :
    Makes (xs.mapM f) (xs.mapM g) := by
  induction xs with
  | nil => exact .pure []
  | cons x xs ih =>
      rw [List.mapM_cons, List.mapM_cons]
      exact (each x List.mem_cons_self).bind fun b =>
        (ih fun y mem => each y (List.mem_cons_of_mem x mem)).bind fun bs => .pure _

theorem makes_finish {name : String} {locals : Nat} {x : Stacking Unit} {y : Emitting Unit} (body : Runs .empty x y) :
    Makes (finish name locals x) (Emit.finish name locals y) := by
  have made : Runs .empty (liftM (emit .prologue []) >>= fun _ => x >>= fun _ => do
      let g := (← get).gen
      return (⟨name, g.code.toList, locals + 1 + g.maxTemps, g.maxCallArgs⟩ : Routine))
      (emit .prologue [] >>= fun _ => y >>= fun _ => do
      let g ← get
      return (⟨name, g.code.toList, locals + 1 + g.maxTemps, g.maxCallArgs⟩ : Routine)) :=
    .then fun _ => body.bind fun _ σ s _ => ⟨s.around, s.points, rfl⟩
  intro σ s _
  exact made { s with gen := { s.gen with code := #[], temps := 0, maxTemps := 0, maxCallArgs := 0 }, around := .empty }
    rfl

variable {depth : Nat} (free : env.classes.NoCircle)

include free

theorem makes_routine (sym cls : String) (hasThis : Bool) (params : List Param) {body : Stmt}
    (room : env.classes.length + sizeOf body ≤ depth) :
    Makes (routine depth env sym cls hasThis params body) (Emit.routine env sym cls hasThis params body) := by
  refine makes_finish (.then fun _ => ?_)
  simp only [beginTail, bind_assoc, pure_bind]
  refine .then fun tail => .behind ?_
  have inner (env : Env) (free : env.classes.NoCircle) (room : env.classes.length + sizeOf body ≤ depth) :
      Runs (Stacks.empty.pushTarget tail.unwind 0) (do
        stmt (knot env depth) env body
        routineEnd tail : Stacking Unit) (do
        Emit.stmt (env.amid (Stacks.empty.pushTarget tail.unwind 0) []) body
        routineEnd tail) := by
    have := follows_stmt free (jumpsFollow free depth) (.enter tail.unwind) body room
    exact Follows.goes.runs
  exact inner _ free room

theorem makes_classRoutines {c : ClassDecl} (methods : ∀ m ∈ c.methods, env.classes.length + sizeOf m.body ≤ depth)
    (ctors : ∀ k ∈ c.ctors, env.classes.length + sizeOf k.body ≤ depth) :
    Makes (classRoutines depth env c) (Emit.classRoutines env c) := by
  refine .bind (.mapM fun m mem => ?_) fun ms => .bind (.mapM fun k mem => ?_) fun ks => .pure _
  · split <;> exact makes_routine free _ _ _ _ (methods m mem)
  · exact makes_routine free _ _ _ _ (ctors k (mem_of_mem_ctorsByArity mem))

theorem makes_funcRoutines {items : List Stmt}
    (funcs : ∀ f, .func f ∈ items → env.classes.length + sizeOf f.body ≤ depth) :
    Makes (funcRoutines depth env items) (Emit.funcRoutines env items) := by
  induction items with
  | nil => exact .pure []
  | cons s items ih =>
      have others := ih fun f mem => funcs f (List.mem_cons_of_mem s mem)
      cases s with
      | func f =>
          exact .bind (makes_routine free _ _ _ _ (funcs f List.mem_cons_self)) fun r => others.bind fun rs => .pure _
      | _ => exact others

theorem makes_mainRoutine (seed : Int64) {items : List Stmt} (room : env.classes.length + sizeOf items ≤ depth) :
    Makes (mainRoutine depth env seed items) (Emit.mainRoutine env seed items) := by
  refine makes_finish ?_
  simp only [beginTail, bind_assoc, pure_bind]
  refine .then fun tail => .behind ?_
  have inner (env : Env) (free : env.classes.NoCircle) (room : env.classes.length + sizeOf items ≤ depth) :
      Runs (Stacks.empty.pushTarget tail.unwind 0) (do
        (env.classes.forM (methodTable env) : Emitting Unit)
        env.classes.forM (staticInit (knot env depth) env)
        stmts (knot env depth) env items
        mainEnd tail : Stacking Unit) (do
        env.classes.forM (methodTable env)
        env.classes.forM (Emit.staticInit (env.amid (Stacks.empty.pushTarget tail.unwind 0) []))
        Emit.stmts (env.amid (Stacks.empty.pushTarget tail.unwind 0) []) items
        mainEnd tail) := by
    have stands : Stands env (Stacks.empty.pushTarget tail.unwind 0) [] := .enter tail.unwind
    have := stands.direct
    have := follows_stmts free (jumpsFollow free depth) stands items room
    have (e : Expr) := follows_expr (σ := Stacks.empty.pushTarget tail.unwind 0) (K := []) free
      (Nat.le_of_add_right_le room) e
    have : Follows (Stacks.empty.pushTarget tail.unwind 0) (env.classes.forM (staticInit (knot env depth) env))
        (env.classes.forM (Emit.staticInit (env.amid (Stacks.empty.pushTarget tail.unwind 0) []))) := by
      refine follows_forM fun c mem => follows_forM fun f own => ?_
      cases f.init <;> infer_instance
    exact Follows.goes.runs
  split
  · exact .then fun _ => inner { env with retLabel := tail.ret } free room
  · exact inner { env with retLabel := tail.ret } free room

theorem makes_routines (seed : Int64) {items : List Stmt}
    (room : env.classes.length + (sizeOf env.classes + sizeOf items + sizeOf (items.filter (!·.isDecl))) ≤ depth) :
    Makes (routines depth env seed items) (Emit.routines env seed items) := by
  refine .bind (makes_funcRoutines free fun f mem => ?_) fun fs => .bind (.mapM fun c mem => ?_) fun cs =>
    .bind (makes_mainRoutine free seed ?_) fun m => .pure _
  · have := sizeOf_func_lt mem
    omega
  · refine makes_classRoutines free (fun m own => ?_) fun k own => ?_
    · have := sizeOf_method_lt mem own
      omega
    · have := sizeOf_ctor_lt mem own
      omega
  · omega

end Stacked

/-! ## Images -/

/-- Whatever is generated over the stacks with enough jumps is the image. -/
theorem Inference.generateAt_eq (t : Inference) (free : t.classes.NoCircle) (hints : Hints) (seed : Int64) :
    ∃ enough, ∀ depth, enough ≤ depth → t.generateAt depth hints seed = some (t.generate hints seed) := by
  refine ⟨t.classes.length + (sizeOf t.classes + sizeOf t.program.items + sizeOf t.topLevel), fun depth room => ?_⟩
  have free : (t.env hints).classes.NoCircle := free
  obtain ⟨around, points, run⟩ := Stacked.makes_routines free seed room .empty ⟨t.start hints, .empty, []⟩ rfl
  have run : t.runAt depth hints seed = _ := run
  rw [generateAt, run]
  rfl

/-- Generating code for a program ends if following bases does and the initial values of its classes do not create each
    other in a circle: from some number on that bounds the classes its searches meet, inference comes to its end, and
    from some number of jumps on generation makes the image of the program, however many more jumps to initial values
    and pending last blocks may nest. The searches of code generation end on their own, as following bases past the
    number of classes meets no further one. -/
theorem Program.generation_ends (p : Program) (hints : Hints) (seed : Int64)
    (free : (ClassTable.ofItems p.items).NoCircle) (rooted : (ClassTable.ofItems p.items).Rooted) :
    (∃ enough, ∀ bound, enough ≤ bound → p.infer? bound hints = some (p.infer hints)) ∧
    (∃ enough, ∀ depth, enough ≤ depth → p.generateAt depth hints seed = some (p.generate hints seed)) ∧
    ∀ name bound, (p.infer hints).classes.length ≤ bound →
      (p.infer hints).classes.lineageFrom bound [] name = (p.infer hints).classes.lineage name := by
  have inferred (bound : Nat) (room : (ClassTable.ofItems p.items).length + 1 ≤ bound) :=
    p.infer?_eq rooted (Nat.lt_of_succ_le room) hints
  obtain ⟨enough, made⟩ := (p.infer hints).generateAt_eq ((p.noCircle_infer hints).mpr free) hints seed
  refine ⟨⟨_, inferred⟩, ⟨max enough ((ClassTable.ofItems p.items).length + 1), fun depth room => ?_⟩,
    fun name bound room => ClassTable.lineageFrom_eq room name⟩
  rw [generateAt, inferred depth (le_of_max_le_right room)]
  exact made depth (le_of_max_le_left room)

/-- An object whose initial value is an object with one of its own, and a return through two last blocks. -/
def stacked : String :=
  "class A \x7b \x7d class B \x7b var a = new A(); \x7d class C \x7b var b = new B(); \x7d func f() \x7b try \x7b " ++
    "try \x7b return new C(); \x7d finally \x7b return 1; \x7d \x7d finally \x7b print(2); \x7d \x7d"

/-- How deep the objects of its classes nest. -/
def stackedRank (name : String) : Nat := if name = "C" then 2 else if name = "B" then 1 else 0

theorem Program.generation_ends_stacked : ∃ p p' hints, Program.accept? 0 stacked = some (p, p', hints) ∧
    (ClassTable.ofItems p'.items).NoCircle ∧ (ClassTable.ofItems p'.items).Rooted ∧
    ∃ enough, ∀ depth, enough ≤ depth → p'.generateAt depth hints 0 = some (p'.generate hints 0) := by
  have lower : (Program.accept? 0 stacked).map (fun r : Program × Program × Hints => decide (
      ∀ c ∈ ClassTable.ofItems r.2.1.items, ∀ f ∈ (ClassTable.ofItems r.2.1.items).flatFields c.name,
        ∀ e ∈ f.init.toList, ∀ D ∈ e.creates, stackedRank D < stackedRank c.name)) = some true := by
    rewrite [show Program.accept? 0 stacked = _ from Program.accept?_append 0 _ _]
    decide +kernel
  obtain ⟨⟨p, p', hints⟩, accepted, lower⟩ := Option.map_eq_some_iff.mp lower
  have free := ClassTable.noCircle_of_rank stackedRank (of_decide_eq_true lower)
  have rooted := (Program.rooted (Program.of_accept? accepted).2).2
  obtain ⟨-, ends, -⟩ := Program.generation_ends p' hints 0 free rooted
  exact ⟨p, p', hints, accepted, free, rooted, ends⟩

theorem ClassTable.noCircle_round (s s' : Span) : (ClassTable.round s s').NoCircle := by
  refine noCircle_of_rank (fun _ => 0) fun c mem f own => ?_
  rcases List.mem_cons.mp mem with rfl | mem
  · cases own
  · obtain rfl := List.mem_singleton.mp mem
    cases own

/-- Two classes that extend each other create nothing in initial values, but inference of a member neither has ends
    within no bound, and no number of jumps is enough. -/
theorem Program.generation_endless : ∃ tokens p, (Token.readAll 0 roundBases).outcome.1 = some tokens ∧
    Program.parse tokens = .ok p ∧ (ClassTable.ofItems p.items).NoCircle ∧ (∀ bound, p.infer? bound .empty = none) ∧
    ∀ depth seed, p.generateAt depth .empty seed = none := by
  obtain ⟨tokens, p, read, parsed, round⟩ := Program.exists_areRoundBases
  obtain ⟨s, s', table⟩ := Program.classes_of_areRoundBases round
  have endless := p.infer?_of_areRoundBases round
  refine ⟨tokens, p, read, parsed, table ▸ ClassTable.noCircle_round s s', endless, fun depth seed => ?_⟩
  rw [generateAt, endless]
  rfl

end Lantern
