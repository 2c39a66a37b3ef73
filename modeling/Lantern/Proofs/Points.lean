import Lantern.Proofs.Resolved
import Lantern.Proofs.Stacks

/-!
# Points of a run

Every routine begins without stacks and pushes its exit for exceptions as the first target, so what a statement or
expression keeps is kept at every point of a whole run, to its end or to where it stops.
-/

namespace Lantern

namespace Emit

theorem releases_forM {α : Type} {xs : List α} {f : α → Emitting PUnit} (each : ∀ x ∈ xs, Releases 0 (f x)) :
    Releases 0 (xs.forM f) := by
  induction xs with
  | nil => exact ⟨fun _ => rfl⟩
  | cons x xs ih =>
      have := each x List.mem_cons_self
      have := ih fun y mem => each y (List.mem_cons_of_mem x mem)
      exact inferInstanceAs (Releases 0 (f x >>= fun _ => xs.forM f))

-- The search for instances goes as deep as the code is long.
set_option synthInstance.maxSize 1000

instance (t : Tail) : Releases 0 (routineEnd t) := by
  unfold routineEnd
  infer_instance

instance (t : Tail) : Releases 0 (mainEnd t) := by
  unfold mainEnd
  infer_instance

instance (env : Env) (c : ClassDecl) : Releases 0 (methodTable env c) := by
  have (table : Assembly.Operand) (ms : List MethodEntry) : Releases 0 (ms.forM fun m => do
      call "lm_map_set" [table, ← str m.key, .addr m.symbol, imm 0]) := releases_forM fun _ _ => inferInstance
  unfold methodTable
  infer_instance

end Emit

namespace Stacked

open Assembly Emit

variable {t : ClassTable} {W : Watch t} {α β : Type} {σ : Stacks}

/-- From any stacks a step adds only points that may be met. -/
def Safe (W : Watch t) (x : Stacking α) : Prop := ∀ σ, Visits W σ x

theorem Safe.pure (a : α) : Safe W (pure a) := fun _ _ _ fine => fine

theorem Safe.bind {x : Stacking α} {f : α → Stacking β} (first : Safe W x) (rest : ∀ a, Safe W (f a)) :
    Safe W (x >>= f) := by
  intro σ s start fine
  have before := first σ s start fine
  rw [bind_apply]
  cases run : x s with
  | error e s' => rwa [run] at before
  | ok a s' =>
      rw [run] at before
      exact rest a _ s' rfl before

theorem Safe.mapM {xs : List α} {f : α → Stacking β} (each : ∀ x ∈ xs, Safe W (f x)) : Safe W (xs.mapM f) := by
  induction xs with
  | nil => exact .pure []
  | cons x xs ih =>
      rw [List.mapM_cons]
      exact (each x List.mem_cons_self).bind fun b =>
        (ih fun y mem => each y (List.mem_cons_of_mem x mem)).bind fun bs => .pure _

/-- A routine begins with empty stacks, wherever the one before it left them. -/
theorem safe_finish {name : String} {locals : Nat} {body : Stacking Unit} (inside : Visits W .empty body) :
    Safe W (finish name locals body) := by
  have entry : Steady W .empty 0 (liftM (emit .prologue []) : Stacking Unit) := inferInstance
  have code : Visits W .empty (liftM (emit .prologue []) >>= fun _ => body) := Visits.bind entry.moves fun _ => inside
  have made : Visits W .empty (liftM (emit .prologue []) >>= fun _ => body >>= fun _ => do
      let g := (← get).gen
      return (⟨name, g.code.toList, locals + 1 + g.maxTemps, g.maxCallArgs⟩ : Routine)) := by
    intro s start fine
    have before := code s start fine
    rw [← bind_assoc, bind_apply]
    cases run : (liftM (emit .prologue []) >>= fun _ => body : Stacking Unit) s with
    | error e s' => rwa [run] at before
    | ok a s' => rwa [run] at before
  intro σ s _ fine
  exact made { s with gen := { s.gen with code := #[], temps := 0, maxTemps := 0, maxCallArgs := 0 }, around := .empty }
    rfl fine

variable {env : Env} (table : env.classes = t) (depth : Nat)

include table

theorem safe_routine (sym cls : String) (hasThis : Bool) (params : List Param) {body : Stmt}
    (good : W.good (.stmt body)) : Safe W (routine depth env sym cls hasThis params body) := by
  refine safe_finish (Visits.bind (Steady.moves (k := 0)) fun _ => ?_)
  simp only [beginTail, bind_assoc, pure_bind]
  refine Visits.bind (Steady.moves (k := 0)) fun tail => Visits.bind (.change W rfl) fun _ => ?_
  have : W.Holds (Stacks.empty.pushTarget tail.unwind 0) := ⟨W.start tail.unwind⟩
  have inner (env : Env) (table : env.classes = t) : Visits W (Stacks.empty.pushTarget tail.unwind 0) (do
      stmt (knot env depth) env body
      routineEnd tail : Stacking Unit) := by
    have := steady_knot (W := W) table depth
    have : Steady W (Stacks.empty.pushTarget tail.unwind 0) 0 (stmt (knot env depth) env body) := steady_stmt table good
    exact (Steady.moves (k := 0)).points
  exact inner _ table

theorem safe_classRoutines {c : ClassDecl} (methods : ∀ m ∈ c.methods, W.good (.stmt m.body))
    (ctors : ∀ k ∈ c.ctors, W.good (.stmt k.body)) : Safe W (classRoutines depth env c) := by
  unfold classRoutines
  refine .bind (.mapM fun m mem => ?_) fun ms => .bind (.mapM fun k mem => ?_) fun ks => .pure _
  · split <;> exact safe_routine table depth _ _ _ _ (methods m mem)
  · exact safe_routine table depth _ _ _ _ (ctors k (mem_of_mem_ctorsByArity mem))

theorem safe_funcRoutines {items : List Stmt} (funcs : ∀ f, .func f ∈ items → W.good (.stmt f.body)) :
    Safe W (funcRoutines depth env items) := by
  induction items with
  | nil => exact .pure []
  | cons s items ih =>
      have others := ih fun f mem => funcs f (List.mem_cons_of_mem s mem)
      cases s with
      | func f =>
          unfold funcRoutines
          have own := safe_routine table depth (SymbolName.func f.name) "" false f.params (funcs f List.mem_cons_self)
          exact .bind own fun r => others.bind fun rs => .pure _
      | _ => exact others

theorem safe_mainRoutine (seed : Int64) {items : List Stmt}
    (statics : ∀ c ∈ t, ∀ f ∈ c.fields, ∀ e ∈ f.init, W.good (.expr e)) (top : ∀ s ∈ items, W.good (.stmt s)) :
    Safe W (mainRoutine depth env seed items) := by
  refine safe_finish ?_
  simp only [beginTail, bind_assoc, pure_bind]
  refine Visits.bind (Steady.moves (k := 0)) fun tail => Visits.bind (.change W rfl) fun _ => ?_
  have : W.Holds (Stacks.empty.pushTarget tail.unwind 0) := ⟨W.start tail.unwind⟩
  have inner (env : Env) (table : env.classes = t) : Visits W (Stacks.empty.pushTarget tail.unwind 0) (do
      (env.classes.forM (methodTable env) : Emitting Unit)
      env.classes.forM (staticInit (knot env depth) env)
      stmts (knot env depth) env items
      mainEnd tail : Stacking Unit) := by
    have := steady_knot (W := W) table depth
    have : Releases 0 (env.classes.forM (methodTable env)) := releases_forM fun _ _ => inferInstance
    have : Steady W (Stacks.empty.pushTarget tail.unwind 0) 0 (env.classes.forM (staticInit (knot env depth) env)) := by
      refine steady_forM fun c mem => steady_forM fun f own => ?_
      split
      · next e init =>
          have : Steady W (Stacks.empty.pushTarget tail.unwind 0) 0 (expr (knot env depth) env e) :=
            steady_expr table (statics c (table ▸ mem) f (List.mem_of_mem_filter own) e init)
          infer_instance
      · infer_instance
    have : Steady W (Stacks.empty.pushTarget tail.unwind 0) 0 (stmts (knot env depth) env items) :=
      steady_stmts table top
    exact (Steady.moves (k := 0)).points
  split
  · exact Visits.bind (Steady.moves (k := 0)) fun _ => inner { env with retLabel := tail.ret } table
  · exact inner { env with retLabel := tail.ret } table

theorem safe_routines (seed : Int64) {items : List Stmt} (funcs : ∀ f, .func f ∈ items → W.good (.stmt f.body))
    (methods : ∀ c ∈ t, ∀ m ∈ c.methods, W.good (.stmt m.body)) (ctors : ∀ c ∈ t, ∀ k ∈ c.ctors, W.good (.stmt k.body))
    (statics : ∀ c ∈ t, ∀ f ∈ c.fields, ∀ e ∈ f.init, W.good (.expr e))
    (top : ∀ s ∈ items.filter (!·.isDecl), W.good (.stmt s)) : Safe W (routines depth env seed items) := by
  unfold routines
  refine .bind (safe_funcRoutines table depth funcs) fun fs => .bind (.mapM fun c mem => ?_) fun cs =>
    .bind (safe_mainRoutine table depth seed statics top) fun m => .pure _
  exact safe_classRoutines table depth (methods c (table ▸ mem)) (ctors c (table ▸ mem))

end Stacked

/-- What is watched holds at all points of a run if it holds of the bodies of all routines, of the initial values of
    static fields and of the top-level statements. -/
theorem Inference.fine_pointsAt (t : Inference) (W : Stacked.Watch t.classes) (depth : Nat) (hints : Hints)
    (seed : Int64)
    (funcs : ∀ f, .func f ∈ t.program.items → W.good (.stmt f.body))
    (methods : ∀ c ∈ t.classes, ∀ m ∈ c.methods, W.good (.stmt m.body))
    (ctors : ∀ c ∈ t.classes, ∀ k ∈ c.ctors, W.good (.stmt k.body))
    (statics : ∀ c ∈ t.classes, ∀ f ∈ c.fields, ∀ e ∈ f.init, W.good (.expr e))
    (top : ∀ s ∈ t.topLevel, W.good (.stmt s)) : ∀ p ∈ t.pointsAt depth hints seed, p.Fine W := by
  have table : (t.env hints).classes = t.classes := rfl
  have safe : Stacked.Safe W (Stacked.routines depth (t.env hints) seed t.program.items) :=
    Stacked.safe_routines table depth seed funcs methods ctors statics top
  have all : ∀ p ∈ (Stacked.reached (t.runAt depth hints seed)).points, p.Fine W :=
    safe .empty ⟨t.start hints, .empty, []⟩ rfl (List.forall_mem_nil _)
  unfold pointsAt
  split
  · next run => exact fun p mem => all p (run ▸ mem)
  · next run => exact fun p mem => all p (run ▸ mem)

end Lantern
