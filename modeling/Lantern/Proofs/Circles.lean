import Lantern.Proofs.Fields
import Lantern.Proofs.Hierarchy
import Lantern.Proofs.Initials

/-!
# Objects in initial values

A new object runs the initial values of its class, and those may create objects in turn. If the classes do not create
each other in a circle there are no more levels of objects than classes, so what stands at the bottom of a bounded
number of levels is never come to, and the code of expressions is the only one that generates initial values in the way
of expressions.
-/

namespace Lantern

open Relation

/-! ## Creating objects in initial values -/

namespace ClassTable

variable {t : ClassTable} {C D : String}

/-- An initial value of an object of the one class creates an object of the other, a declared class. -/
def Creates (t : ClassTable) (C D : String) : Prop :=
  t.has D ∧ ∃ f ∈ t.flatFields C, ∃ e, f.init = some e ∧ D ∈ e.creates

/-- Initial values do not create each other in a circle. -/
def NoCircle (t : ClassTable) : Prop := ∀ C, ¬ TransGen t.Creates C C

/-- Initial values of the class create objects at most so many levels deep. -/
def Shallow (t : ClassTable) : Nat → String → Prop
  | 0, C => ∀ D, ¬ t.Creates C D
  | n + 1, C => ∀ D, t.Creates C D → t.Shallow n D

theorem isChain_of_not_shallow {n : Nat} (known : t.has C) (deep : ¬ t.Shallow n C) :
    ∃ l : List String, l.length = n + 2 ∧ l.head? = some C ∧ l.IsChain t.Creates ∧ ∀ D ∈ l, t.has D := by
  induction n generalizing C with
  | zero =>
      obtain ⟨D, creates⟩ : ∃ D, t.Creates C D := by simpa [Shallow] using deep
      exact ⟨[C, D], rfl, rfl, by simpa using creates, by simp [known, creates.1]⟩
  | succ n ih =>
      obtain ⟨D, creates, deep⟩ : ∃ D, t.Creates C D ∧ ¬ t.Shallow n D := by simpa [Shallow] using deep
      obtain ⟨l, length, head, chain, declared⟩ := ih creates.1 deep
      cases l with
      | nil => cases head
      | cons E l =>
          obtain rfl := Option.some.inj head
          exact ⟨C :: E :: l, by simpa using length, rfl, .cons_cons creates chain,
            List.forall_mem_cons.mpr ⟨known, declared⟩⟩

theorem nodup_of_isChain {l : List String} (free : t.NoCircle) (chain : l.IsChain t.Creates) : l.Nodup := by
  have : l.IsChain (TransGen t.Creates) := chain.imp fun _ _ => .single
  refine (List.isChain_iff_pairwise.mp this).imp fun {C D} path same => ?_
  subst same
  exact free C path

/-- There are no more levels than classes. -/
theorem NoCircle.shallow (free : t.NoCircle) (known : t.has C) : t.Shallow (t.length - 1) C := by
  by_contra deep
  obtain ⟨l, length, -, chain, declared⟩ := isChain_of_not_shallow known deep
  have le := length_le_of_known (nodup_of_isChain free chain) declared
  omega

theorem has_of_mem_flatFields {f : Field} (mem : f ∈ t.flatFields C) : t.has C :=
  has_iff.mpr (get?_of_mem_flatFields mem)

end ClassTable

/-! ## Code as a fixed point -/

namespace Emit

/-- Code of an expression in which initial values are generated like it, so many levels of objects down, and
    in any given way at the bottom. -/
def unfolded (bottom : Expr → Emitting Unit) (env : Env) : Nat → Expr → Emitting Unit
  | 0 => bottom
  | n + 1 => exprWith (unfolded bottom env n) env

theorem exprAt_eq_unfolded (env : Env) (n : Nat) : exprAt n env = unfolded (fun _ => pure ()) env (n + 1) := by
  induction n with
  | zero => rfl
  | succ n ih =>
      funext e
      rw [exprAt, ih]
      rfl

variable {env : Env} {bottom bottom' : Expr → Emitting Unit}

/-- Code depends on how initial values are generated only where objects of declared classes are created. -/
theorem exprWith_congr {initial initial' : Expr → Emitting Unit} {e : Expr}
    (same : ∀ cls ∈ e.creates, env.classes.has cls → SameFor env.classes initial initial' cls) :
    exprWith initial env e = exprWith initial' env e :=
  exprWith_under e ⟨rfl, fun _ _ => rfl⟩ fun cls mem f held =>
    same cls mem (ClassTable.has_of_mem_flatFields held) f held

/-- Initial values that create objects few levels deep are the same whatever is at the bottom. -/
theorem unfolded_initial {C : String} {k : Nat} (shallow : env.classes.Shallow k C) {n m : Nat} (deep : k < n)
    (deep' : k < m) : SameFor env.classes (unfolded bottom env n) (unfolded bottom' env m) C := by
  induction k generalizing C n m with
  | zero =>
      obtain ⟨n, rfl⟩ := Nat.exists_eq_succ_of_ne_zero deep.ne'
      obtain ⟨m, rfl⟩ := Nat.exists_eq_succ_of_ne_zero deep'.ne'
      intro f mem e init
      exact exprWith_congr fun D created known => absurd ⟨known, f, mem, e, init, created⟩ (shallow D)
  | succ k ih =>
      obtain ⟨n, rfl⟩ := Nat.exists_eq_succ_of_ne_zero (Nat.ne_of_gt (Nat.zero_lt_of_lt deep))
      obtain ⟨m, rfl⟩ := Nat.exists_eq_succ_of_ne_zero (Nat.ne_of_gt (Nat.zero_lt_of_lt deep'))
      intro f mem e init
      exact exprWith_congr fun D created known =>
        ih (shallow D ⟨known, f, mem, e, init, created⟩) (Nat.lt_of_succ_lt_succ deep) (Nat.lt_of_succ_lt_succ deep')

/-- Behind as many levels as there are classes, and one for the expression itself, nothing is left to the
    bottom. -/
theorem unfolded_eq (free : env.classes.NoCircle) {n m : Nat} (deep : env.classes.length < n)
    (deep' : env.classes.length < m) (e : Expr) : unfolded bottom env n e = unfolded bottom' env m e := by
  obtain ⟨n, rfl⟩ := Nat.exists_eq_succ_of_ne_zero (Nat.ne_of_gt (Nat.zero_lt_of_lt deep))
  obtain ⟨m, rfl⟩ := Nat.exists_eq_succ_of_ne_zero (Nat.ne_of_gt (Nat.zero_lt_of_lt deep'))
  refine exprWith_congr fun cls _ known => ?_
  have some_ : 0 < env.classes.length := by
    obtain ⟨c, mem, -⟩ := List.any_eq_true.mp known
    exact List.length_pos_of_mem mem
  exact unfolded_initial (free.shallow known) (by omega) (by omega)

theorem expr_eq_unfolded (free : env.classes.NoCircle) {n : Nat} (deep : env.classes.length < n) (e : Expr) :
    unfolded bottom env n e = expr env e := by
  rw [expr, exprAt_eq_unfolded]
  exact unfolded_eq free deep env.classes.length.lt_succ_self e

/-- The code of expressions is the one function that generates initial values in the way of expressions. -/
theorem eq_exprWith_iff (free : env.classes.NoCircle) {gen : Expr → Emitting Unit} :
    gen = exprWith gen env ↔ gen = expr env := by
  constructor
  · intro fixed
    have all (n : Nat) : unfolded gen env n = gen := by
      induction n with
      | zero => rfl
      | succ n ih => rw [unfolded, ih, ← fixed]
    funext e
    rw [← all (env.classes.length + 1)]
    exact expr_eq_unfolded free env.classes.length.lt_succ_self e
  · rintro rfl
    funext e
    have down : unfolded (expr env) env (env.classes.length + 1) = expr env :=
      funext (expr_eq_unfolded free env.classes.length.lt_succ_self)
    have further : unfolded (expr env) env (env.classes.length + 2) e = expr env e :=
      expr_eq_unfolded free (by omega) e
    rw [← further, unfolded, down]

end Emit

/-! ## Programs -/

mutual

theorem Expr.creates_erase (e : Expr) : e.erase.creates = e.creates := by
  cases e with
  | number | bool | str | ident | super | funcRef => rfl
  | binary i op l r | index i l r =>
      simp only [Expr.erase, Expr.creates, Expr.creates_erase l, Expr.creates_erase r]
  | unary i op e | member i e name | step i op first e => exact Expr.creates_erase e
  | ternary i c a b =>
      simp only [Expr.erase, Expr.creates, Expr.creates_erase c, Expr.creates_erase a, Expr.creates_erase b]
  | list i es | call i callee es => exact createdIn_erase es
  | map i es => exact createdInEntries_erase es
  | method i r name args => simp only [Expr.erase, Expr.creates, Expr.creates_erase r, createdIn_erase args]
  | new_ i cls args => exact congrArg (cls :: ·) (createdIn_erase args)

theorem createdIn_erase (es : List Expr) : createdIn (eraseExprs es) = createdIn es := by
  cases es with
  | nil => rfl
  | cons e es => simp only [eraseExprs, createdIn, Expr.creates_erase e, createdIn_erase es]

theorem createdInEntries_erase (es : List (Expr × Expr)) : createdInEntries (eraseEntries es) = createdInEntries es := by
  cases es with
  | nil => rfl
  | cons e es =>
      obtain ⟨k, v⟩ := e
      simp only [eraseEntries, createdInEntries, Expr.creates_erase k, Expr.creates_erase v, createdInEntries_erase es]

end

namespace ClassTable

theorem creates_erase (t : ClassTable) (C D : String) : Creates (t.map ClassDecl.erase) C D ↔ t.Creates C D := by
  simp only [Creates, has_erase, flatFields_erase]
  refine and_congr_right fun _ => ?_
  constructor
  · rintro ⟨f, mem, e, init, created⟩
    obtain ⟨g, held, rfl⟩ := List.mem_map.mp mem
    obtain ⟨k, given, rfl⟩ := Option.map_eq_some_iff.mp (show g.init.map Expr.erase = some e from init)
    exact ⟨g, held, k, given, k.creates_erase ▸ created⟩
  · rintro ⟨f, mem, e, init, created⟩
    exact ⟨f.erase, List.mem_map_of_mem mem, e.erase, congrArg (Option.map Expr.erase) init, e.creates_erase ▸ created⟩

theorem noCircle_erase (t : ClassTable) : NoCircle (t.map ClassDecl.erase) ↔ t.NoCircle := by
  have same : Creates (t.map ClassDecl.erase) = t.Creates := by
    funext C D
    exact propext (t.creates_erase C D)
  rw [NoCircle, same]
  rfl

theorem add_erase (t : ClassTable) (c : ClassDecl) :
    (t.add c).map ClassDecl.erase = add (t.map ClassDecl.erase) c.erase := by
  have called : c.erase.name = c.name := rfl
  unfold add
  rw [called, has_erase]
  split
  · rw [List.map_map, List.map_map]
    refine List.map_congr_left fun d _ => ?_
    show (if d.name == c.name then c else d).erase = if d.name == c.name then c.erase else d.erase
    split <;> rfl
  · rw [List.map_append]
    rfl

theorem ofItems_erase (items : List Stmt) : ofItems (eraseStmts items) = (ofItems items).map ClassDecl.erase := by
  have fold {step : ClassTable → Stmt → ClassTable}
      (commutes : ∀ (t : ClassTable) s, step (t.map ClassDecl.erase) s.erase = (step t s).map ClassDecl.erase)
      (t : ClassTable) :
      (eraseStmts items).foldl step (t.map ClassDecl.erase) = (items.foldl step t).map ClassDecl.erase := by
    induction items generalizing t with
    | nil => rfl
    | cons s items ih => rw [eraseStmts, List.foldl_cons, List.foldl_cons, commutes, ih]
  refine fold (fun t s => ?_) []
  cases s with
  | class_ c => rw [Stmt.erase_class]; exact (add_erase t c).symm
  | func f => rw [Stmt.erase_func]
  | ifElse => rw [Stmt.erase_ifElse]
  | for_ => rw [Stmt.erase_for]
  | try_ => rw [Stmt.erase_try]
  | _ => rfl

end ClassTable

theorem Program.noCircle_infer (p : Program) (hints : Hints) :
    (p.infer hints).classes.NoCircle ↔ (ClassTable.ofItems p.items).NoCircle := by
  show (ClassTable.ofItems (p.infer hints).program.items).NoCircle ↔ _
  rw [← ClassTable.noCircle_erase, ← ClassTable.ofItems_erase, Program.erase_infer, ClassTable.ofItems_erase,
    ClassTable.noCircle_erase]

/-- Initial values do not create each other in a circle if each creates only objects of lower classes. -/
theorem ClassTable.noCircle_of_rank {t : ClassTable} (rank : String → Nat)
    (lower : ∀ c ∈ t, ∀ f ∈ t.flatFields c.name, ∀ e ∈ f.init.toList, ∀ D ∈ e.creates, rank D < rank c.name) :
    t.NoCircle := by
  have step {C D : String} (creates : t.Creates C D) : rank D < rank C := by
    obtain ⟨-, f, mem, e, init, created⟩ := creates
    obtain ⟨c, known⟩ := get?_of_mem_flatFields mem
    obtain rfl := name_of_get? known
    exact lower c (mem_of_get? known) f mem e (Option.mem_toList.mpr init) D created
  have down {C D : String} (path : TransGen t.Creates C D) : rank D < rank C := by
    induction path with
    | single creates => exact step creates
    | tail _ creates ih => exact (step creates).trans ih
  exact fun C path => (down path).false

end Lantern
