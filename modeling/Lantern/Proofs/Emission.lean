import Mathlib
import Lantern.Emit

/-!
# What generating code does to the generator

Every step of code generation only adds: instructions at the end of the code, strings at the end of
the pool, numbers of labels. `Lays` reads the steps of the generator off the finished text of a
routine, so that what is said about running code need not look at the generator again.
-/

namespace Lantern

theorem mem_addNew {names : List String} {name other : String} :
    other ∈ addNew names name ↔ other ∈ names ∨ other = name := by
  unfold addNew
  split
  · next present =>
      have present : name ∈ names := by simpa using present
      refine ⟨.inl, ?_⟩
      rintro (h | rfl)
      · exact h
      · exact present
  · simp

theorem mem_foldl_addNew {names others : List String} {name : String} :
    name ∈ others.foldl addNew names ↔ name ∈ names ∨ name ∈ others := by
  induction others generalizing names with
  | nil => simp
  | cons other others ih => simp [ih, mem_addNew, or_assoc]

theorem nodup_addNew {names : List String} (distinct : names.Nodup) (name : String) : (addNew names name).Nodup := by
  unfold addNew
  split
  · exact distinct
  · next absent =>
      have absent : name ∉ names := by simpa using absent
      exact List.nodup_append.mpr ⟨distinct, List.nodup_singleton name, fun x mem y last same =>
        absent (List.mem_singleton.mp last ▸ same ▸ mem)⟩

theorem nodup_foldl_addNew {names : List String} (distinct : names.Nodup) (others : List String) :
    (others.foldl addNew names).Nodup := by
  induction others generalizing names with
  | nil => exact distinct
  | cons name others ih => exact ih (nodup_addNew distinct name)

theorem prefix_addNew (names : List String) (name : String) : names <+: addNew names name := by
  unfold addNew
  split
  · exact List.prefix_rfl
  · exact List.prefix_append _ _

theorem prefix_foldl_addNew (names others : List String) : names <+: others.foldl addNew names := by
  induction others generalizing names with
  | nil => exact List.prefix_rfl
  | cons name others ih => exact (prefix_addNew names name).trans (ih (addNew names name))

theorem foldl_addNew_eq {names others : List String} (known : ∀ x ∈ others, x ∈ names) :
    others.foldl addNew names = names := by
  induction others with
  | nil => rfl
  | cons name others ih =>
      obtain ⟨own, others⟩ := List.forall_mem_cons.mp known
      have same : addNew names name = names := by simp [addNew, own]
      rw [List.foldl_cons, same]
      exact ih others

namespace Emit

open Assembly

/-- The first state of the generator may come before the second. -/
structure Gen.Before (g g' : Gen) : Prop where
  /-- Code is only added to. -/
  code : g.code.toList <+: g'.code.toList
  /-- So is the pool. -/
  pool : g.pool <+: g'.pool
  /-- Labels are not made again. -/
  labels : g.labels ≤ g'.labels
  /-- Routines called stay called. -/
  externs : g.externs ⊆ g'.externs

namespace Gen

@[refl] theorem Before.refl (g : Gen) : g.Before g :=
  ⟨List.prefix_rfl, List.prefix_rfl, le_rfl, List.Subset.refl _⟩

theorem Before.trans {g g' g'' : Gen} (first : g.Before g') (second : g'.Before g'') :
    g.Before g'' :=
  ⟨first.code.trans second.code, first.pool.trans second.pool, first.labels.trans second.labels,
    List.Subset.trans first.externs second.externs⟩

theorem Before.size {g g' : Gen} (before : g.Before g') : g.code.size ≤ g'.code.size := by
  simpa using before.code.length_le

/-- With one more instruction. -/
def push (g : Gen) (op : Op) (args : List Operand) : Gen :=
  { g with code := g.code.push ⟨op, args, ""⟩ }

/-- With one more label. -/
def bump (g : Gen) : Gen := { g with labels := g.labels + 1 }

/-- With one more temporary. -/
def lift (g : Gen) : Gen :=
  { g with temps := g.temps + 1, maxTemps := max g.maxTemps (g.temps + 1) }

/-- With fewer temporaries. -/
def drop (g : Gen) (n : Nat) : Gen := { g with temps := g.temps - n }

/-- With a string in the pool. -/
def pooled (g : Gen) (s : String) : Gen := { g with pool := addNew g.pool s }

variable (g : Gen)

@[simp] theorem size_push (op : Op) (args : List Operand) :
    (g.push op args).code.size = g.code.size + 1 := Array.size_push _
@[simp, grind =] theorem temps_push (op : Op) (args : List Operand) : (g.push op args).temps = g.temps := rfl
@[simp, grind =] theorem labels_push (op : Op) (args : List Operand) :
    (g.push op args).labels = g.labels := rfl
@[simp] theorem pool_push (op : Op) (args : List Operand) : (g.push op args).pool = g.pool := rfl
@[simp] theorem code_bump : g.bump.code = g.code := rfl
@[simp, grind =] theorem temps_bump : g.bump.temps = g.temps := rfl
@[simp, grind =] theorem labels_bump : g.bump.labels = g.labels + 1 := rfl
@[simp] theorem pool_bump : g.bump.pool = g.pool := rfl
@[simp] theorem code_lift : g.lift.code = g.code := rfl
@[simp, grind =] theorem temps_lift : g.lift.temps = g.temps + 1 := rfl
@[simp, grind =] theorem labels_lift : g.lift.labels = g.labels := rfl
@[simp] theorem pool_lift : g.lift.pool = g.pool := rfl
@[simp] theorem code_drop (n : Nat) : (g.drop n).code = g.code := rfl
@[simp, grind =] theorem temps_drop (n : Nat) : (g.drop n).temps = g.temps - n := rfl
@[simp, grind =] theorem labels_drop (n : Nat) : (g.drop n).labels = g.labels := rfl
@[simp] theorem pool_drop (n : Nat) : (g.drop n).pool = g.pool := rfl
@[simp] theorem code_pooled (s : String) : (g.pooled s).code = g.code := rfl
@[simp, grind =] theorem temps_pooled (s : String) : (g.pooled s).temps = g.temps := rfl
@[simp, grind =] theorem labels_pooled (s : String) : (g.pooled s).labels = g.labels := rfl

theorem before_push (op : Op) (args : List Operand) : g.Before (g.push op args) :=
  ⟨by simp [push], List.prefix_rfl, le_rfl, List.Subset.refl _⟩

theorem before_bump : g.Before g.bump :=
  ⟨List.prefix_rfl, List.prefix_rfl, Nat.le_succ _, List.Subset.refl _⟩

theorem before_pooled (s : String) : g.Before (g.pooled s) :=
  ⟨List.prefix_rfl, prefix_addNew g.pool s, le_rfl, List.Subset.refl _⟩

end Gen

/-! ## Steps that only add -/

/-- A step of code generation only adds to what is there. -/
class Grows {α : Type} (x : Emitting α) : Prop where
  grow : ∀ g : Gen, g.Before (x.run g).2

section Grows

variable {α β : Type}

instance (a : α) : Grows (pure a : Emitting α) := ⟨fun g => .refl g⟩

instance (x : Emitting α) (f : α → Emitting β) [first : Grows x] [rest : ∀ a, Grows (f a)] :
    Grows (x >>= f) :=
  ⟨fun g => (first.grow g).trans ((rest _).grow _)⟩

-- Found before the instance above, which would look at the rest of a block once for each step.
instance (priority := 2000) (x : Emitting α) (y : Emitting β) [first : Grows x] [rest : Grows y] :
    Grows (x >>= fun _ => y) :=
  ⟨fun g => (first.grow g).trans (rest.grow _)⟩

instance (c : Prop) [Decidable c] (x y : Emitting α) [Grows x] [Grows y] :
    Grows (if c then x else y) := by
  split <;> infer_instance

instance (op : Op) (args : List Operand) : Grows (emit op args) := ⟨fun g => g.before_push op args⟩
instance (l : String) : Grows (place l) := inferInstanceAs (Grows (emit _ _))
instance (op : Op) (l : String) : Grows (jump op l) := inferInstanceAs (Grows (emit _ _))
instance : Grows testResult := inferInstanceAs (Grows (emit _ _))
instance : Grows zero := inferInstanceAs (Grows (emit _ _))
instance (base : String) : Grows (newLabel base) := ⟨fun g => g.before_bump⟩
instance (s : String) : Grows (str s) := ⟨fun g => g.before_pooled s⟩
instance (at_ : Span) (message : String) : Grows (warn at_ message) :=
  ⟨fun _ => ⟨List.prefix_rfl, List.prefix_rfl, le_rfl, List.Subset.refl _⟩⟩
instance (env : Env) : Grows (pushTemp env) :=
  ⟨fun _ => ⟨List.prefix_rfl, List.prefix_rfl, le_rfl, List.Subset.refl _⟩⟩
instance (n : Nat) : Grows (popTemps n) :=
  ⟨fun _ => ⟨List.prefix_rfl, List.prefix_rfl, le_rfl, List.Subset.refl _⟩⟩
instance (env : Env) : Grows (spill env) := by unfold spill; infer_instance

instance (i : Nat) (args : List Operand) : Grows (setArgsFrom i args) := by
  induction args generalizing i with
  | nil => unfold setArgsFrom; infer_instance
  | cons a rest ih => unfold setArgsFrom; infer_instance

instance (args : List Operand) : Grows (setArgs args) := by
  refine ⟨fun g => ?_⟩
  have before := Grows.grow (x := setArgsFrom 0 args) g
  exact ⟨before.code, before.pool, before.labels, before.externs⟩

end Grows

/-! ## Steps read off the finished text -/

/-- The finished text of a routine. -/
structure Text where
  /-- Its instructions. -/
  code : List Instr
  /-- The pool its addresses refer to. -/
  pool : List String

/-- The instructions between two states of the generator stand in the code. -/
def Gen.Lies (code : List Instr) (g g' : Gen) : Prop :=
  ∀ i, g.code.size ≤ i → i < g'.code.size → code[i]? = g'.code[i]?

/-- A step of the generator that the finished text shows. -/
structure Lays {α : Type} (T : Text) (x : Emitting α) (g : Gen) (a : α) (g' : Gen) : Prop where
  /-- The step itself. -/
  run : x.run g = (a, g')
  /-- Its instructions stand where the generator put them. -/
  code : Gen.Lies T.code g g'
  /-- Its strings stand where the generator put them. -/
  pool : g.pool <+: T.pool → g'.pool <+: T.pool

namespace Gen

variable {code : List Instr} {g g' g'' : Gen}

theorem Before.getElem? (before : g.Before g') {i : Nat} (inside : i < g.code.size) :
    g'.code[i]? = g.code[i]? := by
  obtain ⟨added, whole⟩ := before.code
  rw [← Array.getElem?_toList, ← Array.getElem?_toList, ← whole]
  exact List.getElem?_append_left (by simpa using inside)

theorem lies_trans (first : g.Before g') (second : g'.Before g'') :
    Lies code g g'' ↔ Lies code g g' ∧ Lies code g' g'' := by
  constructor
  · intro lies
    constructor
    · intro i low high
      rw [lies i low (high.trans_le second.size), second.getElem? high]
    · intro i low high
      exact lies i (first.size.trans low) high
  · rintro ⟨one, two⟩ i low high
    rcases Nat.lt_or_ge i g'.code.size with inside | outside
    · rw [one i low inside, second.getElem? inside]
    · exact two i outside high

theorem lies_push {op : Op} {args : List Operand} :
    Lies code g (g.push op args) ↔ code[g.code.size]? = some ⟨op, args, ""⟩ := by
  constructor
  · intro lies
    simpa [push] using lies g.code.size le_rfl (by simp)
  · intro stands i low high
    have same : i = g.code.size := by simp at high; omega
    simp [same, stands, push]

theorem lies_of_size (same : g'.code = g.code) : Lies code g g' := by
  intro i low high
  rw [same] at high
  omega

end Gen

section Lays

variable {T : Text} {α β : Type} {g g' : Gen}

theorem lays_pure {a b : α} : Lays T (pure a) g b g' ↔ a = b ∧ g = g' := by
  constructor
  · intro lays
    exact Prod.mk.inj lays.run
  · rintro ⟨rfl, rfl⟩
    exact ⟨rfl, Gen.lies_of_size rfl, id⟩

theorem lays_bind {x : Emitting α} {f : α → Emitting β} {b : β} [first : Grows x]
    [rest : ∀ a, Grows (f a)] :
    Lays T (x >>= f) g b g' ↔ ∃ a mid, Lays T x g a mid ∧ Lays T (f a) mid b g' := by
  constructor
  · rintro ⟨run, code, pool⟩
    have one := first.grow g
    have two := (rest (x.run g).1).grow (x.run g).2
    have ends : (f (x.run g).1).run (x.run g).2 = (b, g') := run
    rw [ends] at two
    obtain ⟨left, right⟩ := (Gen.lies_trans one two).mp code
    exact ⟨_, _, ⟨rfl, left, fun h => two.pool.trans (pool h)⟩,
      ⟨ends, right, fun h => pool (one.pool.trans h)⟩⟩
  · rintro ⟨a, mid, ⟨run, code, pool⟩, ⟨run', code', pool'⟩⟩
    have one : g.Before mid := by simpa [run] using first.grow g
    have two : mid.Before g' := by simpa [run'] using (rest a).grow mid
    refine ⟨?_, (Gen.lies_trans one two).mpr ⟨code, code'⟩, fun h => pool' (pool h)⟩
    show (f (x.run g).1).run (x.run g).2 = (b, g')
    rw [run]
    exact run'

theorem lays_emit {op : Op} {args : List Operand} {u : Unit} :
    Lays T (emit op args) g u g' ↔
      T.code[g.code.size]? = some ⟨op, args, ""⟩ ∧ g' = g.push op args := by
  constructor
  · rintro ⟨run, code, -⟩
    obtain rfl : g.push op args = g' := congrArg Prod.snd run
    exact ⟨Gen.lies_push.mp code, rfl⟩
  · rintro ⟨stands, rfl⟩
    exact ⟨rfl, Gen.lies_push.mpr stands, id⟩

/-- A step that adds neither instructions nor strings. -/
theorem lays_quiet {x : Emitting α} {a b : α} {h : Gen} (run : x.run g = (b, h))
    (code : h.code = g.code) (pool : h.pool = g.pool) : Lays T x g a g' ↔ a = b ∧ g' = h := by
  constructor
  · intro lays
    have same := lays.run.symm.trans run
    exact ⟨congrArg Prod.fst same, congrArg Prod.snd same⟩
  · rintro ⟨rfl, rfl⟩
    exact ⟨run, Gen.lies_of_size code, fun inside => pool ▸ inside⟩

/-- The name of a label. -/
def tag (base : String) (n : Nat) : String := "L" ++ base ++ toString n

/-- What the smallest steps show. -/
theorem layout (T : Text) :
    (∀ l g u g', Lays T (place l) g u g' ↔
      T.code[g.code.size]? = some ⟨.label, [.label l], ""⟩ ∧ g' = g.push .label [.label l]) ∧
    (∀ op l g u g', Lays T (jump op l) g u g' ↔
      T.code[g.code.size]? = some ⟨op, [.label l], ""⟩ ∧ g' = g.push op [.label l]) ∧
    (∀ g u g', Lays T testResult g u g' ↔
      T.code[g.code.size]? = some ⟨.test, [rax, rax], ""⟩ ∧ g' = g.push .test [rax, rax]) ∧
    (∀ g u g', Lays T zero g u g' ↔
      T.code[g.code.size]? = some ⟨.xor, [eax, eax], ""⟩ ∧ g' = g.push .xor [eax, eax]) ∧
    (∀ base g l g', Lays T (newLabel base) g l g' ↔ l = tag base g.labels ∧ g' = g.bump) ∧
    (∀ env g t g', Lays T (pushTemp env) g t g' ↔
      t = .slot (env.locals.length + 1 + g.temps) ∧ g' = g.lift) ∧
    (∀ n g u g', Lays T (popTemps n) g u g' ↔ g' = g.drop n) ∧
    (∀ env g t g', Lays T (spill env) g t g' ↔ t = .slot (env.locals.length + 1 + g.temps) ∧
      T.code[g.code.size]? = some ⟨.mov, [t, rax], ""⟩ ∧ g' = g.lift.push .mov [t, rax]) := by
  have temp (env : Env) (g : Gen) (t : Operand) (g' : Gen) : Lays T (pushTemp env) g t g' ↔
      t = .slot (env.locals.length + 1 + g.temps) ∧ g' = g.lift := lays_quiet rfl rfl rfl
  refine ⟨fun _ _ _ _ => lays_emit, fun _ _ _ _ _ => lays_emit, fun _ _ _ => lays_emit,
    fun _ _ _ => lays_emit, fun _ _ _ _ => lays_quiet rfl rfl rfl, temp, fun n g u g' => ?_,
    fun env g t g' => ?_⟩
  · have dropped : (popTemps n).run g = ((), g.drop n) := rfl
    have quiet : Lays T (popTemps n) g u g' ↔ u = () ∧ g' = g.drop n := lays_quiet dropped rfl rfl
    simpa using quiet
  · simp only [spill, lays_bind, temp, lays_emit, lays_pure, exists_and_left, exists_eq_left,
      and_assoc]
    constructor
    · rintro ⟨stands, rfl, -, rfl⟩
      exact ⟨rfl, stands, rfl⟩
    · rintro ⟨rfl, stands, rfl⟩
      exact ⟨stands, rfl, (), rfl⟩

theorem lays_str {s : String} {o : Operand} : Lays T (str s) g o g' ↔
    o = .addr (poolLabel (g.pool.idxOf s)) ∧ g' = g.pooled s ∧
      (g.pool <+: T.pool → (g.pooled s).pool <+: T.pool) := by
  constructor
  · rintro ⟨run, -, pool⟩
    obtain rfl : g.pooled s = g' := congrArg Prod.snd run
    exact ⟨(congrArg Prod.fst run).symm, rfl, pool⟩
  · rintro ⟨rfl, rfl, pool⟩
    exact ⟨rfl, Gen.lies_of_size rfl, pool⟩

/-- The results of steps that have but one result, and states that are given, need no name. -/
theorem shown :
    (∀ p : Unit → Prop, (∃ u, p u) ↔ p ()) ∧
    (∀ (p : Prop) (q : Gen → Prop), (∃ h, p ∧ q h) ↔ p ∧ ∃ h, q h) ∧
    (∀ (h : Gen) (p : Gen → Prop), (∃ h', h' = h ∧ p h') ↔ p h) ∧
    (∀ (o : Operand) (p : Operand → Prop), (∃ o', o' = o ∧ p o') ↔ p o) ∧
    (∀ (l : String) (p : String → Prop), (∃ l', l' = l ∧ p l') ↔ p l) ∧
    (∀ p q r : Prop, (p ∧ q) ∧ r ↔ p ∧ q ∧ r) := by
  refine ⟨fun p => ?_, ?_, ?_, ?_, ?_, fun _ _ _ => and_assoc⟩
  · exact ⟨fun ⟨_, h⟩ => h, fun h => ⟨(), h⟩⟩
  all_goals simp

/-- A step of the generator as its own text shows it. -/
theorem Lays.own {x : Emitting α} (g : Gen) :
    Lays ⟨(x.run g).2.code.toList, (x.run g).2.pool⟩ x g (x.run g).1 (x.run g).2 :=
  ⟨rfl, fun i _ _ => by simp, fun _ => List.prefix_rfl⟩

theorem Lays.before {x : Emitting α} {a : α} [grows : Grows x] (lays : Lays T x g a g') :
    g.Before g' := by
  simpa [lays.run] using grows.grow g

end Lays

/-! ## What a statement generates -/

/-- The last block of a guarded statement. -/
def lastBlock? (env : Env) (last : Option Stmt) : Option LastBlock :=
  last.map fun l => ⟨fun loops => stmt { env with loops := loops } l⟩

/-- A statement that may be missing. -/
def stmt? (env : Env) : Option Stmt → Emitting Unit
  | some s => stmt env s
  | none => pure ()

/-- Leaves the loop for a label when its condition fails. -/
def loopTest (env : Env) (endL : String) : Option Expr → Emitting Unit
  | some c => do
    expr env c
    testResult
    jump .jz endL
  | none => pure ()

/-- Jumps to a label unless something is known. -/
def jumpUnless (known : Bool) (label : String) : Emitting Unit :=
  if !known then jump .jmp label else pure ()

/-- Compares the value of a clause, in `rax`, with the subject. -/
def compareValue (strSubject : Bool) (subject : Operand) (v : Expr) : Emitting Unit :=
  if strSubject && v.sigil.isStr then do
    call "strcmp" [subject, rax]
    emit .test [eax, eax]
  else emit .cmp [rax, subject]

/-- The statements of a clause. -/
def clauseBody : Clause → List Stmt
  | .case_ _ _ body | .default_ _ body => body

section Equations

variable (env : Env) (s : Span)

theorem stmt_ifElse (c : Expr) (a : Stmt) (b : Option Stmt) : stmt env (.ifElse s c a b) = (do
    let elseL ← newLabel "else"
    let endL ← newLabel "endif"
    expr env c
    testResult
    jump .jz elseL
    stmt env a
    jump .jmp endL
    place elseL
    stmt? env b
    place endL) := by
  cases b <;> rfl

theorem stmt_while (c : Expr) (body : Stmt) : stmt env (.while_ s c body) = (do
    let loop ← newLabel "loop"
    let next ← newLabel "cont"
    let endL ← newLabel "endloop"
    place loop
    place next
    expr env c
    testResult
    jump .jz endL
    stmt (env.inFrame endL next false) body
    jump .jmp loop
    place endL) := rfl

theorem stmt_doWhile (c : Expr) (body : Stmt) : stmt env (.doWhile s body c) = (do
    let loop ← newLabel "doloop"
    let next ← newLabel "docont"
    let endL ← newLabel "doend"
    place loop
    stmt (env.inFrame endL next false) body
    place next
    expr env c
    testResult
    jump .jnz loop
    place endL) := rfl

theorem stmt_for (init : Option Stmt) (cond : Option Expr) (post : Option Stmt) (body : Stmt) :
    stmt env (.for_ s init cond post body) = (do
    let loop ← newLabel "forloop"
    let next ← newLabel "forcont"
    let endL ← newLabel "forend"
    stmt? env init
    place loop
    loopTest env endL cond
    stmt (env.inFrame endL next false) body
    place next
    stmt? env post
    jump .jmp loop
    place endL) := by
  cases init <;> cases cond <;> cases post <;> rfl

theorem stmt_switch (e : Expr) (cs : List Clause) : stmt env (.switch s e cs) = (do
    let endL ← newLabel "switchend"
    expr env e
    let subject ← spill env
    let labels ← compareClauses env e.sigil.isStr subject cs
    jump .jmp ((defaultLabel? cs labels).getD endL)
    clauseBodies (env.inFrame endL "" true) cs labels
    place endL
    popTemps 1) := rfl

theorem stmt_try (body : Stmt) (cs : List Catch) (last : Option Stmt) :
    stmt env (.try_ s body cs last) = (do
    let catchL ← newLabel "catch"
    let catchExit ← newLabel "catchexit"
    let rethrow ← newLabel "rethrow"
    let lastL ← newLabel "finally"
    let endL ← newLabel "endtry"
    let exc ← pushTemp env
    stmt (env.guarded catchL (lastBlock? env last)) body
    jump .jmp lastL
    place catchL
    emit .mov [exc, rdx]
    let caughtAll ← handlers (env.guarded catchExit (lastBlock? env last)) exc lastL cs
    jumpUnless caughtAll rethrow
    place catchExit
    emit .mov [exc, rdx]
    place rethrow
    stmt? env last
    emit .mov [rdx, exc]
    raise env
    place lastL
    stmt? env last
    place endL
    popTemps 1) := by
  cases last <;>
    refine bind_congr fun _ => bind_congr fun _ => bind_congr fun _ => bind_congr fun _ =>
      bind_congr fun _ => bind_congr fun _ => bind_congr fun _ => bind_congr fun _ =>
      bind_congr fun _ => bind_congr fun _ => bind_congr fun caughtAll => ?_ <;>
    cases caughtAll <;> rfl

theorem compareClauses_case (strSubject : Bool) (subject : Operand) (v : Expr) (body : List Stmt)
    (cs : List Clause) : compareClauses env strSubject subject (.case_ s v body :: cs) = (do
    let l ← newLabel "case"
    expr env v
    compareValue strSubject subject v
    jump .jz l
    let ls ← compareClauses env strSubject subject cs
    return l :: ls) := by
  conv => lhs; unfold compareClauses
  unfold compareValue
  split <;> simp

theorem clauseBodies_cons (c : Clause) (cs : List Clause) (l : String) (ls : List String) :
    clauseBodies env (c :: cs) (l :: ls) = (do
    place l
    stmts env (clauseBody c)
    clauseBodies env cs ls) := by
  cases c <;> rfl

theorem handlers_cons (exc : Operand) (lastL : String) (c : Catch) (cs : List Catch) :
    handlers env exc lastL (c :: cs) = (do
    let next ← newLabel "nextcatch"
    testCatch exc c.type next
    emit .mov [rax, exc]
    store env c.span c.name
    stmt env c.body
    jump .jmp lastL
    place next
    if c.type.isEmpty then return true else handlers env exc lastL cs) := by
  cases c
  rfl

end Equations

end Emit

end Lantern
