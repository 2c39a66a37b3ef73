import Lantern.Infer
import Lantern.Proofs.Routines

/-!
# Integer expressions

The value of an expression on words said once more without a run-time library: variables are a store,
and a division without a result ends the computation. The code of such an expression, run by itself,
ends with that value in `rax` and that store in the frame and the data section, or stops at the
division that has no result.
-/

namespace Lantern.Meaning

open Assembly Machine
open Emit (Text Gen Env Emitting Lays)

/-- Whether an expression is built from constants, variables with the given names, operators and
    steps. -/
def isArithmetic (known : String → Bool) : Expr → Bool
  | .number .. | .bool .. => true
  | .ident _ name => known name
  | .binary _ _ l r => isArithmetic known l && isArithmetic known r
  | .unary _ _ e => isArithmetic known e
  | .ternary _ c a b => isArithmetic known c && isArithmetic known a && isArithmetic known b
  | .step _ _ _ (.ident _ name) => known name
  | _ => false

/-- The variables of a program as words. -/
abbrev Store := String → Word

/-- The value of an expression from left to right and the store behind it; none where a division has
    no result. -/
def value : Expr → StateT Store Option Word
  | .number _ v => return v
  | .bool _ v => return truth v
  | .ident _ name => return (← get) name
  | .binary _ op l r => do
    let a ← value l
    match op with
    | .and => if a = 0 then return 0 else return truth ((← value r) != 0)
    | .or => if a = 0 then return truth ((← value r) != 0) else return 1
    | op => do StateT.lift (operate op a (← value r))
  | .unary _ op e => do
    let v ← value e
    match op with
    | .neg => return -v
    | .not => return truth (v == 0)
  | .ternary _ c a b => do
    if (← value c) = 0 then value b else value a
  | .step _ op first (.ident _ name) => do
    let v := (← get) name
    modify fun σ => Function.update σ name (stepped op v)
    return if first then stepped op v else v
  | _ => failure

/-! ## Sigils -/

section

variable {ctx : Infer.Context} {fs : Infer.Facts} {known : String → Bool}

/-- An expression on words is no string. -/
theorem infer_isStr (words : ∀ name, known name = true → (Infer.identSigil ctx fs name).isStr = false)
    {e : Expr} (arithmetic : isArithmetic known e = true) :
    (Infer.expr ctx fs e).sigil.isStr = false := by
  fun_induction isArithmetic known e with
  | case1 i v => rfl
  | case2 i v => rfl
  | case3 i name => exact words name arithmetic
  | case4 i op l r ihl ihr =>
      simp only [Bool.and_eq_true] at arithmetic
      show (Infer.binarySigil op (Infer.expr ctx fs l).sigil (Infer.expr ctx fs r).sigil).isStr = false
      rw [Infer.binarySigil, ihl arithmetic.1]
      cases op.isLogical <;> simp [Sigil.isStr]
  | case5 i op e ih =>
      show (if op == .not then Sigil.bool else .int).isStr = false
      split <;> rfl
  | case6 i c a b ihc iha ihb =>
      simp only [Bool.and_eq_true] at arithmetic
      show (if (Infer.expr ctx fs a).sigil == (Infer.expr ctx fs b).sigil then
        (Infer.expr ctx fs a).sigil else .int).isStr = false
      split
      · exact iha arithmetic.1.2
      · rfl
  | case7 => rfl
  | case8 => cases arithmetic

variable (ctx fs) in
/-- Inference keeps the form of an expression. -/
theorem isArithmetic_infer {e : Expr} (arithmetic : isArithmetic known e = true) :
    isArithmetic known (Infer.expr ctx fs e) = true := by
  fun_induction isArithmetic known e with
  | case1 | case2 => rfl
  | case3 | case7 => exact arithmetic
  | case4 i op l r ihl ihr =>
      simp only [Bool.and_eq_true] at arithmetic
      simp [Infer.expr, isArithmetic, ihl arithmetic.1, ihr arithmetic.2]
  | case5 i op e ih => exact ih arithmetic
  | case6 i c a b ihc iha ihb =>
      simp only [Bool.and_eq_true] at arithmetic
      simp [Infer.expr, isArithmetic, ihc arithmetic.1.1, iha arithmetic.1.2, ihb arithmetic.2]
  | case8 => cases arithmetic

end

/-! ## Values -/

section

variable {W : Type} (sc : Scope W)

/-- The variables that a routine sees. -/
def State.seen (st : State W) : Store := fun name =>
  if name ∈ sc.locals then st.locals name else st.globals name

theorem seen_stored (st : State W) (name : String) (v : Word) :
    (stored sc name v st).seen sc = Function.update (st.seen sc) name v := by
  funext other
  by_cases same : other = name
  · subst same
    by_cases mem : other ∈ sc.locals <;> simp [State.seen, stored, mem]
  · by_cases mem : name ∈ sc.locals <;>
      simp [State.seen, stored, mem, Function.update_of_ne same]

/-- A computation gives what a computation on the store gives, and traps where that has no result. -/
def Agrees (x : StateT Store Option Word) (act : Act W Word) : Prop :=
  ∀ st : State W, match x.run (st.seen sc) with
    | some (v, σ) => ∃ st', act.from st = (.ok v, st') ∧ st'.seen sc = σ
    | none => ∃ st', act.from st = (.error .trap, st')

variable {sc}

theorem agrees_pure (v : Word) : Agrees sc (pure v) (pure v) := fun st => ⟨st, rfl, rfl⟩

theorem Agrees.bind {x : StateT Store Option Word} {act : Act W Word}
    {k : Word → StateT Store Option Word} {f : Word → Act W Word} (first : Agrees sc x act)
    (rest : ∀ v, Agrees sc (k v) (f v)) : Agrees sc (x >>= k) (act >>= f) := by
  intro st
  have one := first st
  rw [StateT.run_bind]
  cases ends : x.run (st.seen sc) with
  | none =>
      simp only [ends] at one
      obtain ⟨st', left⟩ := one
      exact ⟨st', by rw [Refines.from_bind, left]⟩
  | some result =>
      obtain ⟨v, σ⟩ := result
      simp only [ends] at one
      obtain ⟨st', done, rfl⟩ := one
      have two := rest v st'
      rw [Refines.from_bind, done]
      exact two

theorem agrees_operate (op : BinaryOp) (a b : Word) :
    Agrees sc (StateT.lift (operate op a b)) (combine sc op false a b) := by
  have plain : combine sc op false a b = (operate op a b).elim (throw .trap) pure := by
    cases op <;> simp only [combine] <;> cases operate _ a b <;> rfl
  rw [plain]
  cases operate op a b with
  | none => exact fun st => ⟨st, rfl⟩
  | some v => exact agrees_pure v

/-- What an expression on words means is its value. -/
theorem agrees_value {ctx : Infer.Context} {fs : Infer.Facts} {known : String → Bool}
    (words : ∀ name, known name = true → (Infer.identSigil ctx fs name).isStr = false) {e : Expr}
    (arithmetic : isArithmetic known e = true) :
    Agrees sc (value e) (eval sc (Infer.expr ctx fs e)) := by
  fun_induction isArithmetic known e with
  | case1 i v => exact agrees_pure v
  | case2 i v => exact agrees_pure (truth v)
  | case3 i name => exact fun st => ⟨st, rfl, rfl⟩
  | case4 i op l r ihl ihr =>
      simp only [Bool.and_eq_true] at arithmetic
      have left := ihl arithmetic.1
      have right := ihr arithmetic.2
      have numbers : ((Infer.expr ctx fs l).sigil.isStr && (Infer.expr ctx fs r).sigil.isStr) = false := by
        rw [infer_isStr words arithmetic.1, Bool.false_and]
      simp only [value, Infer.expr, eval, numbers]
      refine left.bind fun a => ?_
      cases op with
      | and =>
          by_cases zero : a = 0
          · simpa [zero] using agrees_pure 0
          · simpa [zero] using right.bind fun b => agrees_pure (truth (b != 0))
      | or =>
          by_cases zero : a = 0
          · simpa [zero] using right.bind fun b => agrees_pure (truth (b != 0))
          · simpa [zero] using agrees_pure 1
      | _ => exact right.bind fun b => agrees_operate _ a b
  | case5 i op e ih =>
      simp only [value, Infer.expr, eval]
      refine (ih arithmetic).bind fun v => ?_
      cases op with
      | neg => exact agrees_pure (-v)
      | not => exact agrees_pure (truth (v == 0))
  | case6 i c a b ihc iha ihb =>
      simp only [Bool.and_eq_true] at arithmetic
      simp only [value, Infer.expr, eval]
      refine (ihc arithmetic.1.1).bind fun v => ?_
      by_cases zero : v = 0
      · simpa only [zero, if_true] using ihb arithmetic.2
      · simpa only [zero, if_false] using iha arithmetic.1.2
  | case7 i op first j name =>
      exact fun st => ⟨stored sc name (stepped op (st.seen sc name)) st, rfl, seen_stored sc st name _⟩
  | case8 => cases arithmetic

end

/-! ## Code -/

section

variable (env : Env)

/-- The environment with nothing around that could be left. -/
def bare : Env := { env with loops := [], lasts := [], unwind := [] }

/-- The code of an expression on words does not depend on what is around. -/
theorem exprWith_bare {known : String → Bool} {e : Expr} (arithmetic : isArithmetic known e = true)
    (initial initial' : Expr → Emitting Unit) :
    Emit.exprWith initial env e = Emit.exprWith initial' (bare env) e := by
  fun_induction isArithmetic known e with
  | case1 | case2 | case3 => rfl
  | case4 i op l r ihl ihr =>
      simp only [Bool.and_eq_true] at arithmetic
      simp only [Emit.exprWith, ihl arithmetic.1, ihr arithmetic.2]
      rfl
  | case5 i op e ih => simp only [Emit.exprWith, ih arithmetic]
  | case6 i c a b ihc iha ihb =>
      simp only [Bool.and_eq_true] at arithmetic
      simp only [Emit.exprWith, ihc arithmetic.1.1, iha arithmetic.1.2, ihb arithmetic.2]
  | case7 => rfl
  | case8 => cases arithmetic

theorem expr_bare {known : String → Bool} {e : Expr} (arithmetic : isArithmetic known e = true) :
    Emit.expr env e = Emit.expr (bare env) e := by
  have (n : Nat) : Emit.exprAt n env e = Emit.exprAt n (bare env) e := by
    cases n <;> exact exprWith_bare env arithmetic _ _
  exact this env.classes.length

theorem meant_of_arithmetic {arity? : String → Option Nat} {guards : Bool} {known : String → Bool}
    (named : ∀ name, known name = true → env.isVariable name = true) {e : Expr}
    (arithmetic : isArithmetic known e = true) : meant (kitOf env arity? guards) e = true := by
  fun_induction isArithmetic known e with
  | case1 | case2 => rfl
  | case3 i name => exact named name arithmetic
  | case4 i op l r ihl ihr =>
      simp only [Bool.and_eq_true] at arithmetic
      simp [meant, ihl arithmetic.1, ihr arithmetic.2]
  | case5 i op e ih => exact ih arithmetic
  | case6 i c a b ihc iha ihb =>
      simp only [Bool.and_eq_true] at arithmetic
      simp [meant, ihc arithmetic.1.1, iha arithmetic.1.2, ihb arithmetic.2]
  | case7 i op first j name => exact named name arithmetic
  | case8 => cases arithmetic

end

/-- The instructions of an expression, generated in some state. -/
def codeOf (env : Env) (e : Expr) (g : Gen) : List Instr :=
  ((Emit.expr env e).run { g with code := #[] }).2.code.toList

/-- The variables of a routine as the machine holds them: in the frame and in the data section. -/
def holding {W : Type} (env : Env) (m : Machine W) : Store := fun name =>
  if name ∈ env.locals then m.slots (env.locals.idxOf name) else m.data (SymbolName.globalVar name)

section

variable {W : Type} {H : Host W} {rs : List Routine} {m : Machine W}

theorem put_ne_fault (dst : Operand) (v : Option Word) : m.put dst v ≠ .fault := by
  unfold put
  split
  · simp
  · split <;> simp

theorem arith_ne_fault (f : Word → Word → Word) (dst src : Operand) : m.arith H f dst src ≠ .fault := by
  unfold arith
  split
  · exact put_ne_fault _ _
  · simp

theorem compare_ne_fault (f : Word → Word → Flags) (a b : Operand) : m.compare H f a b ≠ .fault := by
  unfold Machine.compare
  split <;> simp

theorem jump_ne_fault (l : String) : m.jump l ≠ .fault := by
  unfold jump
  split <;> simp

theorem jumpIf_ne_fault (cond : Flags → Bool) (l : String) : m.jumpIf cond l ≠ .fault := by
  unfold jumpIf
  split
  · exact jump_ne_fault l
  · simp
  · simp

theorem call_ne_fault (name : String) : m.call H rs name ≠ .fault := by
  unfold Machine.call
  split <;> simp

theorem callAt_ne_fault (address : Word) : m.callAt H rs address ≠ .fault := by
  unfold callAt
  split <;> simp

theorem leave_ne_fault : m.leave ≠ .fault := by
  unfold leave
  split <;> simp

theorem setArg_ne_fault (i : Int) (v : Word) : m.setArg H i v ≠ .fault := by
  unfold setArg
  split <;> simp

/-- Only a division stops the machine. -/
theorem idiv_of_faults (faults : Faults H rs m) : ∃ i, m.code[m.pc]? = some i ∧ i.op = .idiv := by
  have effect {op : Op} (args : List Operand) (fault : m.exec H rs op args = .fault) : op = .idiv := by
    revert fault
    unfold Machine.exec
    split <;> try simp only [put_ne_fault, arith_ne_fault, compare_ne_fault, setIf, jump_ne_fault,
      jumpIf_ne_fault, call_ne_fault, callAt_ne_fault, leave_ne_fault, IsEmpty.forall_iff,
      reduceCtorEq, implies_true]
    · split <;> simp [put_ne_fault]
    · split <;> simp [setArg_ne_fault]
  unfold Faults step at faults
  split at faults
  · next i stands =>
      refine ⟨i, stands, effect i.args ?_⟩
      split at faults
      · cases faults
      · exact faults
  · cases faults

/-- Where the machine holds the variables that the meaning sees. -/
theorem holding_of_on {S : Setting W} {K : Keep S.scope.host} {st : State W} (env : Env)
    (same : env.locals = S.scope.locals) (on : On S K st m) : holding env m = st.seen S.scope := by
  funext name
  simp only [holding, State.seen, same]
  by_cases mem : name ∈ S.scope.locals
  · obtain ⟨i, index⟩ := Option.isSome_iff_exists.mp (List.isSome_idxOf?.mpr mem)
    rw [if_pos mem, if_pos mem, idxOf_of_idxOf? index, on.locals name i index]
  · rw [if_neg mem, if_neg mem, on.globals name]

variable (H m) in
/-- The setting in which the code of an expression is all there is. -/
def alone (env : Env) (T : Text) : Setting W where
  scope :=
    { host := H, literal := fun s => H.address (Emit.poolLabel (T.pool.idxOf s)), locals := env.locals,
      classes := env.classes, invoke := fun _ _ => throw .stray, fuel := 0 }
  routines := []
  text := T
  params := m.params
  saved := m.saved
  callers := m.callers
  limit := 0
  noted := False

/-- What the machine holds, as a state of the meaning. -/
def stateOf (env : Env) (m : Machine W) : State W :=
  ⟨fun name => m.slots (env.locals.idxOf name), fun name => m.data (SymbolName.globalVar name), m.world,
    m.trace⟩

variable (H) in
/-- The code of an integer expression ends with its value in `rax` and its store in the frame and the
    data section, without touching temporaries in use, and stops at a division exactly where the
    value has no result. -/
theorem run_arithmetic (env : Env) (ctx : Infer.Context) (fs : Infer.Facts) (e : Expr)
    (arithmetic : isArithmetic
      (fun name => env.isVariable name && !(Infer.identSigil ctx fs name).isStr) e = true)
    (g : Gen) (start : m.code = codeOf env (Infer.expr ctx fs e) g ∧ m.pc = 0 ∧ m.args = []) :
    match (value e).run (holding env m) with
    | some (v, σ) => ∃ n, Run H [] False m n ∧ n.code = m.code ∧ n.pc = m.code.length ∧ n.rax = v ∧
        holding env n = σ ∧
        ∀ i : Nat, env.locals.length ≤ i → i < env.locals.length + 1 + g.temps → n.slots i = m.slots i
    | none => ∃ n, Run H [] False m n ∧ Faults H [] n ∧ ∃ i, n.code[n.pc]? = some i ∧ i.op = .idiv := by
  obtain ⟨code, pc, args⟩ := start
  have variables_ (name : String) (known : (env.isVariable name &&
      !(Infer.identSigil ctx fs name).isStr) = true) : env.isVariable name = true := by
    simp_all
  have words (name : String) (known : (env.isVariable name &&
      !(Infer.identSigil ctx fs name).isStr) = true) : (Infer.identSigil ctx fs name).isStr = false := by
    simp_all
  have form := isArithmetic_infer ctx fs arithmetic
  let g₀ : Gen := { g with code := #[] }
  let run := (Emit.expr (bare env) (Infer.expr ctx fs e)).run g₀
  let T : Text := ⟨m.code, run.2.pool⟩
  let S := alone H m (bare env) T
  have whole : m.code = run.2.code.toList := by rw [code, codeOf, expr_bare env form]
  have lays : Lays T (Emit.expr (bare env) (Infer.expr ctx fs e)) g₀ () run.2 :=
    ⟨rfl, fun i _ _ => by simp [T, whole], fun _ => List.prefix_rfl⟩
  have : (bare env).Tidy := ⟨by simp [bare]⟩
  have distinct : Distinct T.code := by
    show Distinct m.code
    rw [whole]
    exact distinct_of_tidy (x := Emit.expr (bare env) (Infer.expr ctx fs e)) (g := g₀) rfl rfl
  have suits : Suits S (bare env) := ⟨this, distinct, rfl, rfl, rfl, False.elim⟩
  have sound : Sound S := ⟨fun _ => rfl, fun _ _ => rfl⟩
  let K : Keep S.scope.host :=
    ⟨m.slots, env.locals.length, env.locals.length + 1 + g.temps, fun _ => True, fun _ _ _ _ _ => trivial⟩
  have ready : Ready S (bare env) K g₀ (stateOf env m) m := by
    refine ⟨⟨⟨fun _ => rfl, rfl, rfl⟩, rfl, rfl, rfl, rfl, args, fun name i found => ?_,
      fun _ _ _ => rfl, trivial⟩, ⟨rfl, pc⟩, le_rfl, Int.le_add_one le_rfl, rfl, ?_, Nat.zero_le _⟩
    · show m.slots i = m.slots (env.locals.idxOf name)
      rw [idxOf_of_idxOf? (l := env.locals) found]
    · exact ((inferInstance : Emit.Grows (Emit.expr (bare env) (Infer.expr ctx fs e))).grow g₀).pool
  have known : meant (kitOf (bare env) (fun _ => none) false) (Infer.expr ctx fs e) = true :=
    meant_of_arithmetic (bare env) variables_ form
  have computed : Refines S (Exits S (bare env) .none K) _ (stateOf env m) m _ :=
    computes_expr suits sound (by simp) known lays ready
  have agrees : Agrees S.scope (value e) (eval S.scope (Infer.expr ctx fs e)) :=
    agrees_value words arithmetic
  have agrees := agrees (stateOf env m)
  have held : holding env m = (stateOf env m).seen S.scope :=
    holding_of_on (bare env) rfl ready.on
  rw [held]
  cases ends : (value e).run ((stateOf env m).seen S.scope) with
  | none =>
      simp only [ends] at agrees
      obtain ⟨st', left⟩ := agrees
      simp only [Refines, left] at computed
      obtain ⟨n, run, faults, -⟩ := computed
      exact ⟨n, run, faults, idiv_of_faults faults⟩
  | some result =>
      obtain ⟨v, σ⟩ := result
      simp only [ends] at agrees
      obtain ⟨st', done, rfl⟩ := agrees
      simp only [Refines, done] at computed
      obtain ⟨n, run, rax, ready'⟩ := computed
      refine ⟨n, run, ready'.on.code, ?_, rax, holding_of_on (bare env) rfl ready'.on, ?_⟩
      · rw [ready'.here.pc, whole, Array.length_toList]
      · intro i low high
        have above : K.low ≤ i := by show (env.locals.length : Int) ≤ i; omega
        have below : (i : Int) < K.high := by
          show (i : Int) < env.locals.length + 1 + g.temps
          omega
        exact ready'.on.kept i above below

end

/-! ## An example -/

/-- A run-time library that answers nothing. -/
def silent : Host Unit :=
  ⟨fun _ => 0, fun w _ _ => ⟨w, 0, 0, 0⟩, fun _ _ => 0, fun _ => false, fun _ _ => none⟩

/-- A routine with one variable of its own, `x`, in a program with one global, `z`. -/
def twoVariables : Env where
  classes := []
  words := ["gv_z"]
  funcs := []
  facts := ⟨[], [], []⟩
  routine := "fn_f"
  cls := ""
  locals := ["x"]
  retLabel := ""
  loops := []
  lasts := []
  unwind := []

/-- `x++ + x ^ 2 * z`. -/
def stepAndPower : Expr :=
  .binary default .add (.step default .inc false (.ident default "x"))
    (.binary default .mul (.binary default .pow (.ident default "x") (.number default 2))
      (.ident default "z"))

/-- The generator before anything is generated. -/
def blank : Gen := ⟨0, [], [], #[], 0, 0, 0, #[]⟩

/-- A machine with some code to run, in which `x` is 2 and `z` is 5. -/
def loaded (code : List Instr) : Machine Unit where
  rax := 0
  rbx := 0
  rdx := 0
  r11 := 0
  flags := none
  args := []
  code := code
  pc := 0
  slots := fun _ => 2
  params := []
  saved := 0
  callers := []
  data := fun _ => 5
  world := ()
  trace := []
  clock := 0

theorem loaded_code (code : List Instr) : (loaded code).code = code := rfl

/-- No function or class is known. -/
def nowhere : Infer.Context := ⟨Hints.empty, [], "fn_f", ""⟩

theorem run_stepAndPower :
    isArithmetic (fun name => twoVariables.isVariable name &&
      !(Infer.identSigil nowhere ⟨[], [], []⟩ name).isStr) stepAndPower = true ∧
    ∃ n, Run silent [] False (loaded (codeOf twoVariables
        (Infer.expr nowhere ⟨[], [], []⟩ stepAndPower) blank)) n ∧
      n.rax = 47 ∧ n.slots 0 = 3 := by
  refine ⟨by decide, ?_⟩
  obtain ⟨n, run, -, -, rax, held, -⟩ := run_arithmetic silent twoVariables nowhere ⟨[], [], []⟩
    stepAndPower (by decide) blank
    (m := loaded (codeOf twoVariables (Infer.expr nowhere ⟨[], [], []⟩ stepAndPower) blank))
    ⟨loaded_code _, rfl, rfl⟩
  exact ⟨n, run, rax, congrFun held "x"⟩

end Lantern.Meaning
