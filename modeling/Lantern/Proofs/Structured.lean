import Lantern.Proofs.Arithmetic
import Lantern.Proofs.Images

/-!
# Structured statements

A routine whose body is built from loops, switches and choices runs as its body says: if the body
comes to an end, so does the routine, with the same result, the same variables and the same record of
what was printed.
-/

namespace Lantern.Meaning

open Assembly Machine
open Emit (Gen Env Lays routineCode)

section

variable {W : Type}

/-- The environment of a routine's body, before its labels are known. -/
def envOf (env : Env) (sym cls : String) (d : Definition) : Env :=
  { env with routine := sym, cls := cls, locals := d.locals }

/-- The names of a routine's parameters, the receiver first where there is one. -/
def parameterNames (hasThis : Bool) (params : List Param) : List String :=
  (if hasThis then ["this"] else []) ++ params.map Param.name

/-- What a body refers to that calls no routine of the program: strings lie where the pool has them,
    and loops go round at most `fuel` times. -/
def lonely (H : Host W) (env : Env) (pool : List String) (d : Definition) (fuel : Nat) : Scope W where
  host := H
  literal := fun s => H.address (Emit.poolLabel (pool.idxOf s))
  locals := d.locals
  classes := env.classes
  invoke := fun _ _ => throw .stray
  fuel := fuel

/-- The state of the meaning in which a routine starts. -/
def entryState (d : Definition) (m : Machine W) : State W :=
  ⟨bindParams (fun name => m.slots (d.locals.idxOf name)) d.names m.params,
    fun name => m.data (SymbolName.globalVar name), m.world, m.trace⟩

/-- A routine comes to its end as its computation has ended: with the same result in `rax` and none in
    `rdx`, the same variables, the same answers of the run-time library and the same record. A division
    without a result stops it. -/
def EndsAs (H : Host W) (rs : List Routine) (env : Env) (sc : Scope W) (m : Machine W) :
    Except Exit Word × State W → Prop
  | (.ok v, st) => ∃ n, Run H rs False m n ∧ n.code = m.code ∧
      n.code[n.pc]? = some ⟨.epilogue, [], ""⟩ ∧ n.rax = v ∧ n.rdx = 0 ∧
      holding env n = st.seen sc ∧ n.world = st.world ∧ n.trace = st.trace
  | (.error .trap, st) => ∃ n, Run H rs False m n ∧ Faults H rs n ∧ n.trace = st.trace
  | _ => True

/-- The code of a routine that calls no other comes to its end as its body means. -/
theorem run_structured (H : Host W) (rs : List Routine)
    (foreign : ∀ name ∈ library, rs.find? (·.name == name) = none) (env : Env) (sym cls : String)
    (hasThis : Bool) (params : List Param) (body : Stmt) (g : Gen) (m : Machine W) (fuel : Nat)
    (fit : fits (kitOf (envOf env sym cls ⟨parameterNames hasThis params, body⟩) (fun _ => none) false)
      .inRoutine body = true)
    (start : m.code = ((Emit.routine env sym cls hasThis params body).run g).1.code ∧ m.pc = 0 ∧
      m.args = [] ∧ m.params.length = (parameterNames hasThis params).length) :
    let d : Definition := ⟨parameterNames hasThis params, body⟩
    let sc := lonely H env ((Emit.routine env sym cls hasThis params body).run g).2.pool d fuel
    EndsAs H rs (envOf env sym cls d) sc m ((outcome (exec sc body)).from (entryState d m)) := by
  intro d sc
  obtain ⟨code, pc, args, count⟩ := start
  let env' := envOf env sym cls d
  let run := (routineCode env' d.names body).run g.cleared
  have whole : m.code = run.2.code.toList := code
  let S : Setting W := ⟨sc, rs, ⟨m.code, run.2.pool⟩, m.params, m.rbx, m.callers, 0, False⟩
  have lays : Lays S.text (routineCode env' d.names body) g.cleared () run.2 :=
    ⟨rfl, fun i _ _ => by simp [S, whole], fun _ => List.prefix_rfl⟩
  have distinct : Distinct S.text.code := by
    show Distinct m.code
    rw [whole]
    exact distinct_of_tidy (x := routineCode env' d.names body) (g := g.cleared) rfl rfl
  have able : Able S (fun _ => none) false :=
    ⟨⟨fun _ => rfl, foreign⟩, by simp, by simp, by simp⟩
  have stable : Stable S.scope.host fun _ => True := fun _ _ _ _ _ => trivial
  let st₀ : State W := { entryState d m with locals := fun name => m.slots (d.locals.idxOf name) }
  have ready : Ready S env' (.empty env'.locals.length stable) g.cleared st₀
      { m with saved := m.rbx } := by
    refine ⟨⟨⟨fun _ => rfl, rfl, rfl⟩, rfl, rfl, rfl, rfl, args, fun name i found => ?_, ?_, trivial⟩,
      ⟨rfl, pc⟩, ?_, le_rfl, ?_, ?_, Nat.zero_le _⟩
    · show m.slots i = m.slots (d.locals.idxOf name)
      rw [idxOf_of_idxOf? (l := d.locals) found]
    · intro i low high
      simp only [Keep.empty] at low high
      omega
    · simp [Keep.empty]
    · simp [Keep.empty, Gen.cleared]
    · exact ((inferInstance : Emit.Grows (routineCode env' d.names body)).grow g.cleared).pool
  obtain ⟨n, run, landed⟩ := refines_routine env' able distinct rfl rfl
    (fun name mem => d.mem_locals mem) count.ge fit lays ready
  have same : ({ st₀ with locals := bindParams st₀.locals d.names S.params } : State W) =
      entryState d m := rfl
  rw [same] at landed
  cases ends : (outcome (exec sc body)).from (entryState d m) with
  | mk result st =>
      rw [ends] at landed
      cases result with
      | ok v =>
          obtain ⟨⟨on, epilogue⟩, rax, rdx⟩ := landed
          exact ⟨n, run, on.code, on.code ▸ epilogue, rax, rdx, holding_of_on env' rfl on,
            on.world, on.trace⟩
      | error e =>
          cases e with
          | trap => exact ⟨n, run, landed.1, landed.2⟩
          | _ => trivial

end

/-! ## An example -/

/-- `for (x = 0; x < 3; x++) switch (x) { default: print x; case 1: continue; }`, then `return x`. -/
def countUp : Stmt :=
  let x := Expr.ident default "x"
  .block default
    [.for_ default (some (.varDecl default "x" none (some (.number default 0))))
      (some (.binary default .lt x (.number default 3)))
      (some (.expr default (.step default .inc false x)))
      (.switch default x
        [.default_ default [.print default x], .case_ default (.number default 1) [.continue_ default]]),
     .return_ default (some x)]

/-- The machine with the code of `countUp`. -/
def countUpLoaded : Machine Unit :=
  loaded ((Emit.routine twoVariables "fn_f" "" false [] countUp).run blank).1.code

/-- What `countUp` means for it. -/
def countedUp : Except Exit Word × State Unit :=
  (outcome (exec (lonely silent twoVariables
    ((Emit.routine twoVariables "fn_f" "" false [] countUp).run blank).2.pool ⟨[], countUp⟩ 4) countUp)).from
    (entryState ⟨[], countUp⟩ countUpLoaded)

theorem run_countUp :
    fits (kitOf (envOf twoVariables "fn_f" "" ⟨[], countUp⟩) (fun _ => none) false) .inRoutine
      countUp = true ∧
    ∃ n, Run silent [] False countUpLoaded n ∧
      n.code[n.pc]? = some ⟨.epilogue, [], ""⟩ ∧ n.rax = 3 ∧ n.trace.length = 4 := by
  have fit : fits (kitOf (envOf twoVariables "fn_f" "" ⟨[], countUp⟩) (fun _ => none) false) .inRoutine
      countUp = true := by decide
  have value : countedUp.1 = .ok 3 := by decide +kernel
  have printed : countedUp.2.trace.length = 4 := by decide +kernel
  have code : countUpLoaded.code =
      ((Emit.routine twoVariables "fn_f" "" false [] countUp).run blank).1.code := loaded_code _
  have runs := run_structured silent [] (fun _ _ => rfl) twoVariables "fn_f" "" false [] countUp blank
    countUpLoaded 4 fit ⟨code, rfl, rfl, rfl⟩
  change EndsAs silent [] _ _ countUpLoaded countedUp at runs
  generalize countedUp = result at value printed runs
  obtain ⟨_, st⟩ := result
  obtain rfl := value
  obtain ⟨n, run, -, epilogue, rax, -, -, -, trace⟩ := runs
  exact ⟨fit, n, run, epilogue, rax, trace ▸ printed⟩

end Lantern.Meaning
