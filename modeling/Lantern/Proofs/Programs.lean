import Lantern.Proofs.Routines

/-!
# Calls between routines

A program's routines call each other, so what calling one means is carried out by its code only if
that holds of the others too. Each call has less fuel than its caller, and the induction is on that.
-/

namespace Lantern.Meaning

open Assembly Machine
open Emit (Text Gen Env Emitting Lays routineCode)

/-- A program with its code, and the run-time library that it is linked with. -/
structure Linked (W : Type) where
  /-- The run-time library. -/
  host : Host W
  /-- The classes of the program. -/
  classes : ClassTable
  /-- Its strings. -/
  pool : List String
  /-- What its routines are to do, by their symbols. -/
  definition? : String → Option Definition
  /-- Their code. -/
  routines : List Routine

/-- A routine is the code that is generated for its definition. -/
structure Compiled (env : Env) (pool : List String) (d : Definition) (r : Routine) : Prop where
  locals : env.locals = d.locals
  code : ∃ g g' : Gen, g.code = #[] ∧ g.temps = 0 ∧ g.pool <+: pool ∧ g'.pool <+: pool ∧
    (routineCode env d.names d.body).run g = ((), g') ∧ r.code = g'.code.toList

namespace Linked

variable {W : Type} (P : Linked W)

/-- The address of a string. -/
def literal (s : String) : Word := P.host.address (Emit.poolLabel (P.pool.idxOf s))

/-- What calling a routine does, with the given fuel. -/
def invoke (fuel : Nat) : String → List Word → Act W Word :=
  call P.host P.literal P.classes P.definition? fuel

/-- What the body of a routine refers to. -/
def scope (fuel : Nat) (d : Definition) : Scope W :=
  ⟨P.host, P.literal, d.locals, P.classes, P.invoke fuel, fuel⟩

/-- The setting of a routine in a run that is followed up to `limit`. -/
def setting (fuel limit : Nat) (d : Definition) (code : List Instr) (params : List Word) (saved : Word)
    (callers : List Activation) : Setting W :=
  ⟨P.scope fuel d, P.routines, ⟨code, P.pool⟩, params, saved, callers, limit, True⟩

/-- Routines with the given numbers of arguments that have a meaning and call only each other, in a
    program whose code was generated for it and whose library keeps its laws. -/
structure Closed (arity? : String → Option Nat) : Prop where
  foreign : ∀ name ∈ library, P.routines.find? (·.name == name) = none
  laws : Lawful P.host P.literal P.pool
  known : ∀ symbol n, arity? symbol = some n → ∃ d r env, P.definition? symbol = some d ∧
    P.routines.find? (·.name == symbol) = some r ∧ d.names.length = n ∧ env.classes = P.classes ∧
    Compiled env P.pool d r ∧ fits (kitOf env arity? true) .inRoutine d.body = true

end Linked

variable {W : Type} {P : Linked W} {arity? : String → Option Nat}

/-- A computation with variables of its own, after which the machine takes further steps. -/
theorem reach_framed {α : Type} {H : Host W} {rs : List Routine} {noted : Prop}
    {locals : W → String → Word} {x : Act W α} {st : State W} {m : Machine W}
    {X X' : Exit → State W → Machine W → Prop} {Q Q' : α → State W → Machine W → Prop}
    (body : Reach H rs noted m (Lands X Q (x.from { st with locals := locals st.world })))
    (results : ∀ a st' m', Q a st' m' →
      Reach H rs noted m' (Q' a { st' with locals := st.locals }))
    (exits : ∀ e st' m', X e st' m' → Reach H rs noted m' (X' e { st' with locals := st.locals })) :
    Reach H rs noted m (Lands X' Q' ((framed locals x).from st)) := by
  refine Reach.bind body fun n _ landed => ?_
  have framed : (framed locals x).from st =
      ((x.from { st with locals := locals st.world }).1,
        { (x.from { st with locals := locals st.world }).2 with locals := st.locals }) := rfl
  rw [framed]
  generalize x.from { st with locals := locals st.world } = result at landed ⊢
  obtain ⟨e | a, st'⟩ := result
  · exact exits e st' n landed
  · exact results a st' n landed

theorem Linked.invoke_succ (fuel : Nat) {symbol : String} {d : Definition}
    (found : P.definition? symbol = some d) (args : List Word) :
    P.invoke (fuel + 1) symbol args =
      framed (d.start P.host args) (outcome (exec (P.scope fuel d) d.body)) := by
  simp only [Linked.invoke, call, found]
  rfl

/-- Leaving a routine leads back behind the call. -/
theorem Finished.leave {fuel limit : Nat} {d : Definition} {code : List Instr} {params : List Word}
    {saved : Word} {m m' : Machine W} {st st' : State W} {count : Nat} {alive : W → Prop}
    {stable : Stable P.host alive} {Q : Machine W → Prop}
    (finished : Finished (P.setting fuel limit d code params saved
      (⟨m.code, m.pc + 1, m.slots, m.params, m.saved⟩ :: m.callers)) (.empty count stable) st' m')
    (rest : ∀ n, n.rax = m'.rax → n.rdx = m'.rdx →
      Returned alive st m { st' with locals := st.locals } n → Reach P.host P.routines True n Q) :
    Reach P.host P.routines True m' Q := by
  obtain ⟨on, epilogue⟩ := finished
  have stands : m'.code[m'.pc]? = some ⟨.epilogue, [], ""⟩ := by rw [on.code]; exact epilogue
  have callers : m'.callers = ⟨m.code, m.pc + 1, m.slots, m.params, m.saved⟩ :: m.callers := on.callers
  have effect : m'.exec P.host P.routines .epilogue [] = .next { m' with
      rbx := m'.saved, flags := none, args := [], code := m.code, pc := m.pc + 1, slots := m.slots,
      params := m.params, saved := m.saved, callers := m.callers } := by
    simp only [Machine.exec, Machine.leave, callers]
  refine Reach.exec stands effect (rest _ rfl rfl ?_)
  exact ⟨⟨rfl, rfl, rfl, rfl, rfl, rfl, rfl⟩, ⟨on.globals, on.world, on.trace⟩, on.alive, rfl⟩

/-- The machine has entered a routine. -/
theorem ready_entered {fuel limit : Nat} {d : Definition} {r : Routine} {env : Env} {g : Gen}
    {st : State W} {m : Machine W} {alive : W → Prop} (outside : Outside st m) (living : alive m.world)
    (stable : Stable P.host alive) (code : g.code = #[])
    (temps : g.temps = 0) (pool : g.pool <+: P.pool) (later : limit ≤ m.clock + 1 + fuel) :
    Ready (P.setting fuel limit d r.code m.args m.rbx
        (⟨m.code, m.pc + 1, m.slots, m.params, m.saved⟩ :: m.callers)) env
      (.empty env.locals.length stable) g
      { st with locals := fun name => P.host.stale st.world (d.locals.idxOf name) }
      { m.enter P.host r with clock := m.clock + 1, saved := m.rbx } := by
  refine ⟨⟨⟨outside.globals, outside.world, outside.trace⟩, rfl, rfl, rfl, rfl, rfl, ?_, ?_, living⟩,
    ⟨rfl, by simp [code, enter]⟩, ?_, le_rfl, by simp [Keep.empty, temps], pool, later⟩
  · intro name i found
    have index : d.locals.idxOf name = i := idxOf_of_idxOf? found
    simp [enter, index, outside.world]
  · intro i low high
    simp only [Keep.empty] at low high
    omega
  · simp [Keep.empty]

/-- Calling a routine carries out what calling it means. -/
theorem Linked.Closed.callable (closed : P.Closed arity?) (fuel limit : Nat) (d : Definition)
    (code : List Instr) (params : List Word) (saved : Word) (callers : List Activation)
    {symbol : String} {n : Nat} (known : arity? symbol = some n) :
    Callable (P.setting fuel limit d code params saved callers) symbol n := by
  induction fuel generalizing d code params saved callers symbol n with
  | zero =>
      obtain ⟨-, r, -, -, found, -⟩ := closed.known symbol n known
      refine ⟨trivial, r, found, fun st m alive _ outside _ _ later => Refines.left (e := .cut) rfl ?_⟩
      exact ⟨Nat.le_succ_of_le later, outside.trace⟩
  | succ fuel ih =>
      obtain ⟨d', r, env, defined, found, rfl, classes, ⟨locals, g, g', start, temps, pool, pool',
        run, ends⟩, fit⟩ := closed.known symbol n known
      refine ⟨trivial, r, found, fun st m alive count outside living stable later => ?_⟩
      let S' := P.setting fuel limit d' r.code m.args m.rbx
        (⟨m.code, m.pc + 1, m.slots, m.params, m.saved⟩ :: m.callers)
      have able : Able S' arity? true :=
        ⟨⟨fun _ => rfl, closed.foreign⟩, fun symbol n known => ih _ _ _ _ _ known,
          fun _ => closed.laws, fun _ => trivial⟩
      have lays : Lays S'.text (routineCode env d'.names d'.body) g () g' :=
        ⟨run, fun i _ _ => by simp [S', Linked.setting, ends], fun _ => pool'⟩
      have distinct : Distinct S'.text.code := by
        show Distinct r.code
        rw [ends]
        exact distinct_of_tidy start run
      have later' : limit ≤ m.clock + 1 + fuel := by
        have : limit ≤ m.clock + (fuel + 1) := later
        omega
      have body := refines_routine env (m := { m.enter P.host r with clock := m.clock + 1 })
        able distinct locals classes (fun name mem => locals ▸ d'.mem_locals mem) count.ge fit lays
        (ready_entered (r := r) outside living stable start temps pool later')
      show Refines _ _ (P.invoke (fuel + 1) symbol m.args) _ _ _
      rw [Linked.invoke_succ fuel defined]
      refine reach_framed body ?_ ?_
      · rintro v st₂ m₂ ⟨finished, rax, rdx⟩
        exact finished.leave fun n rax' rdx' returned =>
          Reach.done ⟨returned, rax'.trans rax, rdx'.trans rdx⟩
      · intro e st₂ m₂ left
        cases e with
        | break_ | continue_ | return_ => exact left.elim
        | thrown h =>
            obtain ⟨finished, rdx, isException⟩ := left
            refine finished.leave fun n _ rdx' returned =>
              Reach.done ⟨returned, rdx'.trans rdx, ?_, isException⟩
            rintro rfl
            have none : S'.scope.host.typeOf st₂.world 0 = none := closed.laws.nothing _
            simp [none] at isException
        | trap | cut | stray => exact Reach.done left

end Lantern.Meaning
