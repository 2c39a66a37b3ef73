import Lantern.Proofs.Refines

/-!
# Code of calls

Arguments are placed one after the other, and the call takes all of them. What the run-time library
answers is known from the host; what a routine of the program does is known from its meaning, as
long as it is known that calling it carries that meaning out.
-/

namespace Lantern.Meaning

open Assembly Machine
open Emit (Text Gen Env Emitting Lays lays_bind lays_emit lays_pure lays_quiet layout shown)

variable {W : Type} {S : Setting W} {env : Env}

/-! ## Arguments -/

/-- An operand whose value does not depend on the arguments that are placed. -/
def Steady : Operand → Prop
  | .reg .rdx | .reg .edx => False
  | _ => True

section

variable (H : Host W) (m : Machine W)

@[simp] theorem read_rax : m.read H Emit.rax = some m.rax := rfl
@[simp] theorem read_slot (i : Int) : m.read H (.slot i) = some (m.slots i) := rfl
@[simp] theorem read_addr (s : String) : m.read H (.addr s) = some (H.address s) := rfl
@[simp] theorem steady_rax : Steady Emit.rax := trivial
@[simp] theorem steady_slot (i : Int) : Steady (.slot i) := trivial
@[simp] theorem steady_addr (s : String) : Steady (.addr s) := trivial

end

theorem read_steady {H : Host W} {m n : Machine W} {o : Operand} (steady : Steady o)
    (rax : n.rax = m.rax) (rbx : n.rbx = m.rbx) (r11 : n.r11 = m.r11) (slots : n.slots = m.slots)
    (data : n.data = m.data) : n.read H o = m.read H o := by
  cases o with
  | reg r => cases r <;> simp_all [Machine.read, Steady]
  | _ => simp_all [Machine.read]

/-- Places arguments behind those that are already placed. -/
theorem places_args {H : Host W} {rs : List Routine} {noted : Prop}
    {T : Text} {Q : Machine W → Prop} {ops : List Operand} {vs : List Word} {g g' : Gen}
    {m : Machine W} (here : At T g m) (lays : Lays T (Emit.setArgsFrom m.args.length ops) g () g')
    (values : ops.map (m.read H) = vs.map some) (steady : ∀ o ∈ ops, Steady o)
    (rest : ∀ n, n.rax = m.rax → n.rbx = m.rbx → view n = { view m with args := m.args ++ vs } →
      m.clock ≤ n.clock → At T g' n → Reach H rs noted n Q) : Reach H rs noted m Q := by
  induction ops generalizing vs g m with
  | nil =>
      obtain rfl : vs = [] := by simpa using values
      obtain ⟨-, rfl⟩ := lays_pure.mp lays
      exact rest m rfl rfl (by simp [view]) le_rfl here
  | cons o ops ih =>
      obtain ⟨v, vs, rfl⟩ : ∃ v vs', vs = v :: vs' := by
        cases vs with
        | nil => simp at values
        | cons v vs => exact ⟨v, vs, rfl⟩
      simp only [List.map_cons, List.cons.injEq] at values
      simp only [Emit.setArgsFrom, lays_bind, lays_emit, shown] at lays
      obtain ⟨set, lays⟩ := lays
      have effect : m.exec H rs .setarg [.arg m.args.length, o] = .next
          { m with args := m.args ++ [v],
                   rdx := if H.inRdx m.args.length then v else m.rdx }.next := by
        simp [Machine.exec, values.1, setArg]
      refine here.next set effect rfl rfl fun n regs view clock here' => ?_
      have args : n.args = m.args ++ [v] := congrArg View.args view
      have length : n.args.length = m.args.length + 1 := by simp [args]
      have values' : ops.map (n.read H) = vs.map some := by
        rw [← values.2]
        refine List.map_congr_left fun o mem => ?_
        exact read_steady (steady o (by simp [mem])) (congrArg Regs.rax regs)
          (congrArg Regs.rbx regs) (congrArg Regs.r11 regs) (congrArg View.slots view)
          (congrArg View.data view)
      refine ih here' (length ▸ lays) values' (fun o mem => steady o (by simp [mem])) ?_
      intro n' rax rbx view' later here''
      refine rest n' (rax.trans (congrArg Regs.rax regs)) (rbx.trans (congrArg Regs.rbx regs)) ?_
        (by omega) here''
      rw [view', view, args]
      simp [Machine.view, Machine.next]

/-! ## The run-time library -/

/-- The state after the run-time library has answered. -/
def asked (H : Host W) (name : String) (args : List Word) (st : State W) : State W :=
  { st with
    world := (H.answer st.world name args).world
    trace := if name = "printf" then st.trace ++ [Event.print args] else st.trace }

/-- The state of the generator behind the arguments of a call. -/
theorem lays_setArgs {T : Text} {ops : List Operand} {g g' : Gen} :
    Lays T (Emit.setArgs ops) g () g' ↔
      ∃ mid, Lays T (Emit.setArgsFrom 0 ops) g () mid ∧
        g' = { mid with maxCallArgs := max mid.maxCallArgs ops.length } := by
  have room (mid : Gen) (u : Unit) : Lays T (modify fun g : Gen =>
      { g with maxCallArgs := max g.maxCallArgs ops.length }) mid u g' ↔
        u = () ∧ g' = { mid with maxCallArgs := max mid.maxCallArgs ops.length } :=
    lays_quiet rfl rfl rfl
  have : Emit.Grows (modify fun g : Gen =>
      { g with maxCallArgs := max g.maxCallArgs ops.length } : Emitting Unit) :=
    ⟨fun _ => ⟨List.prefix_rfl, List.prefix_rfl, le_rfl, List.Subset.refl _⟩⟩
  simp only [Emit.setArgs, lays_bind, room, shown, true_and]

theorem lays_externs {T : Text} {name : String} {u : Unit} {g g' : Gen} :
    Lays T (modify fun g : Gen => { g with externs := addNew g.externs name }) g u g' ↔
      u = () ∧ g' = { g with externs := addNew g.externs name } :=
  lays_quiet rfl rfl rfl

/-- Asks the run-time library: its answer is in `rax`, and besides its own state only the record is
    another one. -/
theorem asks {H : Host W} {rs : List Routine} {noted : Prop} {T : Text} {Q : Machine W → Prop}
    {name : String} {ops : List Operand} {vs : List Word} {g g' : Gen} {m : Machine W} (here : At T g m)
    (lays : Lays T (Emit.call name ops) g () g') (foreign : rs.find? (·.name == name) = none)
    (none : m.args = []) (values : ops.map (m.read H) = vs.map some) (steady : ∀ o ∈ ops, Steady o)
    (rest : ∀ n, n.rax = (H.answer m.world name vs).rax →
      view n = { view m with
        world := (H.answer m.world name vs).world
        trace := if name = "printf" then m.trace ++ [.print vs] else m.trace } →
      m.clock ≤ n.clock → At T g' n → Reach H rs noted n Q) : Reach H rs noted m Q := by
  -- The call itself, wherever the arguments have left the machine.
  have answer {g₁ : Gen} {m₁ : Machine W} (call : T.code[g₁.code.size]? = some ⟨.call, [.label name], ""⟩)
      (ends : g'.code.size = g₁.code.size + 1) (seen : view m₁ = { view m with args := vs })
      (later : m.clock ≤ m₁.clock) (here : At T g₁ m₁) : Reach H rs noted m₁ Q := by
    have effect : m₁.exec H rs .call [.label name] = .next (m₁.ask H name) := by
      simp [Machine.exec, Machine.call, foreign]
    have args₁ : m₁.args = vs := congrArg View.args seen
    have world₁ : m₁.world = m.world := congrArg View.world seen
    refine here.next call effect rfl rfl fun n regs view₂ clock here₂ => ?_
    have pc : n.pc = g'.code.size := by rw [here₂.pc, ends, Gen.size_push]
    refine rest n ?_ ?_ (by omega) ⟨here₂.code, pc⟩
    · rw [← world₁, ← args₁]
      exact congrArg Regs.rax regs
    · simp only [view, View.mk.injEq] at seen
      obtain ⟨code, slots, params, saved, callers, args, data, world, trace⟩ := seen
      rw [view₂]
      simp [view, Machine.ask, code, slots, params, saved, callers, data, world, trace, args, none]
  cases varies : (name == "printf" || name == "scanf") with
  | true =>
      simp only [Emit.call, varies, if_true, lays_bind, lays_setArgs, lays_emit, lays_externs,
        layout, shown, true_and] at lays
      obtain ⟨_, ⟨g₁, argsL, rfl⟩, zeroL, call, rfl⟩ := lays
      refine places_args here (by simpa [none] using argsL) values steady
        fun m₁ _ _ view₁ later₁ here₁ => ?_
      refine At.next (g := g₁) here₁ zeroL rfl rfl rfl fun m₂ _ view₂ clock₂ here₂ => ?_
      refine answer call (Gen.size_push ..) ?_ (by omega) ⟨here₂.code, here₂.pc⟩
      have same : view m₂ = view m₁ := view₂
      rw [same]
      simpa [none] using view₁
  | false =>
      simp only [Emit.call, varies, Bool.false_eq_true, if_false, lays_bind, lays_setArgs, lays_emit,
        lays_externs, shown, true_and] at lays
      obtain ⟨_, ⟨g₁, argsL, rfl⟩, call, rfl⟩ := lays
      refine places_args here (by simpa [none] using argsL) values steady
        fun m₁ _ _ view₁ later₁ here₁ => ?_
      exact answer call (Gen.size_push ..) (by simpa [none] using view₁) later₁ ⟨here₁.code, here₁.pc⟩

theorem On.asked {name : String} {vs : List Word} {K : Keep S.scope.host} {st : State W}
    {m m' : Machine W} (on : On S K st m) (known : name ∈ library)
    (seen : view m' = { view m with
      world := (S.scope.host.answer m.world name vs).world
      trace := if name = "printf" then m.trace ++ [.print vs] else m.trace }) :
    On S K (asked S.scope.host name vs st) m' := by
  simp only [view, View.mk.injEq] at seen
  obtain ⟨code, slots, params, saved, callers, args, data, world, trace⟩ := seen
  rw [on.world] at world
  rw [on.trace] at trace
  refine ⟨⟨fun name => data ▸ on.globals name, world, trace⟩,
    code ▸ on.code, params ▸ on.params, saved ▸ on.saved, callers ▸ on.callers, args ▸ on.args,
    fun name i found => slots ▸ on.locals name i found, fun i low high => slots ▸ on.kept i low high,
    ?_⟩
  rw [world]
  exact K.stable _ name known _ (on.world ▸ on.alive)

theorem Ready.ask {name : String} {ops : List Operand} {K : Keep S.scope.host} {g g' : Gen}
    {st : State W} {m : Machine W} {Q : Machine W → Prop} (ready : Ready S env K g st m)
    (vs : List Word) (lays : Lays S.text (Emit.call name ops) g () g')
    (sound : Sound S) (known : name ∈ library)
    (values : ops.map (m.read S.scope.host) = vs.map some) (steady : ∀ o ∈ ops, Steady o)
    (rest : ∀ n, n.rax = (S.scope.host.answer st.world name vs).rax → m.clock ≤ n.clock →
      Ready S env K g' (Meaning.asked S.scope.host name vs st) n →
      Reach S.scope.host S.routines S.noted n Q) :
    Reach S.scope.host S.routines S.noted m Q := by
  refine asks ready.here lays (sound.foreign name known) ready.on.args values steady
    fun n rax seen later here => ?_
  have fuel := ready.fuel
  exact rest n (ready.on.world ▸ rax) later ⟨ready.on.asked known seen, here, ready.low, ready.floor,
    lays.temps ▸ ready.high, lays.pool ready.pool, by omega⟩

/-! ## Routines of the program -/

/-- Behind a call: the second state goes on in the activation that made the call in the first. -/
structure Back (m m' : Machine W) : Prop where
  code : m'.code = m.code
  pc : m'.pc = m.pc + 1
  slots : m'.slots = m.slots
  params : m'.params = m.params
  saved : m'.saved = m.saved
  callers : m'.callers = m.callers
  args : m'.args = []

/-- A call that was made in the first states has ended in the second ones. -/
structure Returned (alive : W → Prop) (st : State W) (m : Machine W) (st' : State W)
    (m' : Machine W) : Prop extends Back m m', Outside st' m' where
  alive : alive m'.world
  locals : st'.locals = st.locals

/-- Where a call is left that was made in the first states. -/
def Thrown (S : Setting W) (alive : W → Prop) (st : State W) (m : Machine W) :
    Exit → State W → Machine W → Prop
  | .thrown h, st', m' => Returned alive st m st' m' ∧ m'.rdx = h ∧ h ≠ 0 ∧
      (S.scope.host.typeOf st'.world h).isSome = true
  | .trap, st', m' => Faults S.scope.host S.routines m' ∧ m'.trace = st'.trace
  | .cut, st', m' => S.limit ≤ m'.clock ∧ m'.trace = st'.trace
  | .stray, _, _ => True
  | .break_, _, _ | .continue_, _, _ | .return_ _, _, _ => False

/-- Calling a routine with so many arguments carries out what calling it means. -/
def Callable (S : Setting W) (symbol : String) (arity : Nat) : Prop :=
  S.noted ∧ ∃ r, S.routines.find? (·.name == symbol) = some r ∧
    ∀ (st : State W) (m : Machine W) (alive : W → Prop), m.args.length = arity → Outside st m →
      alive m.world → Stable S.scope.host alive →
      S.limit ≤ m.clock + S.scope.fuel →
      Refines S (Thrown S alive st m) (S.scope.invoke symbol m.args) st
        { m.enter S.scope.host r with clock := m.clock + 1 } fun v st' m' =>
          Returned alive st m st' m' ∧ m'.rax = v ∧ m'.rdx = 0

/-- Calls a routine of the program and goes to the target of exceptions if it throws one. -/
theorem Ready.invoke {symbol : String} {ops : List Operand} {vs : List Word} {ways : Ways}
    {K : Keep S.scope.host} {g g' : Gen} {st : State W} {m : Machine W}
    (ready : Ready S env K g st m)
    (lays : Lays S.text (Emit.callRoutine env (.label symbol) ops) g () g') (suits : Suits S env)
    (callable : Callable S symbol vs.length)
    (values : ops.map (m.read S.scope.host) = vs.map some) (steady : ∀ o ∈ ops, Steady o) :
    Refines S (Exits S env ways K) (S.scope.invoke symbol vs) st m fun v st' m' =>
      m'.rax = v ∧ Ready S env K g' st' m' := by
  have direct : env.lasts.length ≤ env.target.depth := suits.depth.ge
  simp only [Emit.callRoutine, Emit.checkException, direct, if_true, lays_bind, lays_setArgs,
    lays_emit, layout, shown] at lays
  obtain ⟨_, ⟨g₁, argsL, rfl⟩, call, test, jnz, rfl⟩ := lays
  obtain ⟨noted, r, found, runs⟩ := callable
  have none := ready.on.args
  have fuel := ready.fuel
  have on := ready.on
  refine places_args ready.here (by simpa [none] using argsL) values steady
    fun m₁ _ _ seen later here₁ => ?_
  simp only [view, View.mk.injEq, none, List.nil_append] at seen
  obtain ⟨code, slots, params, saved, callers, args, data, world, trace⟩ := seen
  have effect : m₁.exec S.scope.host S.routines .call [.label symbol] =
      .next (m₁.enter S.scope.host r) := by
    simp [Machine.exec, Machine.call, found]
  refine Reach.exec (here₁.stands call) effect ?_
  have runs := runs st m₁ K.alive (by rw [args]) ⟨fun name => data ▸ on.globals name,
    world ▸ on.world, trace ▸ on.trace⟩ (world ▸ on.alive) K.stable (by omega)
  rw [args] at runs
  -- Back in the routine, only the flag of the exception is still to be looked at.
  have back {st₂ : State W} {m₂ : Machine W} (later₂ : m₁.clock ≤ m₂.clock)
      (returned : Returned K.alive st m₁ st₂ m₂) : Ready S env K
        (Gen.push { g₁ with maxCallArgs := max g₁.maxCallArgs ops.length } .call [.label symbol])
        st₂ m₂ := by
    have size := Gen.size_push { g₁ with maxCallArgs := max g₁.maxCallArgs ops.length } .call
      [.label symbol]
    refine ⟨⟨returned.toOutside, ?_, ?_, ?_, ?_, returned.args, fun name i index => ?_,
      fun i low high => ?_, returned.alive⟩, ⟨?_, ?_⟩, ready.low, ready.floor, ?_,
      argsL.pool ready.pool, by omega⟩
    · rw [returned.code, code, on.code]
    · rw [returned.params, params, on.params]
    · rw [returned.saved, saved, on.saved]
    · rw [returned.callers, callers, on.callers]
    · rw [returned.slots, slots, returned.locals, on.locals name i index]
    · rw [returned.slots, slots, on.kept i low high]
    · rw [returned.code, here₁.code]
    · rw [returned.pc, here₁.pc, size]
    · simp [argsL.temps, ready.high]
  refine Reach.bind runs fun m₂ later₂ landed => ?_
  have later₂ : m₁.clock ≤ m₂.clock := by
    have : m₁.clock + 1 ≤ m₂.clock := later₂
    omega
  obtain ⟨k, target⟩ := suits.target noted
  cases ends : (S.scope.invoke symbol vs).from st with
  | mk result st₂ =>
      rw [ends] at landed
      cases result with
      | ok v =>
          obtain ⟨returned, rax, rdx⟩ := landed
          refine (back later₂ returned).next test rfl rfl rfl fun m₃ regs₃ _ ready₃ => ?_
          have rdx₃ : m₃.flags = some ⟨m₂.rdx &&& m₂.rdx == 0, decide (m₂.rdx &&& m₂.rdx < 0)⟩ :=
            congrArg Regs.flags regs₃
          have effect : m₃.exec S.scope.host S.routines .jnz [.label env.target.label] =
              .next m₃.next := by
            simp [Machine.exec, Machine.jumpIf, holds?, rdx₃, rdx]
          exact ready₃.next jnz effect rfl rfl fun m₄ regs₄ _ ready₄ => Reach.done
            ⟨((congrArg Regs.rax regs₄).trans (congrArg Regs.rax regs₃)).trans rax, ready₄⟩
      | error e =>
          cases e with
          | thrown h =>
              obtain ⟨returned, rdx, present, isException⟩ := landed
              refine (back later₂ returned).next test rfl rfl rfl fun m₃ regs₃ _ ready₃ => ?_
              have rdx₃ : m₃.flags =
                  some ⟨m₂.rdx &&& m₂.rdx == 0, decide (m₂.rdx &&& m₂.rdx < 0)⟩ :=
                congrArg Regs.flags regs₃
              have effect : m₃.exec S.scope.host S.routines .jnz [.label env.target.label] =
                  m₃.jump env.target.label := by
                simp [Machine.exec, Machine.jumpIf, holds?, rdx₃, rdx, beq_false_of_ne present]
              refine ready₃.depart jnz suits.distinct target effect fun m₄ regs₄ _ on₄ pc₄ =>
                Reach.done ⟨on₄, ?_, isException, pc₄ ▸ target⟩
              exact ((congrArg Regs.rdx regs₄).trans (congrArg Regs.rdx regs₃)).trans rdx
          | trap | cut | stray => exact Reach.done landed
          | break_ | continue_ | return_ => exact landed.elim

/-! ## Calls with their arguments -/

namespace Keep

variable {H : Host W} (K : Keep H)

/-- With more words on top. -/
def pushes (K : Keep H) : List Word → Keep H
  | [] => K
  | v :: vs => (K.push v).pushes vs

theorem within_pushes (vs : List Word) : K.Within (K.pushes vs) := by
  induction vs generalizing K with
  | nil => exact .refl K
  | cons v vs ih => exact (K.within_push v).trans (ih (K.push v))

theorem high_pushes (vs : List Word) : (K.pushes vs).high = K.high + vs.length := by
  induction vs generalizing K with
  | nil => simp [pushes]
  | cons v vs ih =>
      simp only [pushes, ih, push, List.length_cons]
      push_cast
      omega

end Keep

theorem grows_evalArgs (vs : List Emit.Value) (all : Emit.AllTidy vs) :
    Emit.Grows (Emit.evalArgs env vs) := by
  induction vs with
  | nil => unfold Emit.evalArgs; infer_instance
  | cons v vs ih =>
      have := all.head
      have := ih all.tail
      unfold Emit.evalArgs
      infer_instance

instance (vs : List Emit.Value) [all : Emit.AllTidy vs] : Emit.Grows (Emit.evalArgs env vs) :=
  grows_evalArgs vs all

/-- Code that leaves the values of computations in temporaries. -/
def Collects (S : Setting W) (env : Env) (vs : List Emit.Value) (act : Act W (List Word)) : Prop :=
  ∀ ⦃ways : Ways⦄ ⦃K : Keep S.scope.host⦄ ⦃g g' : Gen⦄ ⦃ops : List Operand⦄ ⦃st : State W⦄
    ⦃m : Machine W⦄, Lays S.text (Emit.evalArgs env vs) g ops g' → Ready S env K g st m →
      Refines S (Exits S env ways K) act st m fun ws st' m' =>
        ws.length = vs.length ∧ ops.map (m'.read S.scope.host) = ws.map some ∧
          (∀ o ∈ ops, Steady o) ∧ Ready S env (K.pushes ws) g' st' m'

theorem collects_nil : Collects S env [] (pure []) := by
  intro ways K g g' ops st m lays ready
  obtain ⟨rfl, rfl⟩ := lays_pure.mp lays
  exact Refines.here rfl ⟨rfl, rfl, by simp, ready⟩

theorem collects_cons {v : Emit.Value} {vs : List Emit.Value} {x : Act W Word}
    {rest : Act W (List Word)} [all : Emit.AllTidy (v :: vs)] (suits : Suits S env)
    (first : Computes S env v.code x) (others : Collects S env vs rest) :
    Collects S env (v :: vs) (do
      let a ← x
      return a :: (← rest)) := by
  intro ways K g g' ops st m lays ready
  have := all.head
  have := all.tail
  simp only [Emit.evalArgs, lays_bind, lays_pure, layout, shown] at lays
  obtain ⟨g₁, code, spill, ops, _, args, rfl, rfl⟩ := lays
  refine Refines.bind (first code ready) (fun _ _ _ _ h => h) ?_
  rintro a st₁ m₁ - ⟨rfl, ready₁⟩
  refine ready₁.spill spill suits fun m₂ _ _ ready₂ => ?_
  refine Refines.bind (others args ready₂) (fun _ _ _ _ h => h.within (K.within_push _)) ?_
  rintro ws st₃ m₃ - ⟨length, values, steady, ready₃⟩
  refine Refines.here rfl ⟨by simp [length], ?_, ?_, ready₃⟩
  · have inside := (K.push m₁.rax).within_pushes ws
    have low := ready₁.floor
    have high := ready₁.high
    have kept := (ready₃.on.within inside).kept K.high (by simp only [Keep.push]; omega)
      (by simp [Keep.push])
    rw [List.map_cons, List.map_cons, values, Machine.read, ← high, kept]
    simp [Keep.push]
  · simpa [Steady] using steady

theorem computes_call {symbol : String} {vs : List Emit.Value} {act : Act W (List Word)}
    [Emit.AllTidy vs] (suits : Suits S env) (callable : Callable S symbol vs.length)
    (args : Collects S env vs act) :
    Computes S env (do
      let ops ← Emit.evalArgs env vs
      Emit.callRoutine env (.label symbol) ops
      Emit.popTemps ops.length) (do S.scope.invoke symbol (← act)) := by
  intro ways K g g' st m lays ready
  have := suits.tidy
  simp only [lays_bind, layout, shown] at lays
  obtain ⟨ops, g₁, argsL, g₂, callL, rfl⟩ := lays
  refine Refines.bind (args argsL ready) (fun _ _ _ _ h => h) ?_
  rintro ws st₁ m₁ - ⟨length, values, steady, ready₁⟩
  have inside := K.within_pushes ws
  refine Refines.mono (ready₁.invoke callL suits (length ▸ callable) values steady)
    (fun _ _ _ _ h => h.within inside) ?_
  rintro v st₂ m₂ - ⟨rax, ready₂⟩
  refine ⟨rax, ready₂.on.within inside, ⟨ready₂.here.code, ready₂.here.pc⟩, ready.low, ready.floor, ?_,
    ready₂.pool, ready₂.fuel⟩
  have count : ops.length = ws.length := by simpa using congrArg List.length values
  have outer := ready.high
  have inner := ready₂.high
  rw [K.high_pushes] at inner
  simp only [Gen.temps_drop, count]
  omega

end Lantern.Meaning
