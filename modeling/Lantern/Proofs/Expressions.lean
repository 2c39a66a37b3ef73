import Lantern.Proofs.Calls
import Lantern.Proofs.Word

/-!
# Code of expressions

The code of each form of expression leaves in `rax` what the form means, given that the code of its
operands does. The forms are put together in the order of the definition of expressions.
-/

namespace Lantern.Meaning

open Assembly Machine
open Emit (Text Gen Env Emitting Lays lays_bind lays_emit lays_pure layout shown)

variable {W : Type} {S : Setting W} {env : Env}

section

variable {H : Host W} {rs : List Routine} {m : Machine W} {src : Operand} {v : Word}

theorem exec_mov_rax (read : m.read H src = some v) :
    m.exec H rs .mov [Emit.rax, src] = .next { m with rax := v }.next := by
  simp only [Machine.exec, put, read, write, Emit.rax]

end

/-! ## Constants and variables -/

theorem computes_imm (v : Word) : Computes S env (Emit.emit .mov [Emit.rax, .imm v]) (pure v) := by
  intro ways K g g' st m lays ready
  obtain ⟨laid, rfl⟩ := lays_emit.mp lays
  exact ready.next laid rfl rfl rfl fun n regs _ ready =>
    Refines.here rfl ⟨congrArg Regs.rax regs, ready⟩

theorem computes_zero : Computes S env Emit.zero (pure 0) := by
  intro ways K g g' st m lays ready
  obtain ⟨laid, rfl⟩ := lays_emit.mp lays
  refine ready.next laid rfl rfl rfl fun n regs _ ready => Refines.here rfl ⟨?_, ready⟩
  have : n.rax = wideHalf (lowHalf m.rax ^^^ lowHalf m.rax) := congrArg Regs.rax regs
  simpa [wideHalf] using this

theorem computes_truth (b : Bool) :
    Computes S env (if b then Emit.emit .mov [Emit.rax, Emit.imm 1] else Emit.zero)
      (pure (truth b)) := by
  cases b with
  | false => exact computes_zero
  | true => exact computes_imm 1

/-- The pool of the finished text holds a string where the generator had it. -/
theorem idxOf_pooled {g : Gen} {s : String} {pool : List String}
    (inside : (g.pooled s).pool <+: pool) : pool.idxOf s = g.pool.idxOf s := by
  obtain ⟨rest, rfl⟩ := inside
  simp only [Gen.pooled, addNew]
  split
  · next known => rw [List.idxOf_append_of_mem (by simpa using known)]
  · next new =>
      rw [List.append_assoc, List.idxOf_append_of_notMem (by simpa using new)]
      simp [List.idxOf_of_notMem (by simpa using new)]

theorem computes_str (s : String)
    (literal : S.scope.literal s =
      S.scope.host.address (Emit.poolLabel (S.text.pool.idxOf s))) :
    Computes S env (do Emit.emit .lea [Emit.rax, ← Emit.str s]) (pure (S.scope.literal s)) := by
  intro ways K g g' st m lays ready
  simp only [lays_bind, lays_emit, Emit.lays_str, shown] at lays
  obtain ⟨pooled, laid, rfl⟩ := lays
  have inside := pooled ready.pool
  have ready : Ready S env K (g.pooled s) st m :=
    ⟨ready.on, ⟨ready.here.code, ready.here.pc⟩, ready.low, ready.floor, ready.high, inside,
      ready.fuel⟩
  refine ready.next laid rfl rfl rfl fun n regs _ ready => Refines.here rfl ⟨?_, ready⟩
  rw [literal, idxOf_pooled inside]
  exact congrArg Regs.rax regs

theorem computes_variable {name : String} {place : Operand} (suits : Suits S env)
    (found : env.lookup? name = some place) :
    Computes S env (Emit.emit .mov [Emit.rax, place]) (load S.scope name) := by
  intro ways K g g' st m lays ready
  obtain ⟨laid, rfl⟩ := lays_emit.mp lays
  exact ready.next laid (exec_mov_rax (ready.read_variable suits found)) rfl rfl
    fun n regs _ ready => Refines.here rfl ⟨congrArg Regs.rax regs, ready⟩

/-! ## Operators -/

/-- Reads a condition off the flags. -/
theorem Ready.flagValue {op : Op} {f : Flags} {K : Keep S.scope.host} {g g' : Gen} {st : State W}
    {m : Machine W} {Q : Machine W → Prop} (ready : Ready S env K g st m) (cond : Flags → Bool)
    (lays : Lays S.text (Emit.flagValue op) g () g')
    (sets : m.exec S.scope.host S.routines op [Emit.al] = m.setIf cond Emit.al)
    (flags : m.flags = some f)
    (rest : ∀ n, n.rax = truth (cond f) → m.clock ≤ n.clock → Ready S env K g' st n →
      Reach S.scope.host S.routines S.noted n Q) :
    Reach S.scope.host S.routines S.noted m Q := by
  simp only [Emit.flagValue, lays_bind, lays_emit, shown] at lays
  obtain ⟨set, extend, rfl⟩ := lays
  have effect : m.exec S.scope.host S.routines op [Emit.al] =
      .next { m with rax := setLowByte m.rax (truth (cond f)) }.next := by
    rw [sets]
    simp only [setIf, holds?, flags, Option.map_some, put, Emit.al, write]
    rfl
  refine ready.next set effect rfl rfl fun m₁ regs₁ later₁ ready₁ => ?_
  have rax₁ : m₁.rax = setLowByte m.rax (truth (cond f)) := congrArg Regs.rax regs₁
  refine ready₁.next extend rfl rfl rfl fun m₂ regs₂ later₂ ready₂ => ?_
  have rax₂ : m₂.rax = lowByte m₁.rax := congrArg Regs.rax regs₂
  exact rest m₂ (by rw [rax₂, rax₁, lowByte_setLowByte]) (later₁.trans later₂).le ready₂

theorem computes_unary {v : Emit.Value} {x : Act W Word} [Emit.Tidy 0 v.code] (op : UnaryOp)
    (operand : Computes S env v.code x) :
    Computes S env (Emit.unary op v) (do
      let a ← x
      match op with
      | .neg => return -a
      | .not => return truth (a == 0)) := by
  intro ways K g g' st m lays ready
  cases op with
  | neg =>
      simp only [Emit.unary, lays_bind, lays_emit, shown] at lays
      obtain ⟨g₁, code, neg, rfl⟩ := lays
      refine Refines.bind (operand code ready) (fun _ _ _ _ h => h) ?_
      rintro a st₁ m₁ - ⟨rfl, ready₁⟩
      exact ready₁.next neg rfl rfl rfl fun m₂ regs₂ _ ready₂ =>
        Refines.here rfl ⟨congrArg Regs.rax regs₂, ready₂⟩
  | not =>
      simp only [Emit.unary, lays_bind, layout, shown] at lays
      obtain ⟨g₁, code, test, flag⟩ := lays
      refine Refines.bind (operand code ready) (fun _ _ _ _ h => h) ?_
      rintro a st₁ m₁ - ⟨rfl, ready₁⟩
      refine ready₁.test test fun m₂ f rax₂ flags₂ zero _ ready₂ => ?_
      refine ready₂.flagValue (·.zero) flag rfl flags₂ fun m₃ rax₃ _ ready₃ => ?_
      exact Refines.here rfl ⟨by rw [rax₃, zero], ready₃⟩

theorem computes_ternary {c a b : Emit.Value} {x y z : Act W Word} [Emit.Tidy 0 c.code]
    [Emit.Tidy 0 a.code] [Emit.Tidy 0 b.code] (distinct : Distinct S.text.code)
    (cond : Computes S env c.code x) (yes : Computes S env a.code y)
    (no : Computes S env b.code z) :
    Computes S env (Emit.ternary c a b) (do if (← x) = 0 then z else y) := by
  intro ways K g g' st m lays ready
  simp only [Emit.ternary, lays_bind, layout, shown] at lays
  obtain ⟨g₁, condL, test, jz, g₂, yesL, jmp, elseL, g₃, noL, endL, rfl⟩ := lays
  refine Refines.bind (cond condL (ready.moved rfl rfl rfl)) (fun _ _ _ _ h => h) ?_
  rintro v st₁ m₁ - ⟨rfl, ready₁⟩
  refine ready₁.test test fun m₂ f rax₂ flags₂ zero _ ready₂ => ?_
  have pool₂ := yesL.pool ready₂.pool
  refine ready₂.jumpIf (·.zero) jz rfl flags₂ distinct elseL (by simp [yesL.temps]) pool₂
    (fun taken m₃ _ _ ready₃ => ?_) fun fallen m₃ _ _ ready₃ => ?_
  · have : m₁.rax = 0 := by simpa [zero] using taken
    simp only [this, if_true]
    refine ready₃.next elseL rfl rfl rfl fun m₄ _ _ ready₄ => ?_
    refine Refines.andThen (no noL ready₄) ?_
    rintro v st₅ m₅ - ⟨rfl, ready₅⟩
    exact ready₅.next endL rfl rfl rfl fun m₆ regs₆ _ ready₆ =>
      Reach.done ⟨congrArg Regs.rax regs₆, ready₆⟩
  · have : m₁.rax ≠ 0 := by simpa [zero] using fallen
    simp only [this, if_false]
    refine Refines.andThen (yes yesL ready₃) ?_
    rintro v st₄ m₄ - ⟨rfl, ready₄⟩
    refine ready₄.jump jmp distinct endL rfl (by simp [noL.temps]) (noL.pool pool₂)
      fun m₅ regs₅ _ ready₅ => ?_
    refine ready₅.next endL rfl rfl rfl fun m₆ regs₆ _ ready₆ => ?_
    exact Reach.done ⟨(congrArg Regs.rax regs₆).trans (congrArg Regs.rax regs₅), ready₆⟩

theorem computes_shortCircuit {l r : Emit.Value} {x y : Act W Word} [Emit.Tidy 0 l.code]
    [Emit.Tidy 0 r.code] (distinct : Distinct S.text.code) (isOr : Bool)
    (left : Computes S env l.code x) (right : Computes S env r.code y) :
    Computes S env (Emit.shortCircuit isOr l r) (do
      if ((← x) != 0) = isOr then return truth isOr else return truth ((← y) != 0)) := by
  intro ways K g g' st m lays ready
  simp only [Emit.shortCircuit, lays_bind, layout, shown] at lays
  obtain ⟨g₁, leftL, test₁, jump₁, g₂, rightL, test₂, jump₂, g₃, otherL, jmp, decidedL, g₄, truthL,
    endL, rfl⟩ := lays
  have conditional (m : Machine W) (label : String) :
      m.exec S.scope.host S.routines (if isOr then .jnz else .jz) [.label label] =
        m.jumpIf (fun f => f.zero != isOr) label := by
    cases isOr <;> simp [Machine.exec]
  -- Both ends of the code: the first operand that decides, and none that does.
  have decided {st : State W} {m : Machine W}
      (ready : Ready S env K (g₃.push .jmp [.label (Emit.tag "scend" g.bump.labels)]) st m) :
      Reach S.scope.host S.routines S.noted m fun m' => m'.rax = truth isOr ∧
        Ready S env K (g₄.push .label [.label (Emit.tag "scend" g.bump.labels)]) st m' := by
    refine ready.next decidedL rfl rfl rfl fun m₁ _ _ ready₁ => ?_
    have landed : Refines S (Exits S env ways K) _ st m₁ _ := computes_truth isOr truthL ready₁
    refine Reach.bind landed ?_
    rintro m₂ - ⟨rax₂, ready₂⟩
    exact ready₂.next endL rfl rfl rfl fun m₃ regs₃ _ ready₃ =>
      Reach.done ⟨(congrArg Regs.rax regs₃).trans rax₂, ready₃⟩
  refine Refines.bind (left leftL (ready.moved rfl rfl rfl)) (fun _ _ _ _ h => h) ?_
  rintro v st₁ m₁ - ⟨rfl, ready₁⟩
  refine ready₁.test test₁ fun m₂ f rax₂ flags₂ zero₂ _ ready₂ => ?_
  have pool₂ := rightL.pool ready₂.pool
  have pool₃ := otherL.pool pool₂
  refine ready₂.jumpIf _ jump₁ (conditional _ _) flags₂ distinct decidedL
    (by simp [otherL.temps, rightL.temps]) pool₃ (fun taken m₃ _ _ ready₃ => ?_)
    fun fallen m₃ _ _ ready₃ => ?_
  · have : (m₁.rax != 0) = isOr := by cases isOr <;> simp_all
    simp only [this, if_true]
    exact decided ready₃
  · have : (m₁.rax != 0) ≠ isOr := by cases isOr <;> simp_all
    simp only [this, if_false]
    refine Refines.bind (right rightL ready₃) (fun _ _ _ _ h => h) ?_
    rintro v st₄ m₄ - ⟨rfl, ready₄⟩
    refine ready₄.test test₂ fun m₅ f₅ rax₅ flags₅ zero₅ _ ready₅ => ?_
    refine ready₅.jumpIf _ jump₂ (conditional _ _) flags₅ distinct decidedL
      (by simp [otherL.temps]) pool₃ (fun taken m₆ _ _ ready₆ => ?_) fun fallen m₆ _ _ ready₆ => ?_
    · have : (m₄.rax != 0) = isOr := by cases isOr <;> simp_all
      rw [this]
      exact decided ready₆
    · have : (m₄.rax != 0) = !isOr := by cases isOr <;> simp_all
      rw [this]
      have landed : Refines S (Exits S env ways K) _ st₄ m₆ _ := computes_truth (!isOr) otherL ready₆
      refine Reach.bind landed ?_
      rintro m₇ - ⟨rax₇, ready₇⟩
      refine ready₇.jump jmp distinct endL rfl (by simp [truthL.temps]) (truthL.pool pool₃)
        fun m₈ regs₈ _ ready₈ => ?_
      refine ready₈.next endL rfl rfl rfl fun m₉ regs₉ _ ready₉ => Reach.done ⟨?_, ready₉⟩
      exact (congrArg Regs.rax regs₉).trans ((congrArg Regs.rax regs₈).trans rax₇)

/-- Computes two values, the first of which waits in a temporary for the second. -/
theorem Ready.operands {l r : Emit.Value} {x y : Act W Word} {k : Word → Word → Act W Word}
    {ways : Ways} {K : Keep S.scope.host} {g g₁ g₂ : Gen} {st : State W} {m : Machine W}
    {Q : Word → State W → Machine W → Prop} (ready : Ready S env K g st m) (suits : Suits S env)
    (left : Computes S env l.code x) (right : Computes S env r.code y)
    (leftL : Lays S.text l.code g () g₁)
    (spill : S.text.code[g₁.code.size]? =
      some ⟨.mov, [.slot (env.locals.length + 1 + g₁.temps), Emit.rax], ""⟩)
    (rightL : Lays S.text r.code
      (g₁.lift.push .mov [.slot (env.locals.length + 1 + g₁.temps), Emit.rax]) () g₂)
    (rest : ∀ a st₁ m₁ st₂ m₂, Ready S env K g₁ st₁ m₁ → Ready S env (K.push a) g₂ st₂ m₂ →
      Refines S (Exits S env ways K) (k a m₂.rax) st₂ m₂ Q) :
    Refines S (Exits S env ways K) (do
      let a ← x
      let b ← y
      k a b) st m Q := by
  refine Refines.bind (left leftL ready) (fun _ _ _ _ h => h) ?_
  rintro a st₁ m₁ - ⟨rfl, ready₁⟩
  refine ready₁.spill spill suits fun m₂ _ _ ready₂ => ?_
  refine Refines.bind (right rightL ready₂) (fun _ _ _ _ h => h.within (K.within_push _)) ?_
  rintro b st₃ m₃ - ⟨rfl, ready₃⟩
  exact rest m₁.rax st₁ m₁ st₃ m₃ ready₁ ready₃

/-- The loop of a power. -/
def powerRounds (base : Operand) (loop endL : String) : Emitting Unit := do
  Emit.place loop
  Emit.emit .cmp [Emit.rbx, Emit.imm 0]
  Emit.jump .jle endL
  Emit.emit .imul [Emit.rax, base]
  Emit.emit .sub [Emit.rbx, Emit.imm 1]
  Emit.jump .jmp loop
  Emit.place endL

instance (base : Operand) (loop endL : String) : Emit.Grows (powerRounds base loop endL) := by
  unfold powerRounds
  infer_instance

theorem powerForm_eq (l r : Emit.Value) : Emit.powerForm env l r = (do
    let loop ← Emit.newLabel "pow"
    let endL ← Emit.newLabel "powend"
    l.code
    let base ← Emit.spill env
    r.code
    Emit.emit .mov [Emit.rbx, Emit.rax]
    Emit.emit .mov [Emit.rax, Emit.imm 1]
    powerRounds base loop endL
    Emit.popTemps 1) := rfl

/-- The machine has only changed registers since an earlier state, and neither that of exceptions nor that of
    addresses. -/
structure Multiplying (T : Text) (m₀ : Machine W) (g : Gen) (m : Machine W) : Prop where
  here : At T g m
  seen : view m = view m₀
  rdx : m.rdx = m₀.rdx
  r11 : m.r11 = m₀.r11

namespace Multiplying

variable {H : Host W} {rs : List Routine} {noted : Prop} {T : Text} {g g' : Gen} {m₀ m : Machine W} {i : Int}
  {loop endL : String}

theorem step {m' n : Machine W} (state : Multiplying T m₀ g m) (here : At T g' n) (regs : regs n = regs m')
    (seen : view n = view m') (same : view m' = view m) (rdx : m'.rdx = m.rdx) (r11 : m'.r11 = m.r11) :
    Multiplying T m₀ g' n :=
  ⟨here, seen.trans (same.trans state.seen), (congrArg Regs.rdx regs).trans (rdx.trans state.rdx),
    (congrArg Regs.r11 regs).trans (r11.trans state.r11)⟩

/-- The loop ends with a counter that is not positive; else it multiplies once and counts down. -/
theorem round (state : Multiplying T m₀ g m) (distinct : Distinct T.code)
    (lays : Lays T (powerRounds (.slot i) loop endL) g () g') :
    Reach H rs noted m fun n =>
      m.rbx.toInt ≤ 0 ∧ Multiplying T m₀ g' n ∧ n.rax = m.rax ∨
      0 < m.rbx.toInt ∧ Multiplying T m₀ g n ∧ n.rax = m.rax * m₀.slots i ∧ n.rbx = m.rbx - 1 := by
  simp only [powerRounds, lays_bind, lays_emit, layout, shown] at lays
  obtain ⟨loopL, cmp, jle, mul, sub, jmp, endL_, rfl⟩ := lays
  refine state.here.next loopL rfl rfl rfl fun m₁ regs₁ seen₁ _ here => ?_
  have state := state.step here regs₁ seen₁ rfl rfl rfl
  have rax₁ : m₁.rax = m.rax := congrArg Regs.rax regs₁
  have rbx₁ : m₁.rbx = m.rbx := congrArg Regs.rbx regs₁
  refine here.next cmp rfl rfl rfl fun m₂ regs₂ seen₂ _ here => ?_
  have state := state.step here regs₂ seen₂ rfl rfl rfl
  have rax₂ : m₂.rax = m.rax := (congrArg Regs.rax regs₂).trans rax₁
  have rbx₂ : m₂.rbx = m.rbx := (congrArg Regs.rbx regs₂).trans rbx₁
  refine here.jumpIf (fun f => f.zero || f.less) jle rfl (congrArg Regs.flags regs₂) distinct endL_
    (fun taken m₃ regs₃ seen₃ here => ?_) fun fallen m₃ regs₃ seen₃ here => ?_
  · have state := state.step here regs₃ seen₃ rfl rfl rfl
    refine here.next endL_ rfl rfl rfl fun m₄ regs₄ seen₄ _ here => Reach.done (.inl ⟨?_, ?_, ?_⟩)
    · exact rbx₁ ▸ atMost_eq_true.mp taken
    · exact state.step here regs₄ seen₄ rfl rfl rfl
    · exact (congrArg Regs.rax regs₄).trans ((congrArg Regs.rax regs₃).trans rax₂)
  · have state := state.step here regs₃ seen₃ rfl rfl rfl
    have base : m₃.slots i = m₀.slots i := congrArg (View.slots · i) state.seen
    have rax₃ : m₃.rax = m.rax := (congrArg Regs.rax regs₃).trans rax₂
    have rbx₃ : m₃.rbx = m.rbx := (congrArg Regs.rbx regs₃).trans rbx₂
    refine here.next mul rfl rfl rfl fun m₄ regs₄ seen₄ _ here => ?_
    have state := state.step here regs₄ seen₄ rfl rfl rfl
    have rax₄ : m₄.rax = m₃.rax * m₃.slots i := congrArg Regs.rax regs₄
    have rbx₄ : m₄.rbx = m₃.rbx := congrArg Regs.rbx regs₄
    refine here.next sub rfl rfl rfl fun m₅ regs₅ seen₅ _ here => ?_
    have state := state.step here regs₅ seen₅ rfl rfl rfl
    have rax₅ : m₅.rax = m₄.rax := congrArg Regs.rax regs₅
    have rbx₅ : m₅.rbx = m₄.rbx - 1 := congrArg Regs.rbx regs₅
    refine here.jump jmp distinct loopL rfl fun m₆ regs₆ seen₆ _ here => Reach.done (.inr ⟨?_, ?_, ?_, ?_⟩)
    · exact rbx₁ ▸ atMost_eq_false.mp fallen
    · exact state.step here regs₆ seen₆ rfl rfl rfl
    · calc m₆.rax = m₅.rax := congrArg Regs.rax regs₆
        _ = m₃.rax * m₃.slots i := rax₅.trans rax₄
        _ = m.rax * m₀.slots i := by rw [rax₃, base]
    · calc m₆.rbx = m₅.rbx := congrArg Regs.rbx regs₆
        _ = m.rbx - 1 := by rw [rbx₅, rbx₄, rbx₃]

/-- The counter says how often the loop goes round, the product how often it has gone. -/
theorem rounds (distinct : Distinct T.code) (lays : Lays T (powerRounds (.slot i) loop endL) g () g')
    (state : Multiplying T m₀ g m) (k n : Nat) (product : m.rax = power (m₀.slots i) k) (counter : m.rbx.toInt.toNat = n) :
    Reach H rs noted m fun m' => Multiplying T m₀ g' m' ∧ m'.rax = power (m₀.slots i) (k + n) := by
  induction n generalizing k m with
  | zero =>
      refine (state.round distinct lays).mono fun m' _ => ?_
      rintro (⟨-, state, rax⟩ | ⟨more, -⟩)
      · exact ⟨state, rax.trans product⟩
      · omega
  | succ n ih =>
      refine (state.round distinct lays).bind fun m' _ => ?_
      rintro (⟨done, -⟩ | ⟨more, state, rax, rbx⟩)
      · omega
      · have pred := toInt_pred more
        have ends := ih state (k + 1) (by rw [rax, product, power]) (by rw [rbx]; omega)
        rw [Nat.add_assoc, Nat.add_comm 1 n] at ends
        exact ends

end Multiplying

/-- Behind the code of the operands of a power, 1 is multiplied by the base as often as the exponent in `rax`
    says. -/
theorem reach_power {H : Host W} {rs : List Routine} {noted : Prop} {T : Text} {g g' : Gen} {m : Machine W} {i : Int}
    {loop endL : String} (here : At T g m) (distinct : Distinct T.code)
    (mov₁ : T.code[g.code.size]? = some ⟨.mov, [Emit.rbx, Emit.rax], ""⟩)
    (mov₂ : T.code[(g.push .mov [Emit.rbx, Emit.rax]).code.size]? = some ⟨.mov, [Emit.rax, Emit.imm 1], ""⟩)
    (lays : Lays T (powerRounds (.slot i) loop endL)
      ((g.push .mov [Emit.rbx, Emit.rax]).push .mov [Emit.rax, Emit.imm 1]) () g') :
    Reach H rs noted m fun n => Multiplying T m g' n ∧ n.rax = power (m.slots i) m.rax.toInt.toNat := by
  have state : Multiplying T m g m := ⟨here, rfl, rfl, rfl⟩
  refine here.next mov₁ rfl rfl rfl fun m₁ regs₁ seen₁ _ here => ?_
  have state := state.step here regs₁ seen₁ rfl rfl rfl
  refine here.next mov₂ rfl rfl rfl fun m₂ regs₂ seen₂ _ here => ?_
  have state := state.step here regs₂ seen₂ rfl rfl rfl
  have counter : m₂.rbx = m.rax := (congrArg Regs.rbx regs₂).trans (congrArg Regs.rbx regs₁)
  rw [← counter, ← Nat.zero_add m₂.rbx.toInt.toNat]
  exact state.rounds distinct lays 0 _ (congrArg Regs.rax regs₂) rfl

theorem computes_power {l r : Emit.Value} {x y : Act W Word} [Emit.Tidy 0 l.code]
    [Emit.Tidy 0 r.code] (suits : Suits S env) (left : Computes S env l.code x)
    (right : Computes S env r.code y) :
    Computes S env (Emit.powerForm env l r) (do
      let a ← x
      let b ← y
      return power a b.toInt.toNat) := by
  intro ways K g g' st m lays ready
  rw [powerForm_eq] at lays
  simp only [lays_bind, lays_emit, layout, shown] at lays
  obtain ⟨g₁, leftL, spill, g₂, rightL, mov₁, mov₂, g₃, rounds, rfl⟩ := lays
  refine Ready.operands (g := g.bump.bump) (ready.moved rfl rfl rfl) suits left right leftL spill rightL
    fun a st₁ m₁ st₃ m₃ ready₁ ready₃ => ?_
  refine (reach_power ready₃.here suits.distinct mov₁ mov₂ rounds).mono fun m₄ later ends => ?_
  obtain ⟨state, product⟩ := ends
  refine ⟨?_, ?_⟩
  · rw [product, ready₃.top ready₁]
  · have same : g₃.temps = g₂.temps ∧ g₃.pool = g₂.pool := by
      simp only [powerRounds, lays_bind, lays_emit, layout, shown] at rounds
      obtain ⟨-, -, -, -, -, -, -, rfl⟩ := rounds
      simp
    exact (ready₃.reached state.here state.seen later same.1 (same.2 ▸ ready₃.pool)).pop ready₁

/-- An operator on the words in `rax` and `rbx`. -/
theorem Ready.wordOp {op : BinaryOp} {ways : Ways} {K : Keep S.scope.host} {g g' : Gen} {st : State W}
    {m : Machine W} (ready : Ready S env K g st m) (lays : Lays S.text (Emit.wordOp op) g () g')
    (strict : op ≠ .and ∧ op ≠ .or ∧ op ≠ .pow) :
    Refines S (Exits S env ways K) (combine S.scope op false m.rax m.rbx) st m fun v st' m' =>
      m'.rax = v ∧ Ready S env K g' st' m' := by
  have comparison {flag : Op} (cond : Flags → Bool)
      (sets : ∀ m : Machine W, m.exec S.scope.host S.routines flag [Emit.al] = m.setIf cond Emit.al)
      (cmp : S.text.code[g.code.size]? = some ⟨.cmp, [Emit.rax, Emit.rbx], ""⟩)
      (flagL : Lays S.text (Emit.flagValue flag) (g.push .cmp [Emit.rax, Emit.rbx]) () g')
      (value : Meaning.operate op m.rax m.rbx =
        some (truth (cond ⟨m.rax == m.rbx, decide (m.rax < m.rbx)⟩))) :
      Refines S (Exits S env ways K) (combine S.scope op false m.rax m.rbx) st m fun v st' m' =>
        m'.rax = v ∧ Ready S env K g' st' m' := by
    refine ready.next cmp rfl rfl rfl fun m₁ regs₁ _ ready₁ => ?_
    refine ready₁.flagValue cond flagL (sets m₁) (congrArg Regs.flags regs₁) fun m₂ rax₂ _ ready₂ => ?_
    exact Refines.here (by simp only [combine, value]; rfl) ⟨rax₂, ready₂⟩
  have division {R : Word → State W → Machine W → Prop}
      (cqo : S.text.code[g.code.size]? = some ⟨.cqo, [], ""⟩)
      (idiv : S.text.code[(g.push .cqo []).code.size]? = some ⟨.idiv, [Emit.rbx], ""⟩)
      (undefined : m.rbx = 0 ∨ m.rax = Int64.minValue ∧ m.rbx = -1 →
        Meaning.operate op m.rax m.rbx = none)
      (defined : ¬(m.rbx = 0 ∨ m.rax = Int64.minValue ∧ m.rbx = -1) → ∀ n, n.rax = m.rax / m.rbx →
        n.rdx = m.rax % m.rbx → Ready S env K ((g.push .cqo []).push .idiv [Emit.rbx]) st n →
        Refines S (Exits S env ways K) (combine S.scope op false m.rax m.rbx) st n R) :
      Refines S (Exits S env ways K) (combine S.scope op false m.rax m.rbx) st m R := by
    refine ready.next cqo rfl rfl rfl fun m₁ regs₁ _ ready₁ => ?_
    have rax₁ : m₁.rax = m.rax := congrArg Regs.rax regs₁
    have rbx₁ : m₁.rbx = m.rbx := congrArg Regs.rbx regs₁
    have rdx₁ : m₁.rdx = if m.rax < 0 then -1 else 0 := congrArg Regs.rdx regs₁
    have divided : m₁.exec S.scope.host S.routines .idiv [Emit.rbx] = m₁.divide m.rbx := by
      rw [← rbx₁]
      rfl
    simp only [Machine.divide, rdx₁, rax₁, dividend_extended, divides_iff] at divided
    by_cases fits : m.rbx = 0 ∨ m.rax = Int64.minValue ∧ m.rbx = -1
    · have stops : (combine S.scope op false m.rax m.rbx).from st = (.error .trap, st) := by
        simp only [combine, undefined fits]
        rfl
      refine Refines.left stops ⟨?_, ready₁.on.trace⟩
      rw [if_pos fits] at divided
      simp only [Faults, step, ready₁.here.stands idiv, divided]
    · rw [if_neg fits] at divided
      refine ready₁.next idiv divided rfl rfl fun m₂ regs₂ _ ready₂ => defined fits m₂ ?_ ?_ ready₂
      · rw [← ofInt_quotient fits]
        exact congrArg Regs.rax regs₂
      · rw [← ofInt_remainder]
        exact congrArg Regs.rdx regs₂
  cases op with
  | add =>
      obtain ⟨laid, rfl⟩ := lays_emit.mp lays
      exact ready.next laid rfl rfl rfl fun m₁ regs₁ _ ready₁ =>
        Refines.here rfl ⟨congrArg Regs.rax regs₁, ready₁⟩
  | sub =>
      obtain ⟨laid, rfl⟩ := lays_emit.mp lays
      exact ready.next laid rfl rfl rfl fun m₁ regs₁ _ ready₁ =>
        Refines.here rfl ⟨congrArg Regs.rax regs₁, ready₁⟩
  | mul =>
      obtain ⟨laid, rfl⟩ := lays_emit.mp lays
      exact ready.next laid rfl rfl rfl fun m₁ regs₁ _ ready₁ =>
        Refines.here rfl ⟨congrArg Regs.rax regs₁, ready₁⟩
  | eq =>
      simp only [Emit.wordOp, Emit.compareOp?, lays_bind, lays_emit, shown] at lays
      exact comparison (·.zero) (fun _ => rfl) lays.1 lays.2 rfl
  | ne =>
      simp only [Emit.wordOp, Emit.compareOp?, lays_bind, lays_emit, shown] at lays
      exact comparison (!·.zero) (fun _ => rfl) lays.1 lays.2 rfl
  | lt =>
      simp only [Emit.wordOp, Emit.compareOp?, lays_bind, lays_emit, shown] at lays
      exact comparison (·.less) (fun _ => rfl) lays.1 lays.2 rfl
  | gt =>
      simp only [Emit.wordOp, Emit.compareOp?, lays_bind, lays_emit, shown] at lays
      refine comparison (fun f => !f.zero && !f.less) (fun _ => rfl) lays.1 lays.2 ?_
      rw [Meaning.operate, (comparisons m.rax m.rbx).1]
  | le =>
      simp only [Emit.wordOp, Emit.compareOp?, lays_bind, lays_emit, shown] at lays
      refine comparison (fun f => f.zero || f.less) (fun _ => rfl) lays.1 lays.2 ?_
      rw [Meaning.operate, (comparisons m.rax m.rbx).2.1]
  | ge =>
      simp only [Emit.wordOp, Emit.compareOp?, lays_bind, lays_emit, shown] at lays
      refine comparison (!·.less) (fun _ => rfl) lays.1 lays.2 ?_
      rw [Meaning.operate, (comparisons m.rax m.rbx).2.2]
  | div =>
      simp only [Emit.wordOp, lays_bind, lays_emit, shown] at lays
      obtain ⟨cqo, idiv, rfl⟩ := lays
      refine division cqo idiv (fun undefined => by simp [Meaning.operate, undefined])
        fun fits m₂ rax₂ _ ready₂ => ?_
      exact Refines.here (by simp only [combine, Meaning.operate, fits, if_false]; rfl) ⟨rax₂, ready₂⟩
  | rem =>
      simp only [Emit.wordOp, lays_bind, lays_emit, shown] at lays
      obtain ⟨cqo, idiv, mov, rfl⟩ := lays
      refine division cqo idiv (fun undefined => by simp [Meaning.operate, undefined])
        fun fits m₂ _ rdx₂ ready₂ => ?_
      refine ready₂.next mov rfl rfl rfl fun m₃ regs₃ _ ready₃ => ?_
      exact Refines.here (by simp only [combine, Meaning.operate, fits, if_false]; rfl)
        ⟨(congrArg Regs.rax regs₃).trans rdx₂, ready₃⟩
  | and => exact absurd rfl strict.1
  | or => exact absurd rfl strict.2.1
  | pow => exact absurd rfl strict.2.2

/-- Compares two strings, the second of which is in `rax`. -/
theorem Ready.sameString {a : Word} {left : Operand} {K : Keep S.scope.host} {g g₁ : Gen}
    {st : State W} {m : Machine W} {X : Exit → State W → Machine W → Prop}
    {Q : Bool → State W → Machine W → Prop} (ready : Ready S env K g st m) (sound : Sound S)
    (callL : Lays S.text (Emit.call "strcmp" [left, Emit.rax]) g () g₁)
    (test : S.text.code[g₁.code.size]? = some ⟨.test, [Emit.eax, Emit.eax], ""⟩)
    (read : m.read S.scope.host left = some a) (steady : Steady left)
    (rest : ∀ st' n f, n.flags = some f → m.clock ≤ n.clock →
      Ready S env K (g₁.push .test [Emit.eax, Emit.eax]) st' n →
      Reach S.scope.host S.routines S.noted n (Q f.zero st')) :
    Refines S X (Meaning.sameString S.scope a m.rax) st m Q := by
  refine ready.ask [a, m.rax] callL sound (by decide)
    (by simp [read]) (by simp [steady]) fun m₁ rax₁ later₁ ready₁ => ?_
  refine ready₁.next test rfl rfl rfl fun m₂ regs₂ later₂ ready₂ => ?_
  have flags₂ : m₂.flags =
      some ⟨lowHalf m₁.rax &&& lowHalf m₁.rax == 0, decide (lowHalf m₁.rax &&& lowHalf m₁.rax < 0)⟩ :=
    congrArg Regs.flags regs₂
  rw [rax₁, Int64.and_self] at flags₂
  exact rest _ m₂ _ flags₂ (later₁.trans later₂.le) ready₂

section Binary

variable {l r : Emit.Value} {x y : Act W Word} [Emit.Tidy 0 l.code] [Emit.Tidy 0 r.code]

theorem computes_words {op : BinaryOp} (suits : Suits S env)
    (strict : op ≠ .and ∧ op ≠ .or ∧ op ≠ .pow) (left : Computes S env l.code x)
    (right : Computes S env r.code y) :
    Computes S env (do
      l.code
      let left ← Emit.spill env
      r.code
      Emit.emit .mov [Emit.rbx, Emit.rax]
      Emit.emit .mov [Emit.rax, left]
      Emit.wordOp op
      Emit.popTemps 1) (do
      let a ← x
      let b ← y
      combine S.scope op false a b) := by
  intro ways K g g' st m lays ready
  simp only [lays_bind, lays_emit, layout, shown] at lays
  obtain ⟨g₁, leftL, spill, g₂, rightL, mov₁, mov₂, g₃, opL, rfl⟩ := lays
  refine ready.operands suits left right leftL spill rightL
    fun a st₁ m₁ st₃ m₃ ready₁ ready₃ => ?_
  refine ready₃.next mov₁ rfl rfl rfl fun m₄ regs₄ _ ready₄ => ?_
  refine ready₄.next mov₂ rfl rfl rfl fun m₅ regs₅ _ ready₅ => ?_
  have rax₅ : m₅.rax = a := (congrArg Regs.rax regs₅).trans (ready₄.top ready₁)
  have rbx₅ : m₅.rbx = m₃.rax := (congrArg Regs.rbx regs₅).trans (congrArg Regs.rbx regs₄)
  have runs : Refines S (Exits S env ways (K.push a)) _ st₃ m₅ _ := ready₅.wordOp opL strict
  rw [rax₅, rbx₅] at runs
  refine Refines.mono runs (fun _ _ _ _ h => h.within (K.within_push _)) ?_
  rintro v st₆ m₆ - ⟨rax, ready₆⟩
  exact ⟨rax, ready₆.pop ready₁⟩

theorem computes_concat (suits : Suits S env) (sound : Sound S) (left : Computes S env l.code x)
    (right : Computes S env r.code y) :
    Computes S env (do
      l.code
      let left ← Emit.spill env
      r.code
      Emit.call "lm_str_concat" [left, Emit.rax]
      Emit.popTemps 1) (do
      let a ← x
      let b ← y
      ask S.scope "lm_str_concat" [a, b]) := by
  intro ways K g g' st m lays ready
  simp only [lays_bind, layout, shown] at lays
  obtain ⟨g₁, leftL, spill, g₂, rightL, g₃, callL, rfl⟩ := lays
  refine ready.operands suits left right leftL spill rightL
    fun a st₁ m₁ st₃ m₃ ready₁ ready₃ => ?_
  refine ready₃.ask [a, m₃.rax] callL sound (by decide)
    (by simp [ready₃.top ready₁]) (by simp) fun m₄ rax₄ _ ready₄ => ?_
  exact Refines.here rfl ⟨rax₄, ready₄.pop ready₁⟩

theorem computes_sameString {flag : Op} (cond : Bool → Bool) [Emit.Plain flag] (suits : Suits S env)
    (sound : Sound S) (sets : ∀ m : Machine W, m.exec S.scope.host S.routines flag [Emit.al] =
      m.setIf (fun f => cond f.zero) Emit.al)
    (left : Computes S env l.code x) (right : Computes S env r.code y) :
    Computes S env (do
      l.code
      let left ← Emit.spill env
      r.code
      Emit.call "strcmp" [left, Emit.rax]
      Emit.emit .test [Emit.eax, Emit.eax]
      Emit.flagValue flag
      Emit.popTemps 1) (do
      let a ← x
      let b ← y
      return truth (cond (← sameString S.scope a b))) := by
  intro ways K g g' st m lays ready
  simp only [lays_bind, lays_emit, layout, shown] at lays
  obtain ⟨g₁, leftL, spill, g₂, rightL, g₃, callL, test, g₄, flagL, rfl⟩ := lays
  refine ready.operands suits left right leftL spill rightL
    fun a st₁ m₁ st₃ m₃ ready₁ ready₃ => ?_
  have compared := ready₃.sameString (X := Exits S env ways K) (Q := fun b st' m' =>
    m'.rax = truth (cond b) ∧ Ready S env K (g₄.drop 1) st' m') sound callL test
    (by rw [read_slot, ready₃.top ready₁]) (steady_slot _) fun st₄ m₄ f flags₄ _ ready₄ =>
      ready₄.flagValue _ flagL (sets m₄) flags₄ fun m₅ rax₅ _ ready₅ =>
        Reach.done ⟨rax₅, ready₅.pop ready₁⟩
  refine Refines.bind compared (fun _ _ _ _ h => h) ?_
  rintro b st₄ m₄ - h
  exact Refines.here rfl h

end Binary

theorem computes_strict {op : BinaryOp} {l r : Emit.Value} {x y : Act W Word} [Emit.Tidy 0 l.code]
    [Emit.Tidy 0 r.code] (suits : Suits S env) (sound : Sound S)
    (strict : op ≠ .and ∧ op ≠ .or ∧ op ≠ .pow) (left : Computes S env l.code x)
    (right : Computes S env r.code y) :
    Computes S env (Emit.strictBinary env op l r) (do
      let a ← x
      let b ← y
      combine S.scope op (l.sigil.isStr && r.sigil.isStr) a b) := by
  intro ways K g g' st m lays ready
  unfold Emit.strictBinary at lays
  cases strs : l.sigil.isStr && r.sigil.isStr with
  | false =>
      simp only [strs, Bool.false_and, Bool.false_eq_true, if_false] at lays
      exact computes_words suits strict left right lays ready
  | true =>
      rw [strs] at lays
      cases op with
      | add => exact computes_concat suits sound left right lays ready
      | eq => exact computes_sameString id suits sound (fun _ => rfl) left right lays ready
      | ne => exact computes_sameString not suits sound (fun _ => rfl) left right lays ready
      | and => exact absurd rfl strict.1
      | or => exact absurd rfl strict.2.1
      | pow => exact absurd rfl strict.2.2
      | sub | mul | div | rem | lt | gt | le | ge => exact computes_words suits strict left right lays ready

theorem computes_binary {i : Info} {op : BinaryOp} {l r : Emit.Value} [Emit.Tidy 0 l.code]
    [Emit.Tidy 0 r.code] (suits : Suits S env) (sound : Sound S)
    (left : Computes S env l.code (eval S.scope l.expr))
    (right : Computes S env r.code (eval S.scope r.expr)) :
    Computes S env (Emit.binary env op l r) (eval S.scope (.binary i op l.expr r.expr)) := by
  have strict (strict : op ≠ .and ∧ op ≠ .or ∧ op ≠ .pow) :=
    computes_strict suits sound strict left right
  simp only [eval]
  cases op with
  | and =>
      refine (computes_shortCircuit suits.distinct false left right).congr (bind_congr fun a => ?_)
      by_cases zero : a = 0 <;> simp [zero, truth]
  | or =>
      refine (computes_shortCircuit suits.distinct true left right).congr (bind_congr fun a => ?_)
      by_cases zero : a = 0 <;> simp [zero, truth]
  | pow =>
      refine (computes_power suits left right).congr
        (bind_congr fun a => bind_congr fun b => ?_)
      cases l.expr.sigil.isStr && r.expr.sigil.isStr <;> rfl
  | add | sub | mul | div | rem | eq | ne | lt | gt | le | ge => exact strict (by simp)

theorem computes_step {op : StepOp} {first : Bool} {name : String} {place : Operand}
    (suits : Suits S env) (found : env.lookup? name = some place) :
    Computes S env (Emit.stepPlace op first place) (do
      let v ← load S.scope name
      store S.scope name (stepped op v)
      return if first then stepped op v else v) := by
  intro ways K g g' st m lays ready
  have step (v : Word) (m : Machine W) (rbx : m.rbx = v) :
      m.exec S.scope.host S.routines (Emit.stepInstr op) [Emit.rbx, Emit.imm 1] =
        .next { m with rbx := stepped op v, flags := none }.next := by
    subst rbx
    cases op <;> rfl
  simp only [Emit.stepPlace, lays_bind, lays_emit, shown] at lays
  obtain ⟨mov₁, mov₂, add, mov₃, lays⟩ := lays
  have read := ready.read_variable suits found
  refine ready.next mov₁ (exec_mov_rax read) rfl rfl fun m₁ regs₁ _ ready₁ => ?_
  refine ready₁.next mov₂ rfl rfl rfl fun m₂ regs₂ _ ready₂ => ?_
  refine ready₂.next add (step _ m₂ rfl) rfl rfl fun m₃ regs₃ _ ready₃ => ?_
  refine ready₃.assign mov₃ suits found (v := m₃.rbx) rfl fun m₄ regs₄ _ ready₄ => ?_
  have rax₁ : m₁.rax = if name ∈ S.scope.locals then st.locals name else st.globals name :=
    congrArg Regs.rax regs₁
  have rax₄ : m₄.rax = if name ∈ S.scope.locals then st.locals name else st.globals name := by
    calc m₄.rax = m₃.rax := congrArg Regs.rax regs₄
      _ = m₂.rax := congrArg Regs.rax regs₃
      _ = m₁.rax := congrArg Regs.rax regs₂
      _ = _ := rax₁
  have rbx₃ : m₃.rbx = stepped op m₄.rax := by
    calc m₃.rbx = stepped op m₂.rbx := congrArg Regs.rbx regs₃
      _ = stepped op m₁.rax := congrArg (stepped op) (congrArg Regs.rbx regs₂)
      _ = stepped op m₄.rax := by rw [rax₄, rax₁]
  have rbx₄ : m₄.rbx = m₃.rbx := congrArg Regs.rbx regs₄
  rw [rbx₃] at ready₄ rbx₄
  rw [← rax₄] at read
  have means : (do
      let v ← load S.scope name
      store S.scope name (stepped op v)
      return if first then stepped op v else v : Act W Word).from st =
        (.ok (if first then stepped op m₄.rax else m₄.rax),
          stored S.scope name (stepped op m₄.rax) st) := by
    rw [rax₄]
    rfl
  cases first with
  | true =>
      simp only [if_true, lays_emit] at lays
      obtain ⟨mov₄, rfl⟩ := lays
      refine ready₄.next mov₄ rfl rfl rfl fun m₅ regs₅ _ ready₅ => Refines.here means ⟨?_, ready₅⟩
      exact (congrArg Regs.rax regs₅).trans rbx₄
  | false =>
      simp only [Bool.false_eq_true, if_false, lays_pure, true_and] at lays
      exact Refines.here means ⟨rfl, lays ▸ ready₄⟩

/-! ## All expressions -/

/-- What the code of a routine may refer to. -/
structure Kit where
  /-- The names of variables. -/
  variable_ : String → Bool
  /-- The names of functions, with the numbers of their arguments. -/
  func : String → Nat → Bool
  /-- The names of classes and their static methods, with the numbers of their arguments. -/
  static_ : String → String → Nat → Bool
  /-- Whether exceptions may be thrown and handled. -/
  guards : Bool

/-- Whether the name of a function calls it. -/
def callsFunc (env : Env) (arity? : String → Option Nat) (name : String) (n : Nat) : Bool :=
  (env.lookup? name).isNone && (LibFunc.ofName? name).isNone && env.funcs.contains name &&
    arity? (SymbolName.func name) == some n

/-- Whether the name of a class with that of a method calls a static method. -/
def callsStatic (env : Env) (arity? : String → Option Nat) (cls name : String) (n : Nat) : Bool :=
  !env.isVariable cls && env.classes.has cls &&
    match env.classes.staticMethod? cls name with
    | some symbol => arity? symbol == some n
    | none => false

/-- What may be referred to in an environment, where `arity?` are the numbers of arguments of the
    routines that may be called. -/
def kitOf (env : Env) (arity? : String → Option Nat) (guards : Bool) : Kit :=
  ⟨env.isVariable, callsFunc env arity?, callsStatic env arity?, guards⟩

mutual

/-- Whether an expression has a meaning here: it is built from constants, variables, operators and
    calls of routines. -/
def meant (kit : Kit) : Expr → Bool
  | .number .. | .bool .. | .str .. => true
  | .ident _ name => kit.variable_ name
  | .binary _ _ l r => meant kit l && meant kit r
  | .unary _ _ e => meant kit e
  | .ternary _ c a b => meant kit c && meant kit a && meant kit b
  | .step _ _ _ (.ident _ name) => kit.variable_ name
  | .call _ callee args => kit.func callee args.length && allMeant kit args
  | .method _ (.ident _ cls) name args => kit.static_ cls name args.length && allMeant kit args
  | _ => false

/-- Whether expressions have a meaning here. -/
def allMeant (kit : Kit) : List Expr → Bool
  | [] => true
  | e :: es => meant kit e && allMeant kit es

end

section Expressions

variable {arity? : String → Option Nat} {guards : Bool} {initial : Expr → Emitting Unit}

theorem valuesWith_length (env : Env) (es : List Expr) :
    (Emit.valuesWith initial env es).length = es.length := by
  induction es with
  | nil => rfl
  | cons e es ih => simp [Emit.valuesWith, ih]

mutual

theorem computes_exprWith (suits : Suits S env) (sound : Sound S)
    (calls : ∀ symbol n, arity? symbol = some n → Callable S symbol n)
    (tidy : ∀ e, Emit.Tidy 0 (initial e)) (e : Expr) (fits : meant (kitOf env arity? guards) e = true) :
    Computes S env (Emit.exprWith initial env e) (eval S.scope e) := by
  have := suits.tidy
  have each (e : Expr) : Emit.Tidy 0 (Emit.exprWith initial env e) :=
    Emit.tidy_exprWith initial env tidy suits.tidy e
  cases e with
  | number i v =>
      simp only [Emit.exprWith, eval]
      exact computes_imm v
  | bool i v =>
      simp only [Emit.exprWith, eval]
      exact computes_truth v
  | str i v =>
      simp only [Emit.exprWith, eval]
      exact computes_str v (sound.literal v)
  | ident i name =>
      simp only [meant, kitOf, Env.isVariable, Option.isSome_iff_exists] at fits
      obtain ⟨place, found⟩ := fits
      simp only [Emit.exprWith, Emit.ident, found, eval]
      exact computes_variable suits found
  | binary i op l r =>
      simp only [meant, Bool.and_eq_true] at fits
      have left := computes_exprWith suits sound calls tidy l fits.1
      have right := computes_exprWith suits sound calls tidy r fits.2
      simp only [Emit.exprWith]
      exact computes_binary (l := ⟨l, _⟩) (r := ⟨r, _⟩) suits sound left right
  | unary i op e =>
      simp only [meant] at fits
      have operand := computes_exprWith suits sound calls tidy e fits
      simp only [Emit.exprWith, eval]
      exact computes_unary (v := ⟨e, _⟩) op operand
  | ternary i c a b =>
      simp only [meant, Bool.and_eq_true] at fits
      simp only [Emit.exprWith, eval]
      exact computes_ternary (c := ⟨c, _⟩) (a := ⟨a, _⟩) (b := ⟨b, _⟩) suits.distinct
        (computes_exprWith suits sound calls tidy c fits.1.1)
        (computes_exprWith suits sound calls tidy a fits.1.2)
        (computes_exprWith suits sound calls tidy b fits.2)
  | step i op first t =>
      cases t with
      | ident _ name =>
          simp only [meant, kitOf, Env.isVariable, Option.isSome_iff_exists] at fits
          obtain ⟨place, found⟩ := fits
          simp only [Emit.exprWith, Emit.stepVar, found, eval]
          exact computes_step suits found
      | _ => simp [meant] at fits
  | call i callee args =>
      simp only [meant, kitOf, callsFunc, Bool.and_eq_true, Option.isNone_iff_eq_none, beq_iff_eq] at fits
      obtain ⟨⟨⟨⟨free, own⟩, known⟩, arity⟩, each⟩ := fits
      have all : Emit.AllTidy (Emit.valuesWith initial env args) :=
        Emit.tidy_valuesWith initial env tidy suits.tidy args
      have values := collects_valuesWith suits sound calls tidy args each
      simp only [Emit.exprWith, Emit.callByName, free, own, known, if_true, eval]
      exact computes_call suits (valuesWith_length env _ ▸ calls _ _ arity) values
  | method i r name args =>
      cases r with
      | ident j cls =>
          simp only [meant, kitOf, callsStatic, Bool.and_eq_true, Bool.not_eq_true'] at fits
          obtain ⟨⟨⟨free, known⟩, arity⟩, each⟩ := fits
          have all : Emit.AllTidy (Emit.valuesWith initial env args) :=
            Emit.tidy_valuesWith initial env tidy suits.tidy args
          have values := collects_valuesWith suits sound calls tidy args each
          have class? : env.classRef? (.ident j cls) = some cls := by
            simp [Env.classRef?, free, known]
          rw [suits.classes] at arity
          cases found : S.scope.classes.staticMethod? cls name with
          | none => simp [found] at arity
          | some symbol =>
              simp only [found, beq_iff_eq] at arity
              have code : env.classes.staticMethod? cls name = some symbol := by
                rw [suits.classes, found]
              simp only [Emit.exprWith, Emit.methodCall, class?, Emit.staticCall, code, eval, found]
              exact computes_call suits (valuesWith_length env _ ▸ calls _ _ arity) values
      | _ => simp [meant] at fits
  | list | map | index | member | new_ | super | funcRef => simp [meant] at fits

theorem collects_valuesWith (suits : Suits S env) (sound : Sound S)
    (calls : ∀ symbol n, arity? symbol = some n → Callable S symbol n)
    (tidy : ∀ e, Emit.Tidy 0 (initial e)) (es : List Expr) (fits : allMeant (kitOf env arity? guards) es = true) :
    Collects S env (Emit.valuesWith initial env es) (evals S.scope es) := by
  cases es with
  | nil =>
      simp only [Emit.valuesWith, evals]
      exact collects_nil
  | cons e es =>
      simp only [allMeant, Bool.and_eq_true] at fits
      have : Emit.AllTidy (Emit.valuesWith initial env (e :: es)) :=
        Emit.tidy_valuesWith initial env tidy suits.tidy (e :: es)
      simp only [Emit.valuesWith, evals] at *
      exact collects_cons (v := ⟨e, _⟩) suits (computes_exprWith suits sound calls tidy e fits.1)
        (collects_valuesWith suits sound calls tidy es fits.2)

end

theorem computes_expr (suits : Suits S env) (sound : Sound S)
    (calls : ∀ symbol n, arity? symbol = some n → Callable S symbol n) {e : Expr}
    (fits : meant (kitOf env arity? guards) e = true) : Computes S env (Emit.expr env e) (eval S.scope e) := by
  have := suits.tidy
  unfold Emit.expr
  cases env.classes.length with
  | zero => exact computes_exprWith suits sound calls (fun _ => inferInstance) e fits
  | succ depth => exact computes_exprWith suits sound calls (fun _ => inferInstance) e fits

/-- What is stored is generated like any other value. -/
theorem valueFor_eq {target : Sigil} {e : Expr} (fits : meant (kitOf env arity? guards) e = true) :
    Emit.valueFor env target e = Emit.expr env e := by
  cases e with
  | call i callee args =>
      simp only [meant, kitOf, callsFunc, Bool.and_eq_true, Option.isNone_iff_eq_none] at fits
      obtain ⟨⟨⟨⟨-, own⟩, -⟩, -⟩, -⟩ := fits
      have other : callee ≠ LibFunc.input.name := by
        rintro rfl
        cases own
      simp [Emit.valueFor, other]
  | _ => rfl

end Expressions

end Lantern.Meaning
