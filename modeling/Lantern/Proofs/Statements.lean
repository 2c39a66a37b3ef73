import Lantern.Proofs.Expressions

/-!
# Code of simple statements

Statements that run straight through, choices between statements, and the statements that leave
others: where the machine stands when a statement is left says which code is still to run.
-/

namespace Lantern.Meaning

open Assembly Machine
open Emit (Text Gen Env Emitting Lays lays_bind lays_emit lays_pure layout shown)

variable {W : Type} {S : Setting W} {env : Env} {ways : Ways}

/-- Whether a loop may be left: for its next round if `goOn`. -/
def Ways.allows (ways : Ways) (goOn : Bool) : Bool := if goOn then ways.continue_ else ways.break_

/-- The ways in which code may be left lead somewhere. -/
def Open (env : Env) (ways : Ways) : Prop :=
  ∀ goOn, ways.allows goOn = true →
    ∃ l, (env.loops.find? fun l => !(goOn && l.isSwitch)) = some l ∧ l.depth ≤ env.lasts.length

/-- Code that carries out a computation without a value. -/
def Simulates (S : Setting W) (env : Env) (ways : Ways) (x : Emitting Unit) (act : Act W Unit) :
    Prop :=
  ∀ ⦃K : Keep S.scope.host⦄ ⦃g g' : Gen⦄ ⦃st : State W⦄ ⦃m : Machine W⦄, Lays S.text x g () g' →
    Ready S env K g st m → (ways.return_ = true → K.low = env.locals.length + 1) →
      Refines S (Exits S env ways K) act st m fun _ st' m' => Ready S env K g' st' m'

theorem Simulates.congr {x : Emitting Unit} {act act' : Act W Unit}
    (simulates : Simulates S env ways x act) (same : act' = act) : Simulates S env ways x act' :=
  same ▸ simulates

theorem simulates_nothing : Simulates S env ways (pure ()) (pure ()) := by
  intro K g g' st m lays ready _
  obtain ⟨-, rfl⟩ := lays_pure.mp lays
  exact Refines.here rfl ready

theorem simulates_seq {x y : Emitting Unit} {first second : Act W Unit} [Emit.Grows x]
    [Emit.Grows y] (one : Simulates S env ways x first) (two : Simulates S env ways y second) :
    Simulates S env ways (do x; y) (do first; second) := by
  intro K g g' st m lays ready low
  simp only [lays_bind, shown] at lays
  obtain ⟨g₁, firstL, secondL⟩ := lays
  refine Refines.bind (one firstL ready low) (fun _ _ _ _ h => h) ?_
  rintro _ st₁ m₁ - ready₁
  exact two secondL ready₁ low

theorem simulates_discard {x : Emitting Unit} {act : Act W Word} (value : Computes S env x act) :
    Simulates S env ways x (discard act) := by
  intro K g g' st m lays ready _
  refine Refines.bind (value lays ready) (fun _ _ _ _ h => h) ?_
  rintro v st₁ m₁ - ⟨-, ready₁⟩
  exact Refines.here rfl ready₁

theorem simulates_store {x : Emitting Unit} {act : Act W Word} {name : String} {place : Operand}
    [Emit.Grows x] (suits : Suits S env) (at_ : Span) (found : env.lookup? name = some place)
    (value : Computes S env x act) :
    Simulates S env ways (do x; Emit.store env at_ name) (do store S.scope name (← act)) := by
  intro K g g' st m lays ready _
  simp only [Emit.store, found, lays_bind, lays_emit, shown] at lays
  obtain ⟨g₁, valueL, mov, rfl⟩ := lays
  refine Refines.bind (value valueL ready) (fun _ _ _ _ h => h) ?_
  rintro v st₁ m₁ - ⟨rfl, ready₁⟩
  exact ready₁.assign mov suits found rfl fun m₂ _ _ ready₂ => Refines.here rfl ready₂

/-! ## Printing -/

/-- Prints by a format what operands hold. -/
theorem Ready.printf {format : String} {ops : List Operand} {K : Keep S.scope.host} {g g' : Gen}
    {st : State W} {m : Machine W} {Q : Machine W → Prop} (ready : Ready S env K g st m)
    (vs : List Word) (sound : Sound S)
    (lays : Lays S.text (Emit.printf format ops) g () g')
    (values : ops.map (m.read S.scope.host) = vs.map some) (steady : ∀ o ∈ ops, Steady o)
    (rest : ∀ n, Ready S env K g'
      (asked S.scope.host "printf" (S.scope.host.address format :: vs) st) n → m.clock ≤ n.clock →
      Reach S.scope.host S.routines S.noted n Q) :
    Reach S.scope.host S.routines S.noted m Q := by
  refine ready.ask (S.scope.host.address format :: vs) lays sound (by decide) ?_ ?_
    fun n _ later ready => rest n ready later
  · simp [values, Emit.fixedAddr]
  · simpa [Emit.fixedAddr] using steady

/-- Replaces a truth value by its word. -/
theorem Ready.boolWord {K : Keep S.scope.host} {g g' : Gen} {st : State W} {m : Machine W}
    {Q : Machine W → Prop} (ready : Ready S env K g st m)
    (lays : Lays S.text Emit.boolWord g () g')
    (rest : ∀ n, n.rax = S.scope.host.address (if m.rax = 0 then "word_false" else "word_true") →
      m.clock ≤ n.clock → Ready S env K g' st n → Reach S.scope.host S.routines S.noted n Q) :
    Reach S.scope.host S.routines S.noted m Q := by
  simp only [Emit.boolWord, lays_bind, lays_emit, layout, shown] at lays
  obtain ⟨test, lea₁, lea₂, cmov, rfl⟩ := lays
  refine ready.test test fun m₁ f rax₁ flags₁ zero₁ later₁ ready₁ => ?_
  refine ready₁.next lea₁ rfl rfl rfl fun m₂ regs₂ later₂ ready₂ => ?_
  refine ready₂.next lea₂ rfl rfl rfl fun m₃ regs₃ later₃ ready₃ => ?_
  have flags₃ : m₃.flags = some f :=
    (congrArg Regs.flags regs₃).trans ((congrArg Regs.flags regs₂).trans flags₁)
  have rax₃ : m₃.rax = S.scope.host.address "word_false" :=
    (congrArg Regs.rax regs₃).trans (congrArg Regs.rax regs₂)
  have rbx₃ : m₃.rbx = S.scope.host.address "word_true" := congrArg Regs.rbx regs₃
  by_cases zero : m.rax = 0
  · have effect : m₃.exec S.scope.host S.routines .cmovnz [Emit.rax, Emit.rbx] = .next m₃.next := by
      simp [Machine.exec, holds?, flags₃, zero₁, zero]
    refine ready₃.next cmov effect rfl rfl fun m₄ regs₄ later₄ ready₄ =>
      rest m₄ ?_ (by omega) ready₄
    rw [if_pos zero, ← rax₃]
    exact congrArg Regs.rax regs₄
  · have effect : m₃.exec S.scope.host S.routines .cmovnz [Emit.rax, Emit.rbx] =
        .next { m₃ with rax := m₃.rbx }.next := by
      simp [Machine.exec, holds?, flags₃, zero₁, beq_false_of_ne zero, put, write, Machine.read,
        Emit.rax, Emit.rbx]
    refine ready₃.next cmov effect rfl rfl fun m₄ regs₄ later₄ ready₄ =>
      rest m₄ ?_ (by omega) ready₄
    rw [if_neg zero, ← rbx₃]
    exact congrArg Regs.rax regs₄

/-- Whether values of a sigil can be printed here. -/
def printable : Sigil → Bool
  | .int | .str | .bool => true
  | _ => false

theorem simulates_print {e : Expr} {act : Act W Word} (suits : Suits S env) (sound : Sound S)
    (single : Emit.mapEntry? e = none) (known : printable e.sigil = true)
    (value : Computes S env (Emit.expr env e) act) :
    Simulates S env ways (Emit.print env e) (do print S.scope (← act) e.sigil) := by
  intro K g g' st m lays ready _
  have := suits.tidy
  simp only [Emit.print, single, lays_bind, shown] at lays
  obtain ⟨g₂, valueL, newline⟩ := lays
  have ends {v : Word} {args : List Word} {st₁ : State W} {n : Machine W}
      (printed : printed? S.scope v e.sigil = some args)
      (ready : Ready S env K g₂ (asked S.scope.host "printf" args st₁) n) :
      Refines S (Exits S env ways K) (print S.scope v e.sigil) st₁ n fun _ st' m' =>
        Ready S env K g' st' m' := by
    simp only [print, printed]
    exact ready.printf [] sound newline rfl (by simp) fun m₃ ready₃ _ =>
      Refines.here rfl ready₃
  have sigil : (Emit.value env e).sigil = e.sigil := rfl
  cases kind : e.sigil with
  | int =>
      simp only [Emit.printValue, sigil, kind, lays_bind, shown] at valueL
      obtain ⟨g₁, codeL, formatL⟩ := valueL
      refine Refines.bind (value codeL ready) (fun _ _ _ _ h => h) ?_
      rintro v st₁ m₁ - ⟨rfl, ready₁⟩
      refine ready₁.printf [m₁.rax] sound formatL (by simp) (by simp) fun m₂ ready₂ _ => ?_
      exact kind ▸ ends (by rw [kind, printed?]) ready₂
  | str =>
      simp only [Emit.printValue, sigil, kind, lays_bind, shown] at valueL
      obtain ⟨g₁, codeL, formatL⟩ := valueL
      refine Refines.bind (value codeL ready) (fun _ _ _ _ h => h) ?_
      rintro v st₁ m₁ - ⟨rfl, ready₁⟩
      refine ready₁.printf [m₁.rax] sound formatL (by simp) (by simp) fun m₂ ready₂ _ => ?_
      exact kind ▸ ends (by rw [kind, printed?]) ready₂
  | bool =>
      simp only [Emit.printValue, sigil, kind, lays_bind, shown] at valueL
      obtain ⟨g₁, codeL, g₃, wordL, formatL⟩ := valueL
      refine Refines.bind (value codeL ready) (fun _ _ _ _ h => h) ?_
      rintro v st₁ m₁ - ⟨rfl, ready₁⟩
      refine ready₁.boolWord wordL fun m₂ rax₂ _ ready₂ => ?_
      refine ready₂.printf [m₂.rax] sound formatL (by simp) (by simp) fun m₃ ready₃ _ => ?_
      exact kind ▸ ends (by rw [kind, printed?, rax₂]) ready₃
  | _ => simp [kind, printable] at known

/-! ## Choices -/

theorem simulates_ifElse {c : Expr} {a : Stmt} {b : Option Stmt} {at_ : Span} {cond : Act W Word}
    {yes no : Act W Unit} (suits : Suits S env) (test : Computes S env (Emit.expr env c) cond)
    (first : Simulates S env ways (Emit.stmt env a) yes)
    (second : Simulates S env ways (Emit.stmt? env b) no) :
    Simulates S env ways (Emit.stmt env (.ifElse at_ c a b)) (do
      if (← cond) = 0 then no else yes) := by
  intro K g g' st m lays ready low
  have := suits.tidy
  rw [Emit.stmt_ifElse] at lays
  simp only [lays_bind, layout, shown] at lays
  obtain ⟨g₁, condL, testL, jz, g₂, yesL, jmp, elseL, g₃, noL, endL, rfl⟩ := lays
  refine Refines.bind (test condL (ready.moved rfl rfl rfl)) (fun _ _ _ _ h => h) ?_
  rintro v st₁ m₁ - ⟨rfl, ready₁⟩
  refine ready₁.test testL fun m₂ f rax₂ flags₂ zero _ ready₂ => ?_
  have pool₂ := yesL.pool ready₂.pool
  refine ready₂.jumpIf (·.zero) jz rfl flags₂ suits.distinct elseL (by simp [yesL.temps])
    pool₂ (fun taken m₃ _ _ ready₃ => ?_) fun fallen m₃ _ _ ready₃ => ?_
  · have : m₁.rax = 0 := by simpa [zero] using taken
    simp only [this, if_true]
    refine ready₃.next elseL rfl rfl rfl fun m₄ _ _ ready₄ => ?_
    refine Refines.andThen (second noL ready₄ low) ?_
    rintro _ st₅ m₅ - ready₅
    exact ready₅.next endL rfl rfl rfl fun m₆ _ _ ready₆ => Reach.done ready₆
  · have : m₁.rax ≠ 0 := by simpa [zero] using fallen
    simp only [this, if_false]
    refine Refines.andThen (first yesL ready₃ low) ?_
    rintro _ st₄ m₄ - ready₄
    refine ready₄.jump jmp suits.distinct endL rfl (by simp [noL.temps]) (noL.pool pool₂)
      fun m₅ _ _ ready₅ => ?_
    exact ready₅.next endL rfl rfl rfl fun m₆ _ _ ready₆ => Reach.done ready₆

/-! ## Leaving -/

/-- The machine stands where the generator stood. -/
theorem Ready.stands {x : Emitting Unit} {K : Keep S.scope.host} {g g' : Gen} {st : State W}
    {m : Machine W} (ready : Ready S env K g st m) (lays : Lays S.text x g () g') :
    Stands S env K x m :=
  ⟨g, g', lays, ready.here, ready.pool, ready.high.le⟩

theorem simulates_leave {at_ : Span} (goOn : Bool) (allowed : ways.allows goOn = true)
    (leads : Open env ways) :
    Simulates S env ways (Emit.leave env at_ goOn)
      (throw (if goOn then .continue_ else .break_)) := by
  intro K g g' st m lays ready _
  obtain ⟨l, found, -⟩ := leads goOn allowed
  simp only [Emit.leave, found] at lays
  have leaves : Leaves S env K goOn m := ⟨l, env.loops, found, ready.stands lays⟩
  cases goOn with
  | true => exact Refines.left rfl ⟨allowed, ready.on, leaves⟩
  | false => exact Refines.left rfl ⟨allowed, ready.on, leaves⟩

/-- The value that a return leaves in `rax`. -/
def resultCode (env : Env) : Option Expr → Emitting Unit
  | some e => Emit.expr env e
  | none => Emit.zero

/-- A return: its value, and the last blocks if there are any. -/
theorem returnStmt_eq (env : Env) (e : Option Expr) : Emit.returnStmt env e = (do
    resultCode env e
    if env.lasts = [] then Emit.jump .jmp env.retLabel
    else do
      Emit.emit .mov [env.retSlot, Emit.rax]
      departure env.lasts env.loops do
        Emit.emit .mov [Emit.rax, env.retSlot]
        Emit.jump .jmp env.retLabel) := by
  unfold Emit.returnStmt departure Emit.replay resultCode
  cases e <;> cases lasts : env.lasts <;> simp

instance [env.Tidy] (e : Option Expr) : Emit.Tidy 0 (resultCode env e) := by
  cases e <;> unfold resultCode <;> infer_instance

theorem tidy_departure {lasts : List Emit.LastBlock}
    (each : ∀ l ∈ lasts, ∀ loops, Emit.Tidy 0 (l.run loops)) (loops : List Emit.LoopFrame)
    (final : Emitting Unit) [Emit.Tidy 0 final] : Emit.Tidy 0 (departure lasts loops final) := by
  have : Emit.Tidy 0 (lasts.forM fun l => l.run loops) := Emit.tidy_forM fun l mem => each l mem loops
  unfold departure
  infer_instance

theorem simulates_return {e : Option Expr} {act : Act W Word} (suits : Suits S env)
    (allowed : ways.return_ = true) (value : Computes S env (resultCode env e) act) :
    Simulates S env ways (Emit.returnStmt env e) (do throw (.return_ (← act))) := by
  intro K g g' st m lays ready low
  have := suits.tidy
  have (final : Emitting Unit) [Emit.Tidy 0 final] := tidy_departure suits.tidy.lasts env.loops final
  rw [returnStmt_eq] at lays
  by_cases none : env.lasts = []
  · simp only [none, if_true, lays_bind, shown] at lays
    obtain ⟨g₁, valueL, jumpL⟩ := lays
    refine Refines.bind (value valueL ready) (fun _ _ _ _ h => h) ?_
    rintro v st₁ m₁ - ⟨rfl, ready₁⟩
    exact Refines.left rfl ⟨allowed, ready₁.on, .inr ⟨none, rfl, ready₁.stands jumpL⟩⟩
  · simp only [none, if_false, lays_bind, lays_emit, shown] at lays
    obtain ⟨g₁, valueL, mov, departL⟩ := lays
    refine Refines.bind (value valueL ready) (fun _ _ _ _ h => h) ?_
    rintro v st₁ m₁ - ⟨rfl, ready₁⟩
    have low := low allowed
    refine ready₁.setSlot mov suits rfl le_rfl (.inl (by omega)) fun m₂ slot₂ _ _ ready₂ => ?_
    exact Refines.left rfl ⟨allowed, ready₂.on, .inl ⟨env.loops, slot₂, ready₂.stands departL⟩⟩

end Lantern.Meaning
