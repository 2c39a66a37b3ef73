import Lantern.Proofs.Statements

/-!
# Code of loops and switches

The code of a loop goes round as often as its meaning does. Leaving a round for the next one or for
the end of the loop is a jump to the label that the loop has put on its frame.
-/

namespace Lantern.Meaning

open Assembly Machine
open Emit (Text Gen Env Emitting Lays lays_bind lays_emit lays_pure layout shown)

variable {W : Type} {S : Setting W} {env : Env} {ways : Ways}

/-! ## Frames of loops -/

/-- Only the variables of an environment matter to where the machine is. -/
theorem Ready.recast {env' : Env} {K : Keep S.scope.host} {g : Gen} {st : State W} {m : Machine W}
    (ready : Ready S env K g st m) (same : env'.locals = env.locals) : Ready S env' K g st m :=
  ⟨ready.on, ready.here, same ▸ ready.low, same ▸ ready.floor, same ▸ ready.high, ready.pool,
    ready.fuel⟩

theorem Suits.inFrame (suits : Suits S env) (exit next : String) (isSwitch : Bool) :
    Suits S (env.inFrame exit next isSwitch) :=
  have := suits.tidy
  ⟨inferInstance, suits.distinct, suits.locals, suits.classes, suits.depth, suits.target⟩

theorem Suits.withLoops (suits : Suits S env) (loops : List Emit.LoopFrame) :
    Suits S { env with loops := loops } :=
  have := suits.tidy
  ⟨inferInstance, suits.distinct, suits.locals, suits.classes, suits.depth, suits.target⟩

theorem departure_nil (loops : List Emit.LoopFrame) (final : Emitting Unit) :
    departure [] loops final = final := by
  simp [departure]

/-- Follows a jump to a label of the code around. -/
theorem Stands.land {l : String} {K : Keep S.scope.host} {g₀ : Gen} {st₀ st : State W}
    {m₀ m : Machine W} {Q : Machine W → Prop} (stands : Stands S env K (Emit.jump .jmp l) m) (g' : Gen)
    (on : On S K st m) (outer : Ready S env K g₀ st₀ m₀) (later : m₀.clock ≤ m.clock)
    (distinct : Distinct S.text.code)
    (target : S.text.code[g'.code.size]? = some ⟨.label, [.label l], ""⟩)
    (temps : g'.temps = g₀.temps) (pool : g'.pool <+: S.text.pool)
    (rest : ∀ n, regs n = regs m → m.clock < n.clock → Ready S env K g' st n →
      Reach S.scope.host S.routines S.noted n Q) :
    Reach S.scope.host S.routines S.noted m Q := by
  obtain ⟨g, _, jumpL, here, -, -⟩ := stands
  simp only [layout] at jumpL
  refine here.jump jumpL.1 distinct target rfl fun n regs view clock here' =>
    rest n regs (by omega) ⟨on.same view, here', outer.low, outer.floor, temps ▸ outer.high, pool, ?_⟩
  have := outer.fuel
  omega

/-- Inside a frame, the frame itself is what `break` leaves and, but for switches, `continue` too. -/
theorem frame_found (exit next : String) {isSwitch goOn : Bool}
    (own : (goOn && isSwitch) = false) :
    ((env.inFrame exit next isSwitch).loops.find? fun l => !(goOn && l.isSwitch)) =
      some ⟨exit, next, isSwitch, env.lasts.length⟩ := by
  simp only [Env.inFrame, List.find?_cons, own, Bool.not_false]

/-- Leaving for the frame at hand is a jump to one of its labels. -/
theorem Leaves.stands {exit next : String} {isSwitch goOn : Bool} {K : Keep S.scope.host}
    {m : Machine W} (leaves : Leaves S (env.inFrame exit next isSwitch) K goOn m)
    (own : (goOn && isSwitch) = false) :
    Stands S env K (Emit.jump .jmp (if goOn then next else exit)) m := by
  obtain ⟨l, loops, found, stands⟩ := leaves
  rw [frame_found exit next own] at found
  obtain rfl := Option.some.inj found
  have none : (env.inFrame exit next isSwitch).lasts.length - env.lasts.length = 0 := Nat.sub_self _
  rw [none, List.take_zero, departure_nil] at stands
  exact stands

/-! ## Rounds -/

/-- The ways in which the body of a loop may be left. -/
def Ways.inLoop (ways : Ways) : Ways := ⟨true, true, ways.return_⟩

theorem open_inLoop (exit next : String) : Open (env.inFrame exit next false) ways.inLoop := by
  intro goOn _
  exact ⟨_, frame_found exit next (Bool.and_false goOn), le_rfl⟩

/-- A round of a loop ends behind its code or at one of the labels of the loop. -/
theorem refines_round {x : Emitting Unit} {act : Act W Unit} {exit next : String}
    {K : Keep S.scope.host} {g g' gₑ gₙ : Gen} {st : State W} {m : Machine W}
    (ready : Ready S env K g st m) (distinct : Distinct S.text.code)
    (low : ways.return_ = true → K.low = env.locals.length + 1)
    (body : Simulates S (env.inFrame exit next false) ways.inLoop x act)
    (lays : Lays S.text x g () g')
    (exitL : S.text.code[gₑ.code.size]? = some ⟨.label, [.label exit], ""⟩)
    (nextL : S.text.code[gₙ.code.size]? = some ⟨.label, [.label next], ""⟩)
    (tempsₑ : gₑ.temps = g.temps) (tempsₙ : gₙ.temps = g.temps) (poolₑ : gₑ.pool <+: S.text.pool)
    (poolₙ : gₙ.pool <+: S.text.pool) :
    Refines S (Exits S env ways K) (round act) st m fun goOn st' m' =>
      if goOn then Ready S env K g' st' m' ∨ Ready S env K gₙ st' m'
      else Ready S env K gₑ st' m' := by
  have run := body lays (ready.recast rfl) low
  refine Refines.catch_ (Y := Exits S (env.inFrame exit next false) ways.inLoop K)
    (P := fun b st' m' => b = true ∧ Ready S env K g' st' m') ?_ ?_ ?_
  · refine Refines.bind run (fun _ _ _ _ h => h) ?_
    rintro _ st₁ m₁ - ready₁
    exact Refines.here rfl ⟨rfl, ready₁.recast rfl⟩
  · rintro _ st₁ m₁ - ⟨rfl, ready₁⟩
    exact Reach.done (.inl ready₁)
  · intro e st₁ m₁ later left
    cases e with
    | break_ =>
        obtain ⟨-, on, leaves⟩ := left
        exact (leaves.stands rfl).land _ on ready later distinct exitL tempsₑ poolₑ
          fun m₂ _ _ ready₂ => Refines.here rfl ready₂
    | continue_ =>
        obtain ⟨-, on, leaves⟩ := left
        exact (leaves.stands rfl).land _ on ready later distinct nextL tempsₙ poolₙ
          fun m₂ _ _ ready₂ => Refines.here rfl (.inr ready₂)
    | return_ v => exact Refines.left rfl left
    | thrown h => exact Refines.left rfl left
    | trap | cut | stray => exact Refines.left rfl left

/-- What goes round in the code goes round in the meaning. Each round takes time, so that a loop that
    is cut has run for as long as it was to be followed. -/
theorem refines_rounds {once : Act W Bool} {X : Exit → State W → Machine W → Prop}
    (between : State W → Machine W → Prop) {done : State W → Machine W → Prop}
    (cut : ∀ st m, between st m → S.limit ≤ m.clock → X .cut st m)
    (turn : ∀ st m, between st m → Refines S X once st m fun goOn st' m' =>
      if goOn then between st' m' ∧ m.clock < m'.clock else done st' m') (n : Nat) {st : State W}
    {m : Machine W} (start : between st m) (fuel : S.limit ≤ m.clock + n) :
    Refines S X (rounds n once) st m fun _ => done := by
  induction n generalizing st m with
  | zero => exact Refines.left rfl (cut st m start fuel)
  | succ n ih =>
      refine Refines.bind (turn st m start) (fun _ _ _ _ h => h) ?_
      intro goOn st₁ m₁ _ ends
      cases goOn with
      | true => exact ih ends.1 (by have := ends.2; omega)
      | false => exact Refines.here rfl ends

/-- A machine whose fuel is used up has been followed long enough. -/
theorem Ready.cut {K : Keep S.scope.host} {g : Gen} {st : State W} {m : Machine W}
    (ready : Ready S env K g st m) (limit : S.limit ≤ m.clock) : Exits S env ways K .cut st m :=
  ⟨limit, ready.on.trace⟩

theorem simulates_while {at_ : Span} {c : Expr} {body : Stmt} {cond : Act W Word} {act : Act W Unit}
    (suits : Suits S env) (test : Computes S env (Emit.expr env c) cond)
    (inner : ∀ exit next, Simulates S (env.inFrame exit next false) ways.inLoop
      (Emit.stmt (env.inFrame exit next false) body) act) :
    Simulates S env ways (Emit.stmt env (.while_ at_ c body)) (rounds S.scope.fuel do
      if (← cond) = 0 then return false else round act) := by
  intro K g g' st m lays ready low
  have := suits.tidy
  rw [Emit.stmt_while] at lays
  simp only [lays_bind, layout, shown] at lays
  obtain ⟨loopL, nextL, g₁, condL, testL, jz, g₂, bodyL, jmp, endL, done⟩ := lays
  have start : Ready S env K g.bump.bump.bump st m := ready.moved rfl rfl rfl
  refine refines_rounds (fun st m => Ready S env K g.bump.bump.bump st m ∨
    Ready S env K (g.bump.bump.bump.push .label [.label (Emit.tag "loop" g.labels)]) st m)
    ?_ ?_ _ (.inl start) ready.fuel
  · rintro st₁ m₁ (ready₁ | ready₁) limit
    · exact ready₁.cut limit
    · exact ready₁.cut limit
  · have turn {st₁ : State W} {m₁ : Machine W} (ready₁ : Ready S env K
        (g.bump.bump.bump.push .label [.label (Emit.tag "loop" g.labels)]) st₁ m₁) :
        Refines S (Exits S env ways K) (do if (← cond) = 0 then return false else round act) st₁ m₁
          fun goOn st' m' => if goOn then (Ready S env K g.bump.bump.bump st' m' ∨
            Ready S env K (g.bump.bump.bump.push .label [.label (Emit.tag "loop" g.labels)]) st' m') ∧
              m₁.clock < m'.clock else Ready S env K g' st' m' := by
      refine ready₁.next nextL rfl rfl rfl fun m₂ _ later₂ ready₂ => ?_
      refine Refines.bind (test condL ready₂) (fun _ _ _ _ h => h) ?_
      rintro v st₃ m₃ later₃ ⟨rfl, ready₃⟩
      refine ready₃.test testL fun m₄ f rax₄ flags₄ zero later₄ ready₄ => ?_
      have pool₄ := bodyL.pool ready₄.pool
      refine ready₄.jumpIf (·.zero) jz rfl flags₄ suits.distinct endL
        (by simp [bodyL.temps]) pool₄ (fun taken m₅ _ _ ready₅ => ?_)
        fun fallen m₅ _ later₅ ready₅ => ?_
      · have : m₃.rax = 0 := by simpa [zero] using taken
        simp only [this, if_true]
        exact ready₅.next endL rfl rfl rfl fun m₆ _ _ ready₆ => Refines.here rfl (done ▸ ready₆)
      · have : m₃.rax ≠ 0 := by simpa [zero] using fallen
        simp only [this, if_false]
        refine Refines.andThen (refines_round ready₅ suits.distinct low (inner _ _) bodyL endL nextL
          (by simp [bodyL.temps]) (by simp [condL.temps]) pool₄ ready₁.pool) ?_
        intro goOn st₆ m₆ later₆ ends
        cases goOn with
        | true =>
            rcases ends with ready₆ | ready₆
            · refine ready₆.jump jmp suits.distinct loopL rfl (by simp [bodyL.temps, condL.temps])
                ready.pool fun m₇ _ later₇ ready₇ => Reach.done ⟨.inl ready₇, ?_⟩
              omega
            · exact Reach.done ⟨.inr ready₆, by omega⟩
        | false => exact Ready.next ends endL rfl rfl rfl fun m₇ _ _ ready₇ => Reach.done (done ▸ ready₇)
    rintro st₁ m₁ (ready₁ | ready₁)
    · refine ready₁.next loopL rfl rfl rfl fun m₂ _ later₂ ready₂ => ?_
      refine Refines.mono (turn ready₂) (fun _ _ _ _ h => h) ?_
      rintro goOn st₃ m₃ - ends
      cases goOn with
      | true => exact ⟨ends.1, by have := ends.2; omega⟩
      | false => exact ends
    · exact turn ready₁

theorem simulates_doWhile {at_ : Span} {c : Expr} {body : Stmt} {cond : Act W Word}
    {act : Act W Unit} (suits : Suits S env) (test : Computes S env (Emit.expr env c) cond)
    (inner : ∀ exit next, Simulates S (env.inFrame exit next false) ways.inLoop
      (Emit.stmt (env.inFrame exit next false) body) act) :
    Simulates S env ways (Emit.stmt env (.doWhile at_ body c)) (rounds S.scope.fuel do
      if ← round act then return (← cond) != 0 else return false) := by
  intro K g g' st m lays ready low
  have := suits.tidy
  rw [Emit.stmt_doWhile] at lays
  simp only [lays_bind, layout, shown] at lays
  obtain ⟨loopL, g₁, bodyL, nextL, g₂, condL, testL, jnz, endL, done⟩ := lays
  refine refines_rounds (Ready S env K g.bump.bump.bump)
    (fun _ _ ready₁ limit => ready₁.cut limit) ?_ _ (ready.moved rfl rfl rfl) ready.fuel
  intro st₁ m₁ ready₁
  refine ready₁.next loopL rfl rfl rfl fun m₂ _ later₂ ready₂ => ?_
  have pool₁ := bodyL.pool ready₂.pool
  refine Refines.bind (refines_round ready₂ suits.distinct low (inner _ _) bodyL endL nextL
    (by simp [bodyL.temps, condL.temps]) (by simp [bodyL.temps]) (condL.pool pool₁) pool₁)
    (fun _ _ _ _ h => h) ?_
  intro goOn st₃ m₃ later₃ ends
  cases goOn with
  | false => exact Ready.next ends endL rfl rfl rfl fun m₄ _ _ ready₄ =>
      Refines.here rfl (done ▸ ready₄)
  | true =>
      have ready₃ : Ready S env K g₁ st₃ m₃ := ends.elim id id
      refine ready₃.next nextL rfl rfl rfl fun m₄ _ later₄ ready₄ => ?_
      refine Refines.bind (test condL ready₄) (fun _ _ _ _ h => h) ?_
      rintro v st₅ m₅ later₅ ⟨rfl, ready₅⟩
      refine ready₅.test testL fun m₆ f rax₆ flags₆ zero later₆ ready₆ => ?_
      refine ready₆.jumpIf (!·.zero) jnz rfl flags₆ suits.distinct loopL
        (by simp [bodyL.temps, condL.temps]) ready.pool (fun taken m₇ _ later₇ ready₇ => ?_)
        fun fallen m₇ _ _ ready₇ => ?_
      · have goes : (m₅.rax != 0) = true := by simpa [zero] using taken
        refine Refines.here rfl ?_
        rw [goes]
        exact ⟨ready₇, by omega⟩
      · have stops : (m₅.rax != 0) = false := by simpa [zero] using fallen
        refine ready₇.next endL rfl rfl rfl fun m₈ _ _ ready₈ => Refines.here rfl ?_
        rw [stops]
        exact done ▸ ready₈

/-- Whether a loop goes on: it does where it has no condition. -/
def goesOn (sc : Scope W) : Option Expr → Act W Bool
  | some c => do return (← eval sc c) != 0
  | none => return true

/-- The condition of a loop ends behind its code or at the end of the loop. -/
theorem refines_loopTest {exit : String} {cond : Option Expr} {K : Keep S.scope.host} {g g' gₑ : Gen}
    {st : State W} {m : Machine W} (ready : Ready S env K g st m) (suits : Suits S env)
    (test : ∀ c ∈ cond, Computes S env (Emit.expr env c) (eval S.scope c))
    (lays : Lays S.text (Emit.loopTest env exit cond) g () g')
    (exitL : S.text.code[gₑ.code.size]? = some ⟨.label, [.label exit], ""⟩)
    (temps : gₑ.temps = g.temps) (pool : gₑ.pool <+: S.text.pool) :
    Refines S (Exits S env ways K) (goesOn S.scope cond) st m fun goOn st' m' =>
      if goOn then Ready S env K g' st' m' else Ready S env K gₑ st' m' := by
  have := suits.tidy
  cases cond with
  | none =>
      obtain ⟨-, rfl⟩ := lays_pure.mp lays
      exact Refines.here rfl ready
  | some c =>
      simp only [Emit.loopTest, lays_bind, layout, shown] at lays
      obtain ⟨g₁, condL, testL, jz, rfl⟩ := lays
      refine Refines.bind (test c rfl condL ready) (fun _ _ _ _ h => h) ?_
      rintro v st₁ m₁ - ⟨rfl, ready₁⟩
      refine ready₁.test testL fun m₂ f rax₂ flags₂ zero _ ready₂ => ?_
      refine ready₂.jumpIf (·.zero) jz rfl flags₂ suits.distinct exitL
        (by simp [temps, condL.temps]) pool (fun taken m₃ _ _ ready₃ => ?_)
        fun fallen m₃ _ _ ready₃ => ?_
      · have stops : (m₁.rax != 0) = false := by simpa [zero] using taken
        refine Refines.here rfl ?_
        rw [stops]
        exact ready₃
      · have goes : (m₁.rax != 0) = true := by simpa [zero] using fallen
        refine Refines.here rfl ?_
        rw [goes]
        exact ready₃

theorem simulates_for {at_ : Span} {cond : Option Expr} {init post : Option Stmt} {body : Stmt}
    {start step act : Act W Unit} (suits : Suits S env)
    (test : ∀ c ∈ cond, Computes S env (Emit.expr env c) (eval S.scope c))
    (before : Simulates S env ways (Emit.stmt? env init) start)
    (after : Simulates S env ways (Emit.stmt? env post) step)
    (inner : ∀ exit next, Simulates S (env.inFrame exit next false) ways.inLoop
      (Emit.stmt (env.inFrame exit next false) body) act) :
    Simulates S env ways (Emit.stmt env (.for_ at_ init cond post body)) (do
      start
      rounds S.scope.fuel do
        if ← goesOn S.scope cond then
          if ← round act then
            step
            return true
          else return false
        else return false) := by
  intro K g g' st m lays ready low
  have := suits.tidy
  rw [Emit.stmt_for] at lays
  simp only [lays_bind, layout, shown] at lays
  obtain ⟨g₁, initL, loopL, g₂, testL, g₃, bodyL, nextL, g₄, postL, jmp, endL, done⟩ := lays
  refine Refines.bind (before initL (ready.moved rfl rfl rfl) low) (fun _ _ _ _ h => h) ?_
  rintro _ st₁ m₁ - ready₁
  refine refines_rounds (Ready S env K g₁)
    (fun _ _ ready₂ limit => ready₂.cut limit) ?_ _ ready₁ ready₁.fuel
  intro st₂ m₂ ready₂
  refine ready₂.next loopL rfl rfl rfl fun m₃ _ later₃ ready₃ => ?_
  have pool₃ := bodyL.pool (testL.pool ready₃.pool)
  have pool₄ := postL.pool pool₃
  refine Refines.bind (refines_loopTest ready₃ suits test testL endL
    (by simp [postL.temps, bodyL.temps, testL.temps]) pool₄) (fun _ _ _ _ h => h) ?_
  intro goOn st₄ m₄ later₄ ends
  cases goOn with
  | false => exact Ready.next ends endL rfl rfl rfl fun m₅ _ _ ready₅ =>
      Refines.here rfl (done ▸ ready₅)
  | true =>
      refine Refines.bind (refines_round ends suits.distinct low (inner _ _) bodyL endL nextL
        (by simp [postL.temps, bodyL.temps]) bodyL.temps pool₄ pool₃) (fun _ _ _ _ h => h) ?_
      intro goOn st₅ m₅ later₅ ends
      cases goOn with
      | false => exact Ready.next ends endL rfl rfl rfl fun m₆ _ _ ready₆ =>
          Refines.here rfl (done ▸ ready₆)
      | true =>
          have ready₅ : Ready S env K g₃ st₅ m₅ := ends.elim id id
          refine ready₅.next nextL rfl rfl rfl fun m₆ _ later₆ ready₆ => ?_
          refine Refines.bind (after postL ready₆ low) (fun _ _ _ _ h => h) ?_
          rintro _ st₇ m₇ later₇ ready₇
          refine ready₇.jump jmp suits.distinct loopL rfl
            (by simp [postL.temps, bodyL.temps, testL.temps]) ready₁.pool fun m₈ _ later₈ ready₈ => ?_
          exact Refines.here rfl ⟨ready₈, by omega⟩

end Lantern.Meaning
