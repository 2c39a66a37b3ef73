import Lantern.Proofs.Exceptions
import Lantern.Proofs.Loops

/-!
# Code of guarded statements

A guarded statement is left in one of four ways: behind its code, by an exception that no handler
takes, by a jump out of it, or not at all. Wherever it is left, its last block is run once, from a
copy of its own; what is in flight meanwhile, the value of a return or an exception, lies in a word
of the frame that the last block does not touch.
-/

namespace Lantern.Meaning

open Assembly Machine
open Emit (Text Gen Env Emitting Lays lays_bind lays_emit lays_pure layout shown lastBlock?)

variable {W : Type} {S : Setting W} {env : Env} {ways : Ways}

/-! ## What is in flight -/

/-- An exception is to stay what it is. -/
def Keep.holding {H : Host W} {literal : String → Word} {pool : List String} (K : Keep H)
    (laws : Lawful H literal pool) (h : Word) : Keep H :=
  { K with
    alive := fun w => K.alive w ∧ (H.typeOf w h).isSome = true
    stable := fun w name known args ⟨alive, isException⟩ => by
      refine ⟨K.stable w name known args alive, ?_⟩
      obtain ⟨t, typed⟩ := Option.isSome_iff_exists.mp isException
      exact Option.isSome_of_eq_some (laws.lasting w name known args h t typed) }

theorem Keep.within_holding {H : Host W} {literal : String → Word} {pool : List String} (K : Keep H)
    (laws : Lawful H literal pool) (h v : Word) : (K.push v).Within ((K.holding laws h).push v) :=
  ⟨le_rfl, le_rfl, fun _ _ _ => rfl, fun _ alive => alive.1⟩

/-- Puts another word into the temporary on top, where an exception is held from now on. -/
theorem Ready.hold {v h : Word} {i : Int} {K : Keep S.scope.host} {g : Gen} {st : State W}
    {m : Machine W} {Q : Machine W → Prop}
    (laws : Lawful S.scope.host S.scope.literal S.text.pool) (ready : Ready S env (K.push v) g st m)
    (top : i = K.high)
    (laid : S.text.code[g.code.size]? = some ⟨.mov, [.slot i, Emit.rdx], ""⟩)
    (suits : Suits S env) (rdx : m.rdx = h)
    (isException : (S.scope.host.typeOf st.world h).isSome = true)
    (rest : ∀ n, m.clock ≤ n.clock →
      Ready S env ((K.holding laws h).push h) (g.push .mov [.slot i, Emit.rdx]) st n →
      Reach S.scope.host S.routines S.noted n Q) :
    Reach S.scope.host S.routines S.noted m Q := by
  subst top
  have high : K.high + 1 = env.locals.length + 1 + g.temps := ready.high
  have effect : m.exec S.scope.host S.routines .mov [.slot K.high, Emit.rdx] =
      .next { m with slots := Function.update m.slots K.high h }.next := by
    simp [Machine.exec, put, write, Machine.read, Emit.rdx, rdx]
  refine ready.here.next laid effect rfl rfl fun n _ seen clock here =>
    rest n (by omega) ⟨?_, here, ready.low, ready.floor, ready.high, ready.pool, ?_⟩
  · have free : (S.scope.locals.length : Int) ≤ K.high := by
      rw [← suits.locals]
      omega
    have on : On S K st n := (ready.on.within (K.within_push v)).setSlot free (.inr le_rfl) seen
    have slot : n.slots K.high = h := by
      rw [show n.slots = _ from congrArg View.slots seen]
      exact Function.update_self ..
    have held : On S (K.holding laws h) st n :=
      { on with kept := on.kept, alive := ⟨on.alive, on.world ▸ isException⟩ }
    exact held.push slot
  · have := ready.fuel
    omega

/-! ## The record -/

/-- Notes an event where its statement starts. -/
theorem Ready.note {K : Keep S.scope.host} {g g' : Gen} {st : State W} {m : Machine W} {e : Event}
    {s : Stmt} {env' : Env} {X : Exit → State W → Machine W → Prop}
    {Q : Unit → State W → Machine W → Prop} {rest : Act W Unit} (ready : Ready S env K g st m)
    (noted : S.noted) (lays : Lays S.text (Emit.stmt env' s) g () g') (starts : e.start? = some s)
    (goOn : ∀ st' n, Ready S env K g st' n → n.clock = m.clock → Refines S X rest st' n Q) :
    Refines S X (do Meaning.note e; rest) st m Q := by
  have begins : m.Starts e := by
    refine ⟨s, starts, env', g, g', lays.run, ?_, ready.here.pc.symm⟩
    rw [ready.here.code]
    exact lays.code
  refine Reach.note noted begins (goOn { st with trace := st.trace ++ [e] } _ ?_ rfl)
  have on := ready.on
  exact ⟨⟨⟨on.globals, on.world, congrArg (· ++ [e]) on.trace⟩, on.code, on.params, on.saved,
    on.callers, on.args, on.locals, on.kept, on.alive⟩, ⟨ready.here.code, ready.here.pc⟩, ready.low,
    ready.floor, ready.high, ready.pool, ready.fuel⟩

/-! ## Last blocks -/

/-- What is done last. -/
def lastly (sc : Scope W) : Option Stmt → Act W Unit
  | some l => do note (.last l); exec sc l
  | none => return ()

/-- A last block leaves its routine by exceptions only. -/
theorem Exits.of_none {loops : List Emit.LoopFrame} {K : Keep S.scope.host} {e : Exit} {st : State W}
    {m : Machine W} (left : Exits S { env with loops := loops } .none K e st m) :
    Exits S env ways K e st m := by
  cases e with
  | break_ => exact absurd left.1 (by simp [Ways.none])
  | continue_ => exact absurd left.1 (by simp [Ways.none])
  | return_ v => exact absurd left.1 (by simp [Ways.none])
  | thrown h => exact left
  | trap | cut | stray => exact left

/-- A copy of the last block runs the last block. -/
theorem refines_lastly {last : Option Stmt} {loops : List Emit.LoopFrame} {K : Keep S.scope.host}
    {g g' : Gen} {st : State W} {m : Machine W} (ways : Ways) (ready : Ready S env K g st m) (noted : S.noted)
    (final : ∀ l ∈ last, ∀ loops, Simulates S { env with loops := loops } .none
      (Emit.stmt { env with loops := loops } l) (exec S.scope l))
    (lays : Lays S.text (Emit.stmt? { env with loops := loops } last) g () g') :
    Refines S (Exits S env ways K) (lastly S.scope last) st m fun _ st' m' =>
      Ready S env K g' st' m' := by
  cases last with
  | none =>
      obtain ⟨-, rfl⟩ := lays_pure.mp lays
      exact Refines.here rfl ready
  | some l =>
      refine ready.note noted lays rfl fun st₁ m₁ ready₁ _ => ?_
      refine Refines.mono (final l rfl loops lays (ready₁.recast rfl) (by simp [Ways.none]))
        (fun _ _ _ _ h => h.of_none) ?_
      rintro _ st₂ m₂ - ready₂
      exact ready₂.recast rfl

/-! ## Handlers -/

/-- Tests whether a handler takes an exception. -/
theorem Ready.testCatch {type next t : String} {h : Word} {i : Int} {K : Keep S.scope.host}
    {g g' gₙ : Gen} {st : State W} {m : Machine W} (ready : Ready S env K g st m)
    (suits : Suits S env) (sound : Sound S)
    (laws : Lawful S.scope.host S.scope.literal S.text.pool) (named : spelled type = true)
    (lays : Lays S.text (Emit.testCatch (.slot i) type next) g () g') (held : m.slots i = h)
    (typed : S.scope.host.typeOf st.world h = some t)
    (nextL : S.text.code[gₙ.code.size]? = some ⟨.label, [.label next], ""⟩)
    (temps : gₙ.temps = g.temps) (pool : gₙ.pool <+: S.text.pool) :
    Reach S.scope.host S.routines S.noted m fun n =>
      if type.isEmpty || some t == some type then Ready S env K g' st n
      else Ready S env K gₙ st n := by
  unfold Emit.testCatch at lays
  cases any : type.isEmpty with
  | true =>
      simp only [any, if_true] at lays
      obtain ⟨-, rfl⟩ := lays_pure.mp lays
      exact Reach.done ready
  | false =>
      simp only [any, Bool.false_eq_true, if_false, lays_bind, lays_emit, Emit.lays_str, layout,
        shown] at lays
      obtain ⟨g₁, typeL, pooled, g₂, compareL, test, jnz, rfl⟩ := lays
      refine ready.ask [h] typeL sound (by decide) (by simp [held]) (by simp)
        fun m₁ rax₁ _ ready₁ => ?_
      obtain ⟨mem, address, ready₁⟩ := ready₁.string sound pooled
      refine ready₁.ask [m₁.rax, S.scope.literal type] compareL sound (by decide)
        (by simp [address]) (by simp) fun m₂ rax₂ _ ready₂ => ?_
      obtain ⟨world, equal⟩ := laws.compared st.world h t typed type mem named
      rw [rax₁] at rax₂ ready₂
      have same : asked S.scope.host "strcmp" [(S.scope.host.answer st.world "lm_exception_type"
          [h]).rax, S.scope.literal type] (asked S.scope.host "lm_exception_type" [h] st) = st := by
        simp only [asked, String.reduceEq, if_false, world]
      rw [same] at ready₂
      change m₂.rax = (S.scope.host.answer (S.scope.host.answer st.world "lm_exception_type"
        [h]).world "strcmp" _).rax at rax₂
      rw [← rax₂] at equal
      refine ready₂.next test rfl rfl rfl fun m₃ regs₃ _ ready₃ => ?_
      refine ready₃.jumpIf (!·.zero) jnz rfl (congrArg Regs.flags regs₃) suits.distinct
        nextL (by simp [temps, compareL.temps, typeL.temps]) pool (fun taken m₄ _ _ ready₄ => Reach.done ?_)
        fun fallen m₄ _ _ ready₄ => Reach.done ?_
      · have other : t ≠ type := by simpa [equal] using taken
        simpa [other] using ready₄
      · have same : t = type := by simpa [equal] using fallen
        simpa [same] using ready₄

theorem tidy_lastBlock (tidy : env.Tidy) (last : Option Stmt) :
    ∀ l ∈ lastBlock? env last, ∀ loops, Emit.Tidy 0 (l.run loops) := by
  intro l own loops
  cases last with
  | none => simp [lastBlock?] at own
  | some last =>
      obtain rfl : _ = l := by simpa [lastBlock?] using own
      exact inferInstanceAs (Emit.Tidy 0 (Emit.stmt { env with loops := loops } last))

theorem Suits.guarded (suits : Suits S env) (last : Option Stmt) {label : String} {k : Nat}
    (placed : Placed S.text.code label k) : Suits S (env.guarded label (lastBlock? env last)) :=
  ⟨Emit.tidy_guarded suits.tidy label _ (tidy_lastBlock suits.tidy last), suits.distinct,
    suits.locals, suits.classes, rfl, fun _ => ⟨k, placed⟩⟩

section Handlers

variable {K : Keep S.scope.host} {last : Option Stmt} {catchExit lastL : String}

/-- The first handler that takes an exception runs; where none does, all have been passed. -/
theorem refines_handlers {cs : List Catch} {h : Word} {all : Bool} {p : Nat} {g g' gₗ : Gen}
    {st : State W} {m : Machine W} (laws : Lawful S.scope.host S.scope.literal S.text.pool)
    (ready : Ready S env ((K.holding laws h).push h) g st m) (suits : Suits S env) (sound : Sound S)
    (noted : S.noted) (low : ways.return_ = true → K.low = env.locals.length + 1)
    (room : K.low ≤ K.high) (placed : Placed S.text.code catchExit p)
    (bodies : ∀ c ∈ cs, Simulates S (env.guarded catchExit (lastBlock? env last)) ways
      (Emit.stmt (env.guarded catchExit (lastBlock? env last)) c.body) (exec S.scope c.body))
    (names : ∀ c ∈ cs, env.isVariable c.name = true) (types : ∀ c ∈ cs, spelled c.type = true)
    (lays : Lays S.text (Emit.handlers (env.guarded catchExit (lastBlock? env last)) (.slot K.high)
      lastL cs) g all g')
    (lastAt : S.text.code[gₗ.code.size]? = some ⟨.label, [.label lastL], ""⟩)
    (temps : gₗ.temps = g.temps) (pool : gₗ.pool <+: S.text.pool) :
    Refines S (fun e st' m' =>
      Exits S (env.guarded catchExit (lastBlock? env last)) ways ((K.holding laws h).push h) e st' m' ∨
        e = .thrown h ∧ all = false ∧ Ready S env ((K.holding laws h).push h) g' st' m')
      (handle S.scope h cs) st m fun _ st' m' =>
        Ready S env ((K.holding laws h).push h) gₗ st' m' := by
  have suits' := suits.guarded last placed
  have := suits'.tidy
  induction cs generalizing g st m with
  | nil =>
      obtain ⟨rfl, rfl⟩ := lays_pure.mp lays
      rw [handle]
      exact Refines.left rfl (Or.inr ⟨rfl, rfl, ready⟩)
  | cons c cs ih =>
      have others (c' : Catch) (mem : c' ∈ cs) : c' ∈ c :: cs := by simp [mem]
      have bodies := Emit.tidy_catches (env.guarded catchExit (lastBlock? env last)) suits'.tidy cs
      have := Emit.tidy_handlers bodies (.slot K.high) lastL
      rw [Emit.handlers_cons] at lays
      simp only [lays_bind, lays_emit, layout, shown] at lays
      obtain ⟨g₁, testL, mov, g₂, storeL, g₃, bodyL, jmp, nextL, restL⟩ := lays
      have held {g : Gen} {st : State W} {m : Machine W}
          (ready : Ready S env ((K.holding laws h).push h) g st m) : m.slots K.high = h := by
        have kept := ready.on.kept K.high room (Int.lt_succ _)
        simpa [Keep.push, Keep.holding] using kept
      obtain ⟨t, typed⟩ : ∃ t, S.scope.host.typeOf st.world h = some t :=
        Option.isSome_iff_exists.mp (ready.on.world ▸ ready.on.alive.2)
      obtain ⟨at_, type, name, body⟩ := c
      have pool₁ := testL.pool ready.pool
      have pool₃ := bodyL.pool (storeL.pool pool₁)
      have bumped : Ready S env ((K.holding laws h).push h) g.bump st m := ready.moved rfl rfl rfl
      have tested := bumped.testCatch suits sound laws (types _ (by simp)) testL (held ready) typed
        nextL (by simp [bodyL.temps, storeL.temps, testL.temps]) pool₃
      rw [handle]
      refine Refines.get ?_
      rw [typed]
      refine Reach.bind tested fun m₁ later₁ landed => ?_
      split
      · next taken =>
          rw [if_pos taken] at landed
          have ready₁ : Ready S env ((K.holding laws h).push h) g₁ st m₁ := landed
          obtain ⟨place, found⟩ : ∃ place, env.lookup? name = some place :=
            Option.isSome_iff_exists.mp (names ⟨at_, type, name, body⟩ (by simp))
          have found' : (env.guarded catchExit (lastBlock? env last)).lookup? name = some place :=
            found
          simp only [Emit.store, found', lays_emit] at storeL
          obtain ⟨save, rfl⟩ := storeL
          refine ready₁.next mov rfl rfl rfl fun m₂ regs₂ _ ready₂ => ?_
          have rax₂ : m₂.rax = h := (congrArg Regs.rax regs₂).trans (held ready₁)
          refine ready₂.assign save suits found (congrArg some rax₂) fun m₃ _ _ ready₃ => ?_
          refine Refines.store (ready₃.note noted bodyL rfl fun st₄ m₄ ready₄ _ => ?_)
          have runs := bodies _ (by simp) bodyL (ready₄.recast rfl) low
          refine Refines.andThen (Refines.mono runs (fun _ _ _ _ h => .inl h) (fun _ _ _ _ h => h)) ?_
          rintro _ st₅ m₅ - ready₅
          exact ready₅.jump jmp suits.distinct lastAt rfl (by simp [temps, bodyL.temps, testL.temps])
            pool fun m₆ _ _ ready₆ => Reach.done (ready₆.recast rfl)
      · next passed =>
          rw [if_neg passed] at landed
          have ready₁ : Ready S env ((K.holding laws h).push h)
            (g₃.push .jmp [.label lastL]) st m₁ := landed
          have typed : type.isEmpty = false := by
            cases any : type.isEmpty with
            | true => simp [any] at passed
            | false => rfl
          simp only [typed, Bool.false_eq_true, if_false] at restL
          refine ready₁.next nextL rfl rfl rfl fun m₂ _ _ ready₂ => ?_
          exact ih ready₂ (fun c mem => bodies c (others c mem)) (fun c mem => names c (others c mem))
            (fun c mem => types c (others c mem)) restL
            (by simp [temps, bodyL.temps, storeL.temps, testL.temps])

end Handlers

/-! ## Jumps out of guarded statements -/

/-- A departure through a last block and others is one through the block and then the others. -/
theorem Stands.peel (env : Env) {env' : Env} {block : Emit.LastBlock} {rest : List Emit.LastBlock}
    {loops : List Emit.LoopFrame} {final : Emitting Unit} [Emit.Tidy 0 final]
    {K : Keep S.scope.host} {m : Machine W}
    (tidy : ∀ l ∈ block :: rest, ∀ loops, Emit.Tidy 0 (l.run loops))
    (stands : Stands S env' K (departure (block :: rest) loops final) m)
    (same : env'.locals = env.locals) :
    ∃ g g', Lays S.text (block.run loops) g () g' ∧ At S.text g m ∧ g.pool <+: S.text.pool ∧
      K.high ≤ env.locals.length + 1 + g.temps ∧
      ∀ m' : Machine W, At S.text g' m' → Stands S env K (departure rest loops final) m' := by
  obtain ⟨g, g', lays, here, pool, high⟩ := stands
  have first := tidy block (by simp) loops
  have others : Emit.Tidy 0 (departure rest loops final) :=
    tidy_departure (fun l mem => tidy l (by simp [mem])) loops final
  have split : departure (block :: rest) loops final =
      (do block.run loops; departure rest loops final) := by
    simp [departure]
  rw [split, lays_bind] at lays
  simp only [shown] at lays
  obtain ⟨mid, blockL, restL⟩ := lays
  rw [same] at high
  refine ⟨g, mid, blockL, here, pool, high, fun m' at_ =>
    ⟨mid, g', restL, at_, blockL.pool pool, ?_⟩⟩
  rw [blockL.temps]
  exact high

/-- Whether an exit is a jump out of a statement. -/
def Exit.isJump : Exit → Bool
  | .break_ | .continue_ | .return_ _ => true
  | _ => false

/-- A jump out of a guarded statement starts with a copy of the last block. -/
theorem Exits.peel {l : Stmt} {label : String} {e : Exit} {K : Keep S.scope.host} {st : State W}
    {m : Machine W} (jumps : e.isJump = true) (leads : Open env ways) (suits : Suits S env)
    (left : Exits S (env.guarded label (lastBlock? env (some l))) ways K e st m) :
    On S K st m ∧ ∃ loops g g', Lays S.text (Emit.stmt { env with loops := loops } l) g () g' ∧
      At S.text g m ∧ g.pool <+: S.text.pool ∧ K.high ≤ env.locals.length + 1 + g.temps ∧
      ∀ st' m', On S K st' m' → At S.text g' m' →
        m'.slots env.locals.length = m.slots env.locals.length → Exits S env ways K e st' m' := by
  have := suits.tidy
  have tidy (n : Nat) : ∀ b ∈ (⟨fun loops => Emit.stmt { env with loops := loops } l⟩ :
      Emit.LastBlock) :: env.lasts.take n, ∀ loops, Emit.Tidy 0 (b.run loops) := by
    intro b mem loops
    rcases List.mem_cons.mp mem with rfl | mem
    · exact inferInstanceAs (Emit.Tidy 0 (Emit.stmt { env with loops := loops } l))
    · exact suits.tidy.lasts b (List.mem_of_mem_take mem) loops
  have leaves (goOn : Bool) (allowed : ways.allows goOn = true)
      (leaves : Leaves S (env.guarded label (lastBlock? env (some l))) K goOn m) :
      ∃ loops g g', Lays S.text (Emit.stmt { env with loops := loops } l) g () g' ∧
        At S.text g m ∧ g.pool <+: S.text.pool ∧ K.high ≤ env.locals.length + 1 + g.temps ∧
        ∀ m' : Machine W, At S.text g' m' → Leaves S env K goOn m' := by
    obtain ⟨f, found, depth⟩ := leads goOn allowed
    obtain ⟨f', loops, found', stands⟩ := leaves
    obtain rfl : f' = f := Option.some.inj (found'.symm.trans found)
    have count : (env.guarded label (lastBlock? env (some l))).lasts.length - f'.depth =
        env.lasts.length - f'.depth + 1 := by
      simp only [Env.guarded, lastBlock?, Option.map_some, Option.toList_some, List.singleton_append,
        List.length_cons]
      omega
    rw [count] at stands
    obtain ⟨g, g', lays, here, pool, high, rest⟩ := Stands.peel env (tidy _) stands rfl
    exact ⟨loops, g, g', lays, here, pool, high, fun m' at_ => ⟨f', loops, found, rest m' at_⟩⟩
  cases e with
  | break_ =>
      obtain ⟨allowed, on, left⟩ := left
      obtain ⟨loops, g, g', lays, here, pool, high, rest⟩ := leaves false allowed left
      exact ⟨on, loops, g, g', lays, here, pool, high, fun st' m' on' at_ _ =>
        ⟨allowed, on', rest m' at_⟩⟩
  | continue_ =>
      obtain ⟨allowed, on, left⟩ := left
      obtain ⟨loops, g, g', lays, here, pool, high, rest⟩ := leaves true allowed left
      exact ⟨on, loops, g, g', lays, here, pool, high, fun st' m' on' at_ _ =>
        ⟨allowed, on', rest m' at_⟩⟩
  | return_ v =>
      obtain ⟨allowed, on, ⟨loops, value, stands⟩ | ⟨none, -⟩⟩ := left
      · have tidy := tidy env.lasts.length
        rw [List.take_length] at tidy
        obtain ⟨g, g', lays, here, pool, high, rest⟩ := Stands.peel env tidy stands rfl
        exact ⟨on, loops, g, g', lays, here, pool, high, fun st' m' on' at_ kept =>
          ⟨allowed, on', .inl ⟨loops, kept.trans value, rest m' at_⟩⟩⟩
      · simp [Env.guarded, lastBlock?] at none
  | thrown | trap | cut | stray => simp [Exit.isJump] at jumps

/-- Where the exceptions go does not matter to other exits. -/
theorem Exits.relabel {label : String} (label' : String) {last : Option Emit.LastBlock} {e : Exit}
    {K : Keep S.scope.host} {st : State W} {m : Machine W} (other : ∀ h, e ≠ .thrown h)
    (left : Exits S (env.guarded label last) ways K e st m) :
    Exits S (env.guarded label' last) ways K e st m := by
  cases e with
  | thrown h => exact absurd rfl (other h)
  | break_ | continue_ | trap | cut | stray => exact left
  | return_ v => exact left

/-- All of the frame that is in use is kept as it is. -/
def Keep.frame {H : Host W} (K : Keep H) (m : Machine W) (low high : Int) : Keep H :=
  { K with value := m.slots, low := low, high := high }

/-- A jump out of a guarded statement runs a copy of the last block and goes on with the rest. -/
theorem refines_jump {l : Stmt} {e : Exit} {K : Keep S.scope.host} {g : Gen} {st₀ st : State W}
    {m₀ m : Machine W} {Q : Unit → State W → Machine W → Prop} (outer : Ready S env K g st₀ m₀)
    (later : m₀.clock ≤ m.clock) (suits : Suits S env) (noted : S.noted) (leads : Open env ways)
    (final : ∀ loops, Simulates S { env with loops := loops } .none
      (Emit.stmt { env with loops := loops } l) (exec S.scope l))
    (jumps : e.isJump = true)
    (left : Exits S (env.guarded "" (lastBlock? env (some l))) ways K e st m) :
    Refines S (Exits S env ways K) (do lastly S.scope (some l); throw e) st m Q := by
  obtain ⟨on, loops, g₁, g₂, lays, here, pool, high, rest⟩ := left.peel jumps leads suits
  have low := outer.low
  have inside : K.Within (K.frame m env.locals.length (env.locals.length + 1 + g₁.temps)) :=
    ⟨low, high, fun i above below => on.kept i above below, fun _ => id⟩
  have ready : Ready S env (K.frame m env.locals.length (env.locals.length + 1 + g₁.temps)) g₁ st m :=
    ⟨{ on with kept := fun _ _ _ => rfl, alive := on.alive }, here, le_rfl, Int.le_add_one le_rfl, rfl,
      pool, by have := outer.fuel; omega⟩
  refine Refines.bind (refines_lastly ways ready noted (by simpa using final) lays)
    (fun _ _ _ _ h => h.within inside) ?_
  rintro _ st₁ m₁ - ready₁
  refine Refines.left rfl (rest st₁ m₁ (ready₁.on.within inside) ready₁.here ?_)
  exact ready₁.on.kept _ le_rfl (by simp only [Keep.frame]; omega)

/-! ## Guarded statements -/

/-- Where the guarded part of a statement is left: with an exception at the label where it is raised
    again, and otherwise like any statement inside. -/
def Unguarded (S : Setting W) (env : Env) (ways : Ways) (last : Option Stmt)
    (laws : Lawful S.scope.host S.scope.literal S.text.pool) (K : Keep S.scope.host) (gᵣ : Gen) :
    Exit → State W → Machine W → Prop
  | .thrown h, st, m => Ready S env ((K.holding laws h).push h) gᵣ st m
  | e, st, m => Exits S (env.guarded "" (lastBlock? env last)) ways K e st m

/-- The body and the handlers end where the last block of the normal end stands. -/
theorem refines_guarded (ways : Ways) {body : Stmt} {cs : List Catch} {last : Option Stmt}
    {catchL catchExit rethrow lastL : String} {all : Bool} {K : Keep S.scope.host} {w : Word}
    {g g₁ g₂ g₃ gₗ : Gen} {st : State W} {m : Machine W}
    (laws : Lawful S.scope.host S.scope.literal S.text.pool)
    (ready : Ready S env (K.push w) g st m) (suits : Suits S env) (sound : Sound S)
    (noted : S.noted) (low : ways.return_ = true → K.low = env.locals.length + 1)
    (room : K.low ≤ K.high)
    (inner : ∀ label k, Placed S.text.code label k →
      Simulates S (env.guarded label (lastBlock? env last)) ways
        (Emit.stmt (env.guarded label (lastBlock? env last)) body) (exec S.scope body))
    (bodies : ∀ label k, Placed S.text.code label k → ∀ c ∈ cs,
      Simulates S (env.guarded label (lastBlock? env last)) ways
        (Emit.stmt (env.guarded label (lastBlock? env last)) c.body) (exec S.scope c.body))
    (names : ∀ c ∈ cs, env.isVariable c.name = true) (types : ∀ c ∈ cs, spelled c.type = true)
    (bodyL : Lays S.text (Emit.stmt (env.guarded catchL (lastBlock? env last)) body) g () g₁)
    (leave : S.text.code[g₁.code.size]? = some ⟨.jmp, [.label lastL], ""⟩)
    (catchAt : S.text.code[(g₁.push .jmp [.label lastL]).code.size]? =
      some ⟨.label, [.label catchL], ""⟩)
    (save : S.text.code[((g₁.push .jmp [.label lastL]).push .label [.label catchL]).code.size]? =
      some ⟨.mov, [.slot K.high, Emit.rdx], ""⟩)
    (handlersL : Lays S.text (Emit.handlers (env.guarded catchExit (lastBlock? env last))
      (.slot K.high) lastL cs) (((g₁.push .jmp [.label lastL]).push .label [.label catchL]).push .mov
        [.slot K.high, Emit.rdx]) all g₂)
    (skipL : Lays S.text (Emit.jumpUnless all rethrow) g₂ () g₃)
    (exitAt : S.text.code[g₃.code.size]? = some ⟨.label, [.label catchExit], ""⟩)
    (save' : S.text.code[(g₃.push .label [.label catchExit]).code.size]? =
      some ⟨.mov, [.slot K.high, Emit.rdx], ""⟩)
    (rethrowAt : S.text.code[((g₃.push .label [.label catchExit]).push .mov
      [.slot K.high, Emit.rdx]).code.size]? = some ⟨.label, [.label rethrow], ""⟩)
    (lastAt : S.text.code[gₗ.code.size]? = some ⟨.label, [.label lastL], ""⟩)
    (temps : gₗ.temps = g.temps) (pool : gₗ.pool <+: S.text.pool) :
    Refines S (Unguarded S env ways last laws K
        ((g₃.push .label [.label catchExit]).push .mov [.slot K.high, Emit.rdx]))
      (tryCatch (exec S.scope body) fun
        | .thrown h => handle S.scope h cs
        | e => throw e) st m fun _ st' m' => ∃ v, Ready S env (K.push v) gₗ st' m' := by
  have placedCatch : Placed S.text.code catchL _ := ⟨_, catchAt, by simp [places]⟩
  have placedExit : Placed S.text.code catchExit _ := ⟨_, exitAt, by simp [places]⟩
  have suitsCatch := suits.guarded last placedCatch
  have := suitsCatch.tidy
  have suitsExit := suits.guarded last placedExit
  have := suitsExit.tidy
  have := Emit.tidy_handlers (Emit.tidy_catches _ suitsExit.tidy cs) (.slot K.high) lastL
  have jump {label : String} {v : Word} {e : Exit} {st' : State W} {m' : Machine W}
      (other : ∀ h, e ≠ .thrown h)
      (left : Exits S (env.guarded label (lastBlock? env last)) ways (K.push v) e st' m') :
      Unguarded S env ways last laws K
        ((g₃.push .label [.label catchExit]).push .mov [.slot K.high, Emit.rdx]) e st' m' := by
    have left := (left.within (K.within_push v)).relabel "" other
    cases e with
    | thrown h => exact absurd rfl (other h)
    | break_ | continue_ | trap | cut | stray => exact left
    | return_ v => exact left
  refine Refines.catch_ (inner catchL _ placedCatch bodyL (ready.recast rfl) low) ?_ ?_
  · rintro _ st₁ m₁ - ready₁
    exact ready₁.jump leave suits.distinct lastAt rfl (by simp [temps, bodyL.temps]) pool
      fun m₂ _ _ ready₂ => Reach.done ⟨w, ready₂.recast rfl⟩
  · intro e st₁ m₁ later left
    cases e with
    | thrown h =>
        obtain ⟨on, rdx, isException, at_⟩ := left
        have pool₁ := bodyL.pool ready.pool
        have ready₁ := Ready.arrive on at_ suits.distinct catchAt ready later bodyL.temps pool₁
        refine ready₁.next catchAt rfl rfl rfl fun m₂ regs₂ later₂ ready₂ => ?_
        refine ready₂.hold laws rfl save suits ((congrArg Regs.rdx regs₂).trans rdx) isException
          fun m₃ later₃ ready₃ => ?_
        have pool₃ := skipL.pool (handlersL.pool ready₃.pool)
        refine Refines.settle (refines_handlers laws ready₃ suits sound noted low room placedExit
          (bodies catchExit _ placedExit) names types handlersL lastAt (by simp [temps, bodyL.temps])
          pool) ?_ ?_
        · rintro _ st₄ m₄ - ready₄
          exact Reach.done ⟨h, ready₄.loosen (K.within_holding laws h h) rfl rfl⟩
        · rintro e st₄ m₄ later₄ (left | ⟨rfl, rfl, ready₄⟩)
          · have left := left.within (K.within_holding laws h h)
            cases e with
            | thrown h' =>
                obtain ⟨on, rdx, isException, at_⟩ := left
                have ready₄ := Ready.arrive on at_ suits.distinct exitAt
                  (ready₃.loosen (K.within_holding laws h h) rfl rfl) later₄
                  (by simp [skipL.temps, handlersL.temps]) pool₃
                refine ready₄.next exitAt rfl rfl rfl fun m₅ regs₅ _ ready₅ => ?_
                exact ready₅.hold laws rfl save' suits ((congrArg Regs.rdx regs₅).trans rdx)
                  isException fun m₆ _ ready₆ => Reach.done ready₆
            | break_ => exact Reach.done (jump (by simp) left)
            | continue_ => exact Reach.done (jump (by simp) left)
            | return_ v => exact Reach.done (jump (by simp) left)
            | trap | cut | stray => exact Reach.done (jump (by simp) left)
          · simp only [Emit.jumpUnless, Bool.not_false, if_true, layout] at skipL
            obtain ⟨jmp, rfl⟩ := skipL
            exact ready₄.jump jmp suits.distinct rethrowAt rfl (by simp) pool₃
              fun m₅ _ _ ready₅ => Reach.done ready₅
    | break_ => exact Refines.left rfl (jump (by simp) left)
    | continue_ => exact Refines.left rfl (jump (by simp) left)
    | return_ v => exact Refines.left rfl (jump (by simp) left)
    | trap | cut | stray => exact Refines.left rfl (jump (by simp) left)

theorem ensuring_nothing (x : Act W Unit) : ensuring (pure ()) x = x := by
  funext st
  show (ensuring (pure ()) x).from st = x.from st
  unfold ensuring
  rw [Refines.from_bind, Refines.from_tryCatch, Refines.from_bind]
  cases x.from st with
  | mk result st' =>
      cases result with
      | ok u => rfl
      | error e => cases e <;> rfl

/-- The record of an entry into a statement with a last block. -/
def entering (body : Stmt) : Option Stmt → Act W Unit
  | some l => note (.enter body l)
  | none => return ()

theorem exec_try (sc : Scope W) (at_ : Span) (body : Stmt) (cs : List Catch) (last : Option Stmt) :
    exec sc (.try_ at_ body cs last) = ensuring (lastly sc last) (do
      entering body last
      tryCatch (exec sc body) fun
        | .thrown h => handle sc h cs
        | e => throw e) := by
  cases last with
  | none =>
      simp only [exec, lastly, entering, pure_bind]
      exact (ensuring_nothing _).symm
  | some l =>
      exact (exec.eq_def sc (.try_ at_ body cs (some l))).trans rfl

/-- What is left of a statement after its guarded part: the last block, and then whatever led here. -/
theorem refines_ensuring {last : Option Stmt} {x : Act W Unit}
    {X' X : Exit → State W → Machine W → Prop} {P Q : Unit → State W → Machine W → Prop}
    {st : State W} {m : Machine W} (first : Refines S X' x st m P)
    (ends : ∀ st' m', m.clock ≤ m'.clock → P () st' m' → Refines S X (lastly S.scope last) st' m' Q)
    (transfers : ∀ e st' m', e.isTransfer = true → m.clock ≤ m'.clock → X' e st' m' →
      Refines S X (do lastly S.scope last; throw e) st' m' Q)
    (others : ∀ e st' m', e.isTransfer = false → X' e st' m' → X e st' m') :
    Refines S X (ensuring (lastly S.scope last) x) st m Q := by
  unfold ensuring
  refine Refines.bind (Y := X) (P := fun way st' m' => m.clock ≤ m'.clock ∧
    way.elim (P () st' m') fun e => e.isTransfer = true ∧ X' e st' m') ?_ (fun _ _ _ _ h => h) ?_
  · refine Refines.catch_ (Y := X') (P := fun way st' m' => way = none ∧ P () st' m') ?_ ?_ ?_
    · refine Refines.bind first (fun _ _ _ _ h => h) ?_
      rintro _ st₁ m₁ - h
      exact Refines.here rfl ⟨rfl, h⟩
    · rintro _ st₁ m₁ later ⟨rfl, h⟩
      exact Reach.done ⟨later, h⟩
    · intro e st₁ m₁ later left
      cases kind : e.isTransfer with
      | true => exact Refines.here (a := some e) rfl ⟨later, kind, left⟩
      | false => exact Refines.left rfl (others e st₁ m₁ kind left)
  · rintro way st₁ m₁ - ⟨later, left⟩
    cases way with
    | none =>
        refine Refines.bind (ends st₁ m₁ later left) (fun _ _ _ _ h => h) ?_
        rintro _ st₂ m₂ - h
        exact Refines.here rfl h
    | some e => exact transfers e st₁ m₁ left.1 later left.2

-- The layout of a guarded statement is long.
set_option synthInstance.maxSize 1000 in
theorem simulates_try {at_ : Span} {body : Stmt} {cs : List Catch} {last : Option Stmt}
    (suits : Suits S env) (sound : Sound S)
    (laws : Lawful S.scope.host S.scope.literal S.text.pool) (noted : S.noted)
    (leads : Open env ways)
    (inner : ∀ label k, Placed S.text.code label k →
      Simulates S (env.guarded label (lastBlock? env last)) ways
        (Emit.stmt (env.guarded label (lastBlock? env last)) body) (exec S.scope body))
    (bodies : ∀ label k, Placed S.text.code label k → ∀ c ∈ cs,
      Simulates S (env.guarded label (lastBlock? env last)) ways
        (Emit.stmt (env.guarded label (lastBlock? env last)) c.body) (exec S.scope c.body))
    (names : ∀ c ∈ cs, env.isVariable c.name = true) (types : ∀ c ∈ cs, spelled c.type = true)
    (final : ∀ l ∈ last, ∀ loops, Simulates S { env with loops := loops } .none
      (Emit.stmt { env with loops := loops } l) (exec S.scope l)) :
    Simulates S env ways (Emit.stmt env (.try_ at_ body cs last))
      (exec S.scope (.try_ at_ body cs last)) := by
  intro K g g' st m lays ready low
  have := suits.tidy
  have (label : String) : (env.guarded label (lastBlock? env last)).Tidy :=
    Emit.tidy_guarded suits.tidy label _ (tidy_lastBlock suits.tidy last)
  have (env' : Env) [tidy' : env'.Tidy] (exc : Operand) (lastL : String) :=
    Emit.tidy_handlers (Emit.tidy_catches env' tidy' cs) exc lastL
  rw [Emit.stmt_try] at lays
  simp only [lays_bind, lays_emit, layout, shown] at lays
  obtain ⟨g₁, bodyL, leave, catchAt, save, all, g₂, handlersL, g₃, skipL, exitAt, save', rethrowAt, g₄,
    firstL, reload, g₅, raiseL, lastAt, g₆, secondL, endAt, done⟩ := lays
  rw [exec_try]
  have high := ready.high
  have floor := ready.floor
  have slot : (env.locals.length + 1 + g.bump.bump.bump.bump.bump.temps : Int) = K.high := by
    simp [high]
  simp only [slot] at *
  have pool₁ := bodyL.pool ready.pool
  have pool₃ := skipL.pool (handlersL.pool pool₁)
  have pool₄ := firstL.pool pool₃
  have pool₅ := raiseL.pool pool₄
  have taken : Ready S env (K.push (m.slots K.high)) g.bump.bump.bump.bump.bump.lift st m :=
    Ready.lift (g := g.bump.bump.bump.bump.bump) (ready.moved rfl rfl rfl) rfl
  have temps₅ : g₅.temps = g.bump.bump.bump.bump.bump.lift.temps := by
    simp [raiseL.temps, firstL.temps, skipL.temps, handlersL.temps, bodyL.temps]
  have guarded {st₁ : State W} {m₁ : Machine W}
      (ready₁ : Ready S env (K.push (m.slots K.high)) g.bump.bump.bump.bump.bump.lift st₁ m₁) :=
    refines_guarded ways laws ready₁ suits sound noted low (by omega) inner bodies names
      types bodyL leave catchAt save handlersL skipL exitAt save' rethrowAt lastAt temps₅ pool₅
  have entered : Refines S (Unguarded S env ways last laws K
        ((g₃.push .label [.label (Emit.tag "catchexit" g.bump.labels)]).push .mov
          [.slot K.high, Emit.rdx]))
      (do
        entering body last
        tryCatch (exec S.scope body) fun
          | .thrown h => handle S.scope h cs
          | e => throw e) st m fun _ st' m' => ∃ v, Ready S env (K.push v) g₅ st' m' := by
    cases last with
    | none => exact guarded taken
    | some l => exact taken.note noted bodyL rfl fun st₁ m₁ ready₁ _ => guarded ready₁
  refine refines_ensuring entered ?_ ?_ ?_
  · rintro st₁ m₁ later ⟨v, ready₁⟩
    refine ready₁.next lastAt rfl rfl rfl fun m₂ _ later₂ ready₂ => ?_
    refine Refines.settle (refines_lastly ways ready₂ noted final
      secondL) ?_ fun _ _ _ _ h => Reach.done (h.within (K.within_push v))
    rintro _ st₃ m₃ - ready₃
    exact ready₃.next endAt rfl rfl rfl fun m₄ _ _ ready₄ =>
      Reach.done (done ▸ ready₄.pop (show Ready S env K g st m from ready))
  · intro e st₁ m₁ transfer later left
    cases e with
    | thrown h =>
        have ready₁ : Ready S env ((K.holding laws h).push h) _ st₁ m₁ := left
        have inside : K.Within ((K.holding laws h).push h) :=
          (K.within_push h).trans (K.within_holding laws h h)
        refine ready₁.next rethrowAt rfl rfl rfl fun m₂ _ _ ready₂ => ?_
        refine Refines.bind (refines_lastly ways ready₂ noted final
          firstL) (fun _ _ _ _ h => h.within inside) ?_
        rintro _ st₃ m₃ - ready₃
        have held : m₃.slots K.high = h := by
          have kept := ready₃.on.kept K.high (show K.low ≤ K.high by omega) (Int.lt_succ _)
          simpa [Keep.push, Keep.holding] using kept
        refine ready₃.next reload rfl rfl rfl fun m₄ regs₄ _ ready₄ => ?_
        have raised : Reach S.scope.host S.routines S.noted m₄
            (Exits S env ways ((K.holding laws h).push h) (.thrown h) st₃) :=
          ready₄.raise raiseL suits noted ((congrArg Regs.rdx regs₄).trans held)
            (ready₄.on.world ▸ ready₄.on.alive.2)
        exact Reach.mono raised fun _ _ h => h.within inside
    | break_ =>
        cases last with
        | none => exact Refines.left rfl left
        | some l => exact refines_jump ready later suits noted leads (final l rfl) rfl left
    | continue_ =>
        cases last with
        | none => exact Refines.left rfl left
        | some l => exact refines_jump ready later suits noted leads (final l rfl) rfl left
    | return_ v =>
        cases last with
        | none => exact Refines.left rfl left
        | some l => exact refines_jump ready later suits noted leads (final l rfl) rfl left
    | trap | cut | stray => simp [Exit.isTransfer] at transfer
  · intro e st₁ m₁ other left
    cases e with
    | trap | cut | stray => exact left
    | break_ | continue_ | return_ | thrown => simp [Exit.isTransfer] at other

end Lantern.Meaning
