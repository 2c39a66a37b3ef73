import Lantern.Proofs.Statements

/-!
# Code of exceptions

What the run-time library is relied on for exceptions, and the code that raises them, tests their
types and carries them past last blocks.
-/

namespace Lantern.Emit

open Assembly

/-- Exceptions are delivered without running last blocks on the way. -/
def Env.Settled (env : Env) : Prop := env.lasts.length ≤ env.target.depth

theorem Env.Settled.raise {env : Env} (settled : env.Settled) : raise env = jump .jmp env.target.label := by
  have none_ : ¬env.target.depth < env.lasts.length := Nat.not_lt.mpr settled
  simp only [Emit.raise, none_, if_false]

theorem Env.Settled.checkException {env : Env} (settled : env.Settled) : checkException env = (do
    emit .test [rdx, rdx]
    jump .jnz env.target.label) := by
  have direct : env.lasts.length ≤ env.target.depth := settled
  simp only [Emit.checkException, direct, if_true]

end Lantern.Emit

namespace Lantern.Meaning

open Assembly Machine
open Emit (Text Gen Env Emitting Lays lays_bind lays_emit lays_pure layout shown)

/-- Whether the library sees the whole of a string: a zero would end it early. -/
def spelled (s : String) : Bool := !s.toList.contains '\x00'

/-- What the run-time library does about exceptions: one that was made has its type as long as the
    program runs, and looking at the type changes nothing. -/
structure Lawful {W : Type} (H : Host W) (literal : String → Word) (pool : List String) : Prop where
  nothing : ∀ w, H.typeOf w 0 = none
  lasting : ∀ w, ∀ name ∈ library, ∀ args h t, H.typeOf w h = some t →
    H.typeOf (H.answer w name args).world h = some t
  created : ∀ w, ∀ s ∈ pool, spelled s = true → ∀ message,
    let a := H.answer w "lm_exception_new" [literal s, message]
    H.typeOf a.world a.rax = some s
  compared : ∀ w h t, H.typeOf w h = some t → ∀ s ∈ pool, spelled s = true →
    let type := H.answer w "lm_exception_type" [h]
    let order := H.answer type.world "strcmp" [type.rax, literal s]
    order.world = w ∧ (lowHalf order.rax = 0 ↔ t = s)

variable {W : Type} {S : Setting W} {env : Env} {ways : Ways}

/-! ## Raising -/

/-- Delivers an exception to its target. -/
theorem Ready.raise {K : Keep S.scope.host} {g g' : Gen} {st : State W} {m : Machine W} {h : Word}
    (ready : Ready S env K g st m) (lays : Lays S.text (Emit.raise env) g () g')
    (suits : Suits S env) (noted : S.noted) (rdx : m.rdx = h)
    (isException : (S.scope.host.typeOf st.world h).isSome = true) :
    Reach S.scope.host S.routines S.noted m (Exits S env ways K (.thrown h) st) := by
  have direct : ¬env.target.depth < env.lasts.length := suits.depth.ge.not_gt
  simp only [Emit.raise, direct, if_false, layout] at lays
  obtain ⟨k, target⟩ := suits.target noted
  exact ready.depart lays.1 suits.distinct target rfl fun n regs _ on pc =>
    Reach.done ⟨on, (congrArg Regs.rdx regs).trans rdx, isException, pc ▸ target⟩

/-- Turns the value in `rax` into the exception that throwing it raises. -/
def exceptionCode (type : String) (sigil : Sigil) : Emitting Unit :=
  if type.isEmpty && sigil.isObject then pure ()
  else do
    if sigil.isStr then pure () else Emit.call "lm_to_string" [Emit.rax]
    let name ← Emit.str (if type.isEmpty then Emit.defaultExceptionType else type)
    Emit.call "lm_exception_new" [name, Emit.rax]

theorem throwStmt_eq (env : Env) (type : String) (e : Expr) : Emit.throwStmt env type e = (do
    Emit.expr env e
    exceptionCode type e.sigil
    Emit.emit .mov [Emit.rdx, Emit.rax]
    Emit.raise env) := by
  unfold Emit.throwStmt exceptionCode
  cases type.isEmpty <;> cases e.sigil.isObject <;> cases e.sigil.isStr <;> simp

instance (type : String) (sigil : Sigil) : Emit.Tidy 0 (exceptionCode type sigil) := by
  unfold exceptionCode
  infer_instance

/-- The address of a string that the generator put into the pool. -/
theorem Ready.string {s : String} {K : Keep S.scope.host} {g : Gen} {st : State W} {m : Machine W}
    (ready : Ready S env K g st m) (sound : Sound S)
    (pooled : g.pool <+: S.text.pool → (g.pooled s).pool <+: S.text.pool) :
    s ∈ S.text.pool ∧
      S.scope.host.address (Emit.poolLabel (g.pool.idxOf s)) = S.scope.literal s ∧
      Ready S env K (g.pooled s) st m := by
  have inside := pooled ready.pool
  have mem : s ∈ (g.pooled s).pool := by
    simp only [Gen.pooled, addNew]
    split <;> simp_all
  refine ⟨inside.subset mem, ?_, ready.on, ⟨ready.here.code, ready.here.pc⟩, ready.low, ready.floor,
    ready.high, inside, ready.fuel⟩
  rw [sound.literal, idxOf_pooled inside]

/-- Makes a new exception with the message in `rax`. -/
theorem Ready.newException {s : String} {K : Keep S.scope.host} {g g' : Gen} {st : State W}
    {m : Machine W} (ready : Ready S env K g st m) (sound : Sound S)
    (laws : Lawful S.scope.host S.scope.literal S.text.pool) (named : spelled s = true)
    (lays : Lays S.text (do
      let name ← Emit.str s
      Emit.call "lm_exception_new" [name, Emit.rax]) g () g') :
    Refines S (Exits S env ways K) (Meaning.ask S.scope "lm_exception_new" [S.scope.literal s, m.rax]) st m
      fun h st' m' => m'.rax = h ∧ (S.scope.host.typeOf st'.world h).isSome = true ∧
        Ready S env K g' st' m' := by
  simp only [lays_bind, Emit.lays_str, shown] at lays
  obtain ⟨pooled, callL⟩ := lays
  obtain ⟨mem, address, ready⟩ := ready.string sound pooled
  refine ready.ask [S.scope.literal s, m.rax] callL sound (by decide) (by simp [address])
    (by simp) fun n rax _ ready' => ?_
  refine Refines.here rfl ⟨rax, ?_, ready'⟩
  have made := laws.created st.world s mem named m.rax
  exact Option.isSome_of_eq_some made

theorem computes_exception {type : String} {sigil : Sigil} (sound : Sound S)
    (laws : Lawful S.scope.host S.scope.literal S.text.pool) (named : spelled type = true)
    {K : Keep S.scope.host} {g g' : Gen} {st : State W} {m : Machine W}
    (lays : Lays S.text (exceptionCode type sigil) g () g') (ready : Ready S env K g st m) :
    Refines S (Exits S env ways K) (exception S.scope type sigil m.rax) st m fun h st' m' =>
      m'.rax = h ∧ (S.scope.host.typeOf st'.world h).isSome = true ∧ Ready S env K g' st' m' := by
  have spelled : spelled (if type.isEmpty then Emit.defaultExceptionType else type) = true := by
    split
    · decide
    · exact named
  unfold exceptionCode at lays
  unfold exception
  cases whole : type.isEmpty && sigil.isObject with
  | true =>
      simp only [whole, if_true] at lays ⊢
      obtain ⟨-, rfl⟩ := lays_pure.mp lays
      refine Refines.get ?_
      split
      · next isException => exact Refines.here rfl ⟨rfl, isException, ready⟩
      · exact Refines.left (e := .stray) rfl trivial
  | false =>
      simp only [whole, Bool.false_eq_true, if_false] at lays ⊢
      cases isStr : sigil.isStr with
      | true =>
          simp only [isStr, if_true, pure_bind] at lays ⊢
          exact ready.newException sound laws spelled lays
      | false =>
          simp only [isStr, Bool.false_eq_true, if_false] at lays ⊢
          rw [lays_bind] at lays
          obtain ⟨_, g₁, callL, newL⟩ := lays
          refine ready.ask [m.rax] callL sound (by decide) (by simp) (by simp)
            fun m₁ rax₁ _ ready₁ => ?_
          have made : Refines S (Exits S env ways K) _ _ m₁ _ := ready₁.newException sound laws spelled newL
          rw [rax₁] at made
          exact made

theorem simulates_throw {type : String} {e : Expr} {act : Act W Word} (suits : Suits S env)
    (sound : Sound S) (laws : Lawful S.scope.host S.scope.literal S.text.pool) (noted : S.noted)
    (named : spelled type = true) (value : Computes S env (Emit.expr env e) act) :
    Simulates S env ways (Emit.throwStmt env type e) (do
      let v ← act
      throw (.thrown (← exception S.scope type e.sigil v))) := by
  intro K g g' st m lays ready _
  have := suits.tidy
  rw [throwStmt_eq] at lays
  simp only [lays_bind, lays_emit, shown] at lays
  obtain ⟨g₁, valueL, g₂, exceptionL, mov, raiseL⟩ := lays
  refine Refines.bind (value valueL ready) (fun _ _ _ _ h => h) ?_
  rintro v st₁ m₁ - ⟨rfl, ready₁⟩
  refine Refines.bind (computes_exception sound laws named exceptionL ready₁) (fun _ _ _ _ h => h) ?_
  rintro h st₂ m₂ - ⟨rfl, isException, ready₂⟩
  refine ready₂.next mov rfl rfl rfl fun m₃ regs₃ _ ready₃ => ?_
  have raised : Reach S.scope.host S.routines S.noted m₃ (Exits S env ways K (.thrown m₂.rax) st₂) :=
    ready₃.raise raiseL suits noted (congrArg Regs.rdx regs₃) isException
  exact raised

end Lantern.Meaning
