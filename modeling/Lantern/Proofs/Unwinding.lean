import Lantern.Proofs.Arithmetic
import Lantern.Proofs.Images
import Lantern.Proofs.Nesting

/-!
# Unwinding

However a guarded statement is left, its last block runs once, inner ones before outer ones, and the
routine ends as its body means. That holds of every call in a program and of its top-level statements,
as long as no last block leaves for a place outside of itself; a computation that never ends is
followed for as long as one likes.
-/

namespace Lantern

open Assembly Machine Meaning
open Emit (Gen Env Text Lays lays_bind lays_emit lays_pure layout shown)

namespace Meaning

/-! ## The end of the main routine -/

section

variable {W : Type} {S : Setting W} {env : Env} {K : Keep S.scope.host} {st : State W} {m : Machine W}

/-- Where the main routine is when an exception has come to its end: it is about to report it. -/
def Reports (h : Word) (m : Machine W) : Prop :=
  m.code[m.pc]? = some ⟨.call, [.label "lm_exception_uncaught"], ""⟩ ∧ m.args = [h]

/-- Where the main routine is that does not come to its end. -/
def MainEnds (S : Setting W) (K : Keep S.scope.host) : Exit → State W → Machine W → Prop
  | .thrown h, st, m => Outside st m ∧ m.code = S.text.code ∧ Reports h m
  | e, st, m => Ends S K e st m

/-- The machine stands at the exit of the main routine. -/
theorem Ready.comeToMainEnd {t : Emit.Tail} {g g' : Gen} (ready : Ready S env K g st m)
    (distinct : Distinct S.text.code) (lays : Lays S.text (Emit.mainEnd t) g () g') :
    Reach S.scope.host S.routines S.noted m fun n => Finished S K st n ∧ n.rax = 0 := by
  simp only [Emit.mainEnd, lays_bind, lays_emit, layout, shown] at lays
  obtain ⟨retAt, zeroAt, jumpAt, -, g₁, -, -, epilogueAt, epilogue, -⟩ := lays
  refine ready.next retAt rfl rfl rfl fun m₁ regs₁ _ ready₁ => ?_
  refine ready₁.next zeroAt rfl rfl rfl fun m₂ regs₂ _ ready₂ => ?_
  have rax₂ : m₂.rax = wideHalf (lowHalf m₁.rax ^^^ lowHalf m₁.rax) := congrArg Regs.rax regs₂
  refine ready₂.here.jump jumpAt distinct epilogueAt rfl fun m₃ regs₃ view₃ _ here₃ => ?_
  refine here₃.next epilogueAt rfl rfl rfl fun m₄ regs₄ view₄ _ here₄ => Reach.done ?_
  refine ⟨⟨ready₂.on.same (view₄.trans view₃), by rw [here₄.pc]; exact epilogue⟩, ?_⟩
  rw [show m₄.rax = m₃.rax from congrArg Regs.rax regs₄,
    show m₃.rax = m₂.rax from congrArg Regs.rax regs₃, rax₂]
  simp [wideHalf]

/-- The machine stands at the exit of the main routine for exceptions. -/
theorem On.comeToReport {t : Emit.Tail} {g g' : Gen} (on : On S K st m)
    (distinct : Distinct S.text.code) (placed : Placed S.text.code t.unwind m.pc)
    (lays : Lays S.text (Emit.mainEnd t) g () g') :
    Reach S.scope.host S.routines S.noted m fun n =>
      Outside st n ∧ n.code = S.text.code ∧ Reports m.rdx n := by
  simp only [Emit.mainEnd, lays_bind, lays_emit, layout, shown] at lays
  obtain ⟨-, -, -, unwindAt, g₁, callL, -⟩ := lays
  have plain : ("lm_exception_uncaught" == "printf" || "lm_exception_uncaught" == "scanf") = false := by
    decide
  simp only [Emit.call, plain, Bool.false_eq_true, if_false, lays_bind, lays_setArgs, lays_emit,
    lays_externs, Emit.setArgsFrom, shown] at callL
  obtain ⟨set, _, ⟨_, nothing, rfl⟩, -, call, -⟩ := callL
  obtain ⟨-, rfl⟩ := lays_pure.mp nothing
  have here := At.mk on.code (distinct _ _ _ placed ⟨_, unwindAt, by simp [places]⟩)
  refine here.next unwindAt rfl rfl rfl fun m₁ regs₁ view₁ _ here₁ => ?_
  have none : m₁.args = [] := (congrArg View.args view₁).trans on.args
  have effect : m₁.exec S.scope.host S.routines .setarg [.arg 0, Emit.rdx] = .next
      { m₁ with args := [m₁.rdx], rdx := if S.scope.host.inRdx 0 then m₁.rdx else m₁.rdx }.next := by
    simp [Machine.exec, Emit.rdx, Machine.read, Machine.setArg, none]
  refine here₁.next set effect rfl rfl fun m₂ regs₂ view₂ _ here₂ => Reach.done ?_
  have outside := (on.same view₁).toOutside
  refine ⟨⟨fun name => ?_, ?_, ?_⟩, here₂.code, here₂.stands (by simpa using call), ?_⟩
  · exact (congrFun (congrArg View.data view₂) _).trans (outside.globals name)
  · exact (congrArg View.world view₂).trans outside.world
  · exact (congrArg View.trace view₂).trans outside.trace
  · exact (congrArg View.args view₂).trans (congrArg (fun v => [v]) (congrArg Regs.rdx regs₁))

/-- The code of the top-level statements and of the end behind them carries them out. -/
theorem refines_main {t : Emit.Tail} {act : Act W Unit} {g g₁ g' : Gen} {x : Emit.Emitting Unit}
    (suits : Suits S (env.enter t)) (low : K.low = env.locals.length + 1)
    (body : Simulates S (env.enter t) .inRoutine x act) (bodyL : Lays S.text x g () g₁)
    (lays : Lays S.text (Emit.mainEnd t) g₁ () g') (temps : g₁.temps = g.temps)
    (ready : Ready S (env.enter t) K g st m) :
    Refines S (MainEnds S K) (outcome act) st m fun _ st' m' => Finished S K st' m' ∧ m'.rax = 0 := by
  have ends := lays
  simp only [Emit.mainEnd, lays_bind, lays_emit, layout, shown] at ends
  obtain ⟨retAt, -⟩ := ends
  -- A return has come to its jump to the exit.
  have back {st₁ : State W} {m₁ : Machine W}
      (stands : Stands S (env.enter t) K (Emit.jump .jmp t.ret) m₁) (on : On S K st₁ m₁)
      (later : m.clock ≤ m₁.clock) :
      Reach S.scope.host S.routines S.noted m₁ fun n => Finished S K st₁ n ∧ n.rax = 0 :=
    stands.land g₁ on ready later suits.distinct retAt temps (bodyL.pool ready.pool)
      fun m₂ _ _ ready₂ => ready₂.comeToMainEnd suits.distinct lays
  refine Refines.catch_ (P := fun _ st' m' => Ready S (env.enter t) K g₁ st' m')
    (Refines.bind (body bodyL ready fun _ => low) (fun _ _ _ _ h => h)
      fun _ _ _ _ ready₁ => Refines.here rfl ready₁) ?_ ?_
  · intro v st₁ m₁ _ ready₁
    exact ready₁.comeToMainEnd suits.distinct lays
  · intro e st₁ m₁ later left
    cases e with
    | break_ | continue_ => simp [Exits, Ways.inRoutine] at left
    | return_ v =>
        obtain ⟨-, on, ⟨loops, value, stands⟩ | ⟨-, value, stands⟩⟩ := left
        · obtain ⟨g₂, g₃, lays₂, here, pool, high⟩ := stands
          simp only [Env.enter, departure_nil, lays_bind, lays_emit, shown] at lays₂
          obtain ⟨load, jumpL⟩ := lays₂
          refine here.next load rfl rfl rfl fun m₂ regs₂ view₂ clock₂ here₂ => ?_
          exact back ⟨_, g₃, jumpL, here₂, pool, high⟩ (on.same view₂) (by omega)
        · exact back stands on later
    | thrown h =>
        obtain ⟨on, rfl, -, placed⟩ := left
        exact on.comeToReport suits.distinct placed lays
    | trap | cut => exact Refines.left rfl left
    | stray => exact Refines.left rfl trivial

end

/-! ## Programs -/

/-- A computation that was started in a machine has ended in one that the machine gets to. -/
def Concludes {W : Type} (H : Host W) (rs : List Routine) (limit : Nat)
    (returned raised : Word → Machine W → Prop) (m : Machine W) : Except Exit Word × State W → Prop
  | (.ok v, st) => Reach H rs True m fun n => Outside st n ∧ returned v n
  | (.error (.thrown h), st) => Reach H rs True m fun n => Outside st n ∧ raised h n
  | (.error .trap, st) => Reach H rs True m fun n => Faults H rs n ∧ n.trace = st.trace
  | (.error .cut, st) => Reach H rs True m fun n => limit ≤ n.clock ∧ n.trace = st.trace
  | (.error .stray, _) => True
  | _ => False

end Meaning

namespace Inference

variable (t : Inference) (hints : Hints)

/-- The routines with the given numbers of arguments are built from what has a meaning, no last block in
    them leaves for a place outside of itself, and they call only each other. -/
def Covers (arity? : String → Option Nat) : Prop :=
  ∀ symbol n, arity? symbol = some n → ∃ s, t.source? symbol = some s ∧ s.names.length = n ∧
    fits (kitOf (s.env (t.env hints)) arity? true) .inRoutine s.body = true

/-- The state in which the generator starts the top-level statements. -/
def startOfTopLevel (seed : Int64) : Gen :=
  let g := (t.startOfMain hints).cleared.push .prologue []
  ((Emit.prelude ((t.env hints).enter (tailOf g)) seed).run g.bump.bump.bump).2

/-- What the top-level statements refer to. -/
def topScope {W : Type} (seed : Int64) (host : Host W) (fuel : Nat) : Scope W :=
  let P := t.linked hints seed host
  ⟨host, P.literal, [], t.classes, P.invoke fuel, fuel⟩

/-- What running the top-level statements means, with zero for its result. -/
def topMeaning {W : Type} (seed : Int64) (host : Host W) (fuel : Nat) : Act W Word :=
  outcome (execs (t.topScope hints seed host fuel) t.topLevel)

variable {t hints}

theorem closed_linked {W : Type} {arity? : String → Option Nat} (covers : t.Covers hints arity?)
    (seed : Int64) (host : Host W)
    (laws : Lawful host (t.linked hints seed host).literal (t.linked hints seed host).pool) :
    (t.linked hints seed host).Closed arity? := by
  obtain ⟨rs, main, routines, strings, made, mainName, mainCode⟩ := t.routines_generate hints seed
  refine ⟨fun name known => ?_, laws, fun symbol n known => ?_⟩
  · have here : name ∉ rs.map Routine.name ∧ main.name ≠ name := by
      refine ⟨fun mem => ?_, fun same => ?_⟩
      · rw [Emit.names_of_makes made] at mem
        obtain ⟨s, source, rfl⟩ := List.mem_map.mp mem
        exact Emit.symbol_not_library source known
      · rw [← same, mainName] at known
        revert known
        decide
    show (t.generate hints seed).1.routines.find? _ = none
    rw [routines]
    simp only [List.mem_map, not_exists, not_and] at here
    simpa [List.find?_append] using here
  · obtain ⟨s, found, count, fit⟩ := covers symbol n known
    obtain ⟨r, code, name, g, makes, pool⟩ := Emit.find_of_makes made found
    refine ⟨s.toDefinition, r, s.env (t.env hints), ?_, ?_, count, rfl, ⟨rfl, g.cleared, s.after (t.env hints) g,
      rfl, rfl, ?_, ?_, rfl, makes⟩, fit⟩
    · simp [Inference.linked, found]
    · show (t.generate hints seed).1.routines.find? _ = some r
      rw [routines, List.find?_append, code]
      rfl
    · show g.pool <+: (t.generate hints seed).1.strings.map StringLit.value
      rw [strings]
      exact (s.leads_after (t.env hints) g).pool.trans pool
    · show _ <+: (t.generate hints seed).1.strings.map StringLit.value
      rw [strings]
      exact pool

/-- A call comes back as the routine means. -/
theorem concludes_call {W : Type} {P : Linked W} {arity? : String → Option Nat}
    (closed : P.Closed arity?) (fuel : Nat) {symbol : String} {m : Machine W} {st : State W}
    (stands : m.code[m.pc]? = some ⟨.call, [.label symbol], ""⟩)
    (known : arity? symbol = some m.args.length) (outside : Outside st m) :
    Concludes P.host P.routines (m.clock + fuel)
      (fun v n => Back m n ∧ n.rax = v ∧ n.rdx = 0) (fun h n => Back m n ∧ n.rdx = h ∧ h ≠ 0) m
      ((P.invoke fuel symbol m.args).from st) := by
  obtain ⟨d, -⟩ := closed.known symbol _ known
  obtain ⟨-, r, found, runs⟩ := closed.callable fuel (m.clock + fuel) d m.code m.params m.saved m.callers known
  have effect : m.exec P.host P.routines .call [.label symbol] = .next (m.enter P.host r) := by
    simp only [Machine.exec, Machine.call]
    rw [show P.routines.find? (·.name == symbol) = some r from found]
  have steps {Q : Machine W → Prop} (rest : Reach P.host P.routines True
      { m.enter P.host r with clock := m.clock + 1 } Q) : Reach P.host P.routines True m Q :=
    Reach.exec stands effect rest
  have landed := runs st m (fun _ => True) rfl outside trivial (fun _ _ _ _ _ => trivial) le_rfl
  change Reach P.host P.routines True _ (Lands _ _ ((P.invoke fuel symbol m.args).from st)) at landed
  generalize (P.invoke fuel symbol m.args).from st = result at landed
  obtain ⟨e | v, st'⟩ := result
  · cases e with
    | thrown h =>
        refine steps (landed.mono ?_)
        rintro n - ⟨returned, rdx, nonzero, -⟩
        exact ⟨returned.toOutside, returned.toBack, rdx, nonzero⟩
    | trap | cut => exact steps landed
    | stray => trivial
    | break_ | continue_ | return_ =>
        obtain ⟨_, _, impossible⟩ := landed
        exact impossible
  · refine steps (landed.mono ?_)
    rintro n - ⟨returned, rax, rdx⟩
    exact ⟨returned.toOutside, returned.toBack, rax, rdx⟩

/-- The main routine comes to its end as the top-level statements mean. -/
theorem concludes_topLevel {W : Type} {arity? : String → Option Nat} (covers : t.Covers hints arity?)
    (seed : Int64) (host : Host W)
    (laws : Lawful host (t.linked hints seed host).literal (t.linked hints seed host).pool) (fuel : Nat)
    (fit : allFit (kitOf (t.env hints) arity? true) .inRoutine t.topLevel = true) {m : Machine W}
    {st : State W}
    (code : (t.linked hints seed host).routines.getLast?.map Routine.code = some m.code)
    (args : m.args = []) (pc : m.pc = (t.startOfTopLevel hints seed).code.size)
    (outside : Outside st m) :
    Concludes host (t.linked hints seed host).routines (m.clock + fuel)
      (fun _ n => n.code = m.code ∧ n.code[n.pc]? = some ⟨.epilogue, [], ""⟩ ∧ n.rax = 0)
      (fun h n => n.code = m.code ∧ Reports h n) m
      ((t.topMeaning hints seed host fuel).from st) := by
  have closed := closed_linked covers seed host laws
  obtain ⟨rs, main, routines, strings, -, -, mainCode⟩ := t.routines_generate hints seed
  let P := t.linked hints seed host
  let g := (t.startOfMain hints).cleared.push .prologue []
  let env := (t.env hints).enter (tailOf g)
  let S : Setting W := ⟨t.topScope hints seed host fuel, P.routines, ⟨m.code, P.pool⟩, m.params, m.saved,
    m.callers, m.clock + fuel, True⟩
  have stable : Stable S.scope.host fun _ => True := fun _ _ _ _ _ => trivial
  have whole : m.code = (Emit.afterMain (t.env hints) seed t.topLevel (t.startOfMain hints)).code.toList := by
    have last : P.routines.getLast? = some main := by
      show (t.generate hints seed).1.routines.getLast? = some main
      rw [routines]
      simp
    rw [show (t.linked hints seed host).routines = P.routines from rfl, last] at code
    exact (Option.some.inj code).symm.trans mainCode
  have lays : Lays S.text (Emit.mainCode (t.env hints) seed t.topLevel) (t.startOfMain hints).cleared ()
      (Emit.afterMain (t.env hints) seed t.topLevel (t.startOfMain hints)) := by
    refine ⟨rfl, fun i _ _ => by simp [S, whole], fun _ => ?_⟩
    show _ <+: (t.generate hints seed).1.strings.map StringLit.value
    rw [strings]
  have distinct : Distinct S.text.code := by
    show Distinct m.code
    rw [whole]
    exact distinct_of_tidy (x := Emit.mainCode (t.env hints) seed t.topLevel)
      (g := (t.startOfMain hints).cleared) rfl rfl
  simp only [Emit.mainCode, lays_bind, lays_emit, lays_newTail, shown] at lays
  obtain ⟨-, _, ⟨rfl, rfl⟩, g₁, preludeL, g₂, bodyL, endL⟩ := lays
  obtain rfl : g₁ = t.startOfTopLevel hints seed := (congrArg Prod.snd preludeL.run).symm
  have suits : Suits S env := by
    have ends := endL
    simp only [Emit.mainEnd, lays_bind, lays_emit, layout, shown] at ends
    obtain ⟨-, -, -, unwindAt, -⟩ := ends
    exact ⟨inferInstance, distinct, rfl, rfl, rfl, fun _ => ⟨_, _, unwindAt, by simp [places]; rfl⟩⟩
  have able : Able S arity? true :=
    ⟨⟨fun _ => rfl, closed.foreign⟩, fun symbol n known =>
      closed.callable fuel (m.clock + fuel) ⟨[], default⟩ m.code m.params m.saved m.callers known,
      fun _ => laws, fun _ => trivial⟩
  have ready : Ready S env (.empty 0 stable) (t.startOfTopLevel hints seed) st m := by
    have temps : (t.startOfTopLevel hints seed).temps = 0 := preludeL.temps
    have pool : (t.startOfMain hints).pool <+: P.pool := by
      show _ <+: (t.generate hints seed).1.strings.map StringLit.value
      rw [strings]
      exact (Emit.leads_afterMain ..).pool
    refine ⟨⟨outside, rfl, rfl, rfl, rfl, args, fun name i found => ?_, fun i low high => ?_, trivial⟩,
      ⟨rfl, pc⟩, ?_, le_rfl, ?_, preludeL.pool pool, le_rfl⟩
    · exact absurd (show ([] : List String).idxOf? name = some i from found) (by simp)
    · simp only [Keep.empty] at low high
      omega
    · simp [Keep.empty, env, Env.enter, Inference.env]
    · simp [Keep.empty, env, Env.enter, Inference.env, temps]
  have landed := refines_main suits rfl
    (simulates_stmts able env .inRoutine suits open_inRoutine t.topLevel fit) bodyL endL bodyL.temps ready
  change Reach host P.routines True m (Lands _ _ ((t.topMeaning hints seed host fuel).from st)) at landed
  generalize (t.topMeaning hints seed host fuel).from st = result at landed
  obtain ⟨e | v, st'⟩ := result
  · cases e with
    | thrown h => exact landed
    | trap | cut => exact landed
    | stray => trivial
    | break_ | continue_ | return_ =>
        obtain ⟨_, _, impossible⟩ := landed
        exact impossible
  · refine landed.mono ?_
    rintro n - ⟨⟨on, epilogue⟩, rax⟩
    exact ⟨on.toOutside, on.code, on.code ▸ epilogue, rax⟩

/-- A program is left as it means. Every call in it, of a routine built from blocks, choices, loops,
    switches, exits, exceptions, guarded statements and calls, comes back with the value in `rax` and
    `rdx` cleared, or with the exception in `rdx`; the top-level statements come to the end of the main
    routine or report the exception. In the record, of which every part is noted where the code of its
    statement starts, each entry of a guarded statement is answered once by its last block. -/
theorem run_unwinding {W : Type} (t : Inference) (hints : Hints) (seed : Int64) (host : Host W)
    (arity? : String → Option Nat) (covers : t.Covers hints arity?)
    (laws : Lawful host (t.linked hints seed host).literal (t.linked hints seed host).pool) (fuel : Nat) :
    (∀ symbol (m : Machine W) (locals : String → Word),
      m.code[m.pc]? = some ⟨.call, [.label symbol], ""⟩ → arity? symbol = some m.args.length →
      Orderly ((t.linked hints seed host).invoke fuel symbol m.args) ∧
      Concludes host (t.linked hints seed host).routines (m.clock + fuel)
        (fun v n => Back m n ∧ n.rax = v ∧ n.rdx = 0) (fun h n => Back m n ∧ n.rdx = h ∧ h ≠ 0) m
        (((t.linked hints seed host).invoke fuel symbol m.args).from
          ⟨locals, fun name => m.data (SymbolName.globalVar name), m.world, m.trace⟩)) ∧
    (allFit (kitOf (t.env hints) arity? true) .inRoutine t.topLevel = true →
      ∀ m : Machine W, (t.linked hints seed host).routines.getLast?.map Routine.code = some m.code →
      m.args = [] → m.pc = (t.startOfTopLevel hints seed).code.size →
      Orderly (t.topMeaning hints seed host fuel) ∧
      Concludes host (t.linked hints seed host).routines (m.clock + fuel)
        (fun _ n => n.code = m.code ∧ n.code[n.pc]? = some ⟨.epilogue, [], ""⟩ ∧ n.rax = 0)
        (fun h n => n.code = m.code ∧ Reports h n) m
        ((t.topMeaning hints seed host fuel).from
          ⟨fun _ => 0, fun name => m.data (SymbolName.globalVar name), m.world, m.trace⟩)) := by
  have closed := closed_linked covers seed host laws
  refine ⟨fun symbol m locals stands known => ⟨?_, ?_⟩, fun fit m code args pc => ⟨?_, ?_⟩⟩
  · exact orderly_call host _ _ _ fuel symbol m.args
  · exact concludes_call closed fuel stands known ⟨fun _ => rfl, rfl, rfl⟩
  · exact (orderly_execs (orderly_call host _ _ _ fuel) _).outcome
  · exact concludes_topLevel covers seed host laws fuel fit code args pc ⟨fun _ => rfl, rfl, rfl⟩

/-! ## An example -/

/-- `func f() { try { throw "a"; } finally { print 1; } }`, and at the top level
    `try { f(); } catch (B e) { } catch (Exception e) { print 2; } finally { print 3; }`. -/
def passing : Program where
  span := default
  items :=
    let say (n : Int64) : Stmt := .block default [.print default (.number default n)]
    [.func ⟨default, "f", [], none, .block default [.try_ default
       (.block default [.throw_ default "" (.str default "a")]) [] (some (say 1))]⟩,
     .try_ default (.block default [.expr default (.call default "f" [])])
       [⟨default, "B", "e", .block default []⟩, ⟨default, "Exception", "e", say 2⟩] (some (say 3))]

/-- A library in which an exception lies where its type does. -/
def typesOnly : Host Unit where
  address := fun l => if l = "str0" then 1 else if l = "str1" then 2 else if l = "str2" then 3 else 0
  answer := fun w name args =>
    ⟨w, match name, args with
      | "lm_exception_new", [type, _] => type
      | "lm_exception_type", [h] => h
      | "strcmp", [a, b] => if a = b then 0 else 1
      | _, _ => 0, 0, 0⟩
  stale := fun _ _ => 0
  inRdx := fun _ => false
  typeOf := fun _ h =>
    if h = 1 then some "Exception" else if h = 2 then some "a" else if h = 3 then some "B" else none

/-- The program as linked with that library. -/
def passingLinked : Linked Unit := (passing.infer {}).linked {} (-1) typesOnly

/-- The numbers of arguments of its routines. -/
def passingArity (symbol : String) : Option Nat := if symbol = "fn_f" then some 0 else none

theorem lawful_typesOnly : Lawful typesOnly passingLinked.literal passingLinked.pool := by
  have pool : passingLinked.pool = ["Exception", "a", "B"] := by decide +kernel
  have first : passingLinked.literal "Exception" = 1 := by decide +kernel
  have second : passingLinked.literal "a" = 2 := by decide +kernel
  have third : passingLinked.literal "B" = 3 := by decide +kernel
  rw [pool]
  refine ⟨fun _ => rfl, fun _ _ _ _ _ _ h => h, fun w s mem _ message => ?_, fun w h t type s mem _ => ⟨rfl, ?_⟩⟩
  · simp only [List.mem_cons, List.not_mem_nil, or_false] at mem
    obtain rfl | rfl | rfl := mem
    · rw [first]; rfl
    · rw [second]; rfl
    · rw [third]; rfl
  · have order (a b : Word) : lowHalf (if a = b then 0 else 1) = 0 ↔ a = b := by
      split
      · next same => exact ⟨fun _ => same, fun _ => rfl⟩
      · next other => exact ⟨fun zero => absurd zero (by decide), fun same => absurd same other⟩
    simp only [typesOnly, order] at type ⊢
    simp only [List.mem_cons, List.not_mem_nil, or_false] at mem
    obtain rfl | rfl | rfl := mem
    · rw [first]; grind
    · rw [second]; grind
    · rw [third]; grind

theorem covers_passing : (passing.infer {}).Covers {} passingArity := by
  intro symbol n known
  unfold passingArity at known
  split at known
  · next same =>
      obtain rfl := same
      obtain rfl := Option.some.inj known
      have found : ((passing.infer {}).source? "fn_f").isSome = true := by decide +kernel
      obtain ⟨s, found⟩ := Option.isSome_iff_exists.mp found
      have all : ((passing.infer {}).source? "fn_f").all (fun s => s.names.length == 0 &&
          fits (kitOf (s.env ((passing.infer {}).env {})) passingArity true) .inRoutine s.body) = true := by
        decide +kernel
      rw [found] at all
      simp only [Option.all_some, Bool.and_eq_true, beq_iff_eq] at all
      exact ⟨s, found, all⟩
  · cases known

/-- A machine that is about to run code from a given place on. -/
def loadedAt (pc : Nat) (code : List Instr) : Machine Unit := { loaded code with pc := pc }

theorem loadedAt_code {code? : Option (List Instr)} (some : code?.isSome = true) (pc : Nat) :
    code? = Option.some (loadedAt pc (code?.getD [])).code := by
  obtain ⟨code, rfl⟩ := Option.isSome_iff_exists.mp some
  rfl

theorem loadedAt_pc (pc : Nat) (code : List Instr) : (loadedAt pc code).pc = pc := rfl

/-- A machine that is about to run the top-level statements. -/
def passingLoaded : Machine Unit :=
  loadedAt ((passing.infer {}).startOfTopLevel {} (-1)).code.size
    ((passingLinked.routines.getLast?.map Routine.code).getD [])

/-- What the top-level statements mean for it. -/
def passed : Except Exit Word × State Unit :=
  ((passing.infer {}).topMeaning {} (-1) typesOnly 3).from
    ⟨fun _ => 0, fun name => passingLoaded.data (SymbolName.globalVar name), (), passingLoaded.trace⟩

theorem run_passing :
    allFit (kitOf ((passing.infer {}).env {}) passingArity true) .inRoutine
      (passing.infer {}).topLevel = true ∧
    ∃ n, Run typesOnly passingLinked.routines True passingLoaded n ∧
      n.code[n.pc]? = some ⟨.epilogue, [], ""⟩ ∧ n.rax = 0 ∧
      n.trace.map (·.start?.isSome) =
        [true, true, true, false, false, true, false, false, true, false, false] := by
  have fit : allFit (kitOf ((passing.infer {}).env {}) passingArity true) .inRoutine
      (passing.infer {}).topLevel = true := by decide +kernel
  have value : passed.1 = .ok 0 := by decide +kernel
  have record : passed.2.trace.map (·.start?.isSome) =
      [true, true, true, false, false, true, false, false, true, false, false] := by decide +kernel
  have code : passingLinked.routines.getLast?.map Routine.code = some passingLoaded.code :=
    loadedAt_code (by decide +kernel) _
  have runs := ((passing.infer {}).run_unwinding {} (-1) typesOnly passingArity covers_passing
    lawful_typesOnly 3).2 fit passingLoaded code rfl (loadedAt_pc _ _)
  change _ ∧ Concludes typesOnly passingLinked.routines _ _ _ passingLoaded passed at runs
  generalize passed = result at value record runs
  obtain ⟨_, st⟩ := result
  obtain rfl := value
  obtain ⟨-, n, run, outside, -, epilogue, rax⟩ := runs
  exact ⟨fit, n, run, epilogue, rax, outside.trace ▸ record⟩

end Inference

end Lantern
