import Lantern.Proofs.Bodies

/-!
# Code of routines

A routine fetches its parameters, runs its body and ends in one of two ways, with a value and `rdx`
cleared, or with an exception in `rdx`. What its body means is what calling it does.
-/

namespace Lantern.Meaning

open Assembly Machine
open Emit (Text Gen Env Emitting Lays lays_bind lays_emit lays_pure layout shown routineCode)

variable {W : Type}

/-! ## Labels of a routine -/

theorem placesNumber_of_places {l : String} {i : Instr} (hit : places l i = true) :
    Emit.placesNumber (Emit.number l) i = true := by
  obtain ⟨op, args, note⟩ := i
  simp only [places, decide_eq_true_eq] at hit
  obtain ⟨rfl, rfl⟩ := hit
  simp [Emit.placesNumber]

/-- What is found at most once is found in one place. -/
theorem index_unique {α : Type} {p : α → Bool} {xs : List α} (once : xs.countP p ≤ 1) {j k : Nat}
    {x y : α} (left : xs[j]? = some x) (right : xs[k]? = some y) (hx : p x = true)
    (hy : p y = true) : j = k := by
  induction xs generalizing j k with
  | nil => simp at left
  | cons z xs ih =>
      have none_after (zero : xs.countP p = 0) {i : Nat} {w : α} (at_ : xs[i]? = some w) :
          p w ≠ true := by
        rw [List.countP_eq_zero] at zero
        exact zero w (List.mem_of_getElem? at_)
      rw [List.countP_cons] at once
      cases j with
      | zero =>
          obtain rfl : z = x := by simpa using left
          have zero : xs.countP p = 0 := by
            simp only [hx, if_true] at once
            omega
          cases k with
          | zero => rfl
          | succ k => exact absurd hy (none_after zero (by simpa using right))
      | succ j =>
          cases k with
          | zero =>
              obtain rfl : z = y := by simpa using right
              have zero : xs.countP p = 0 := by
                simp only [hy, if_true] at once
                omega
              exact absurd hx (none_after zero (by simpa using left))
          | succ k =>
              have := ih (by omega) (by simpa using left) (by simpa using right)
              omega

/-- The labels of code that was generated from nothing are distinct. -/
theorem distinct_of_tidy {x : Emitting Unit} [tidy : Emit.Tidy 0 x] {g g' : Gen}
    (empty : g.code = #[]) (run : x.run g = ((), g')) : Distinct g'.code.toList := by
  intro l j k ⟨i, left, hit⟩ ⟨i', right, hit'⟩
  have once := (tidy.tidy g).once (Emit.number l)
  rw [run] at once
  have none : g.uses (Emit.number l) = 0 := by simp [Gen.uses, empty]
  rw [none] at once
  exact index_unique once left right (placesNumber_of_places hit) (placesNumber_of_places hit')

/-! ## Parameters -/

theorem idxOf_of_idxOf? {l : List String} {name : String} {i : Nat}
    (found : l.idxOf? name = some i) : l.idxOf name = i :=
  (List.findIdx?_eq_some_iff_findIdx_eq.mp found).2

theorem Definition.mem_locals {d : Definition} {name : String} (param : name ∈ d.names) :
    name ∈ d.locals :=
  mem_foldl_addNew.mpr (.inr (List.mem_append_left _ param))

section

variable {S : Setting W} {env : Env} {K : Keep S.scope.host} {st : State W} {m : Machine W}

/-- Fetches parameters into the variables of their names. -/
theorem Ready.loadParams {Q : Machine W → Prop} {names : List String} {i : Nat} {g g' : Gen}
    (ready : Ready S env K g st m) (vs : List Word)
    (lays : Lays S.text (Emit.loadParams env i names) g () g') (same : env.locals = S.scope.locals)
    (known : ∀ name ∈ names, name ∈ env.locals) (values : S.params.drop i = vs)
    (enough : names.length ≤ vs.length)
    (rest : ∀ n, m.clock ≤ n.clock →
      Ready S env K g' { st with locals := bindParams st.locals names vs } n →
      Reach S.scope.host S.routines S.noted n Q) :
    Reach S.scope.host S.routines S.noted m Q := by
  induction names generalizing i vs g st m with
  | nil =>
      obtain ⟨-, rfl⟩ := lays_pure.mp lays
      exact rest m le_rfl (by simpa [bindParams] using ready)
  | cons name names ih =>
      obtain ⟨v, vs, rfl⟩ := List.exists_cons_of_length_pos (by simp at enough; omega : 0 < vs.length)
      simp only [Emit.loadParams, lays_bind, lays_emit, shown] at lays
      obtain ⟨load, lays⟩ := lays
      obtain ⟨param, others⟩ : S.params[i]? = some v ∧ S.params.drop (i + 1) = vs := by
        rw [← List.head?_drop, values, ← List.tail_drop, values]
        simp
      obtain ⟨j, index⟩ := Option.isSome_iff_exists.mp
        (List.isSome_idxOf?.mpr (known name (by simp)))
      have mem : name ∈ S.scope.locals := same ▸ known name (by simp)
      have effect : m.exec S.scope.host S.routines .loadparam
          [.arg i, .slot (env.locals.idxOf name)] =
          .next { m with slots := Function.update m.slots j v }.next := by
        simp [Machine.exec, put, write, ready.on.params, param, idxOf_of_idxOf? index]
      refine ready.here.next load effect rfl rfl fun n regs seen clock here => ?_
      have fuel := ready.fuel
      have on := ready.on.setLocal (same ▸ index) (same ▸ ready.low) seen
      simp only [stored, mem, if_true] at on
      refine ih ⟨on, here, ready.low, ready.floor, ready.high, ready.pool, by omega⟩ vs lays
        (fun name mem => known name (by simp [mem])) others (by simpa using enough)
        fun n' later => rest n' (by omega)

/-! ## Bodies -/

/-- Nothing of the frame needs to be kept. -/
def Keep.empty {H : Host W} (count : Nat) {alive : W → Prop} (stable : Stable H alive) : Keep H :=
  ⟨fun _ => 0, count + 1, count + 1, alive, stable⟩

/-- The machine is about to leave the routine. -/
def Finished (S : Setting W) (K : Keep S.scope.host) (st : State W) (m : Machine W) : Prop :=
  On S K st m ∧ S.text.code[m.pc]? = some ⟨.epilogue, [], ""⟩

/-- Where a routine is that does not end with a value. -/
def Ends (S : Setting W) (K : Keep S.scope.host) : Exit → State W → Machine W → Prop
  | .thrown h, st, m => Finished S K st m ∧ m.rdx = h ∧
      (S.scope.host.typeOf st.world h).isSome = true
  | .trap, st, m => Faults S.scope.host S.routines m ∧ m.trace = st.trace
  | .cut, st, m => S.limit ≤ m.clock ∧ m.trace = st.trace
  | .stray, _, _ => True
  | .break_, _, _ | .continue_, _, _ | .return_ _, _, _ => False

/-- The ways in which the body of a routine may be left. -/
def Ways.inRoutine : Ways := ⟨false, false, true⟩

theorem open_inRoutine : Open env .inRoutine := by
  intro goOn allowed
  cases goOn <;> simp [Ways.allows, Ways.inRoutine] at allowed

/-- The labels that the generator makes for a routine's end. -/
def tailOf (g : Gen) : Emit.Tail :=
  ⟨Emit.tag "ret" g.labels, Emit.tag "unwind" g.bump.labels, Emit.tag "epi" g.bump.bump.labels⟩

theorem lays_newTail {T : Text} {g g' : Gen} {t : Emit.Tail} :
    Lays T Emit.newTail g t g' ↔ t = tailOf g ∧ g' = g.bump.bump.bump :=
  Emit.lays_quiet rfl rfl rfl

/-- The machine stands at the normal exit of the routine. -/
theorem Ready.comeToEnd {t : Emit.Tail} {g g' : Gen}
    (ready : Ready S env K (g.push .xor [Emit.eax, Emit.eax]) st m)
    (distinct : Distinct S.text.code) (lays : Lays S.text (Emit.routineEnd t) g () g') :
    Reach S.scope.host S.routines S.noted m fun n =>
      Finished S K st n ∧ n.rax = m.rax ∧ n.rdx = 0 := by
  simp only [Emit.routineEnd, lays_bind, lays_emit, layout, shown] at lays
  obtain ⟨-, retAt, clear, jmp, -, -, epilogueAt, epilogue, -⟩ := lays
  refine ready.next retAt rfl rfl rfl fun m₁ regs₁ _ ready₁ => ?_
  refine ready₁.next clear rfl rfl rfl fun m₂ regs₂ _ ready₂ => ?_
  have rdx₂ : m₂.rdx = wideHalf (lowHalf m₁.rdx ^^^ lowHalf m₁.rdx) := congrArg Regs.rdx regs₂
  refine ready₂.jump jmp distinct epilogueAt rfl rfl ready₂.pool fun m₃ regs₃ _ ready₃ => ?_
  refine ready₃.next epilogueAt rfl rfl rfl fun m₄ regs₄ _ ready₄ => Reach.done ?_
  refine ⟨⟨ready₄.on, by rw [ready₄.here.pc]; exact epilogue⟩, ?_, ?_⟩
  · exact (congrArg Regs.rax regs₄).trans ((congrArg Regs.rax regs₃).trans
      ((congrArg Regs.rax regs₂).trans (congrArg Regs.rax regs₁)))
  · rw [show m₄.rdx = m₃.rdx from congrArg Regs.rdx regs₄,
      show m₃.rdx = m₂.rdx from congrArg Regs.rdx regs₃, rdx₂]
    simp [wideHalf]

/-- The machine stands at the exit for exceptions. -/
theorem On.comeToEnd {t : Emit.Tail} {g g' : Gen} (on : On S K st m)
    (distinct : Distinct S.text.code) (placed : Placed S.text.code t.unwind m.pc)
    (lays : Lays S.text (Emit.routineEnd t) g () g') :
    Reach S.scope.host S.routines S.noted m fun n => Finished S K st n ∧ n.rdx = m.rdx := by
  simp only [Emit.routineEnd, lays_bind, lays_emit, layout, shown] at lays
  obtain ⟨-, -, -, -, unwindAt, zeroAt, epilogueAt, epilogue, -⟩ := lays
  have here := At.mk on.code (distinct _ _ _ placed ⟨_, unwindAt, by simp [places]⟩)
  refine here.next unwindAt rfl rfl rfl fun m₁ regs₁ view₁ _ here₁ => ?_
  refine here₁.next zeroAt rfl rfl rfl fun m₂ regs₂ view₂ _ here₂ => ?_
  refine here₂.next epilogueAt rfl rfl rfl fun m₃ regs₃ view₃ _ here₃ => Reach.done ?_
  refine ⟨⟨on.same (view₃.trans (view₂.trans view₁)), by rw [here₃.pc]; exact epilogue⟩, ?_⟩
  exact (congrArg Regs.rdx regs₃).trans ((congrArg Regs.rdx regs₂).trans (congrArg Regs.rdx regs₁))

/-- The code of a body and of the end behind it come to the end of the routine with the outcome. -/
theorem refines_outcome {t : Emit.Tail} {act : Act W Unit} {g g₁ g' : Gen} {x : Emitting Unit}
    (suits : Suits S (env.enter t)) (low : K.low = env.locals.length + 1)
    (body : Simulates S (env.enter t) .inRoutine x act) (bodyL : Lays S.text x g () g₁)
    (lays : Lays S.text (Emit.routineEnd t) g₁ () g') (temps : g₁.temps = g.temps)
    (ready : Ready S (env.enter t) K g st m) :
    Refines S (Ends S K) (outcome act) st m fun v st' m' =>
      Finished S K st' m' ∧ m'.rax = v ∧ m'.rdx = 0 := by
  have ends := lays
  simp only [Emit.routineEnd, lays_bind, lays_emit, layout, shown] at ends
  obtain ⟨zeroAt, retAt, -⟩ := ends
  -- A return has come to its jump to the normal exit.
  have back {v : Word} {st₁ : State W} {m₁ : Machine W}
      (stands : Stands S (env.enter t) K (Emit.jump .jmp t.ret) m₁) (on : On S K st₁ m₁)
      (rax : m₁.rax = v) (later : m.clock ≤ m₁.clock) :
      Reach S.scope.host S.routines S.noted m₁ fun n =>
        Finished S K st₁ n ∧ n.rax = v ∧ n.rdx = 0 := by
    refine stands.land (g₁.push .xor [Emit.eax, Emit.eax]) on ready later suits.distinct
      (by simpa using retAt) temps (bodyL.pool ready.pool) fun m₂ regs₂ _ ready₂ => ?_
    refine Reach.mono (ready₂.comeToEnd suits.distinct lays) ?_
    rintro n - ⟨finished, rax₂, rdx⟩
    exact ⟨finished, rax₂.trans ((congrArg Regs.rax regs₂).trans rax), rdx⟩
  refine Refines.catch_ (P := fun v st' m' => v = 0 ∧ Ready S (env.enter t) K g₁ st' m')
    (Refines.bind (body bodyL ready fun _ => low) (fun _ _ _ _ h => h)
      fun _ _ _ _ ready₁ => Refines.here rfl ⟨rfl, ready₁⟩) ?_ ?_
  · rintro v st₁ m₁ - ⟨rfl, ready₁⟩
    refine ready₁.next zeroAt rfl rfl rfl fun m₂ regs₂ _ ready₂ => ?_
    have rax₂ : m₂.rax = wideHalf (lowHalf m₁.rax ^^^ lowHalf m₁.rax) := congrArg Regs.rax regs₂
    refine Reach.mono (ready₂.comeToEnd suits.distinct lays) ?_
    rintro n - ⟨finished, rax, rdx⟩
    exact ⟨finished, by rw [rax, rax₂]; simp [wideHalf], rdx⟩
  · intro e st₁ m₁ later left
    cases e with
    | break_ | continue_ => simp [Exits, Ways.inRoutine] at left
    | return_ v =>
        obtain ⟨-, on, ⟨loops, value, stands⟩ | ⟨-, value, stands⟩⟩ := left
        · obtain ⟨g₂, g₃, lays₂, here, pool, high⟩ := stands
          simp only [Env.enter, departure_nil, lays_bind, lays_emit, shown] at lays₂
          obtain ⟨load, jumpL⟩ := lays₂
          refine here.next load rfl rfl rfl fun m₂ regs₂ view₂ clock₂ here₂ => ?_
          exact back ⟨_, g₃, jumpL, here₂, pool, high⟩ (on.same view₂)
            ((congrArg Regs.rax regs₂).trans value) (by omega)
        · exact back stands on value later
    | thrown h =>
        obtain ⟨on, rdx, isException, placed⟩ := left
        refine Reach.mono (on.comeToEnd suits.distinct placed lays) ?_
        rintro n - ⟨finished, same⟩
        exact ⟨finished, same.trans rdx, isException⟩
    | trap | cut => exact Refines.left rfl left
    | stray => exact Refines.left rfl trivial

variable (env) in
/-- The code of a routine carries its body out and comes to its end with the outcome. -/
theorem refines_routine {arity? : String → Option Nat} {guards : Bool} {names : List String}
    {body : Stmt} {g g' : Gen} {alive : W → Prop} {stable : Stable S.scope.host alive}
    (able : Able S arity? guards) (distinct : Distinct S.text.code)
    (same : env.locals = S.scope.locals) (classes : env.classes = S.scope.classes)
    (known : ∀ name ∈ names, name ∈ env.locals) (enough : names.length ≤ S.params.length)
    (fit : fits (kitOf env arity? guards) .inRoutine body = true)
    (lays : Lays S.text (routineCode env names body) g () g')
    (ready : Ready S env (.empty env.locals.length stable) g st { m with saved := m.rbx }) :
    Refines S (Ends S (.empty env.locals.length stable)) (outcome (exec S.scope body))
      { st with locals := bindParams st.locals names S.params } m fun v st' m' =>
        Finished S (.empty env.locals.length stable) st' m' ∧ m'.rax = v ∧ m'.rdx = 0 := by
  simp only [routineCode, lays_bind, lays_emit, lays_newTail, shown] at lays
  obtain ⟨prologue, g₁, paramsL, t, rfl, g₂, bodyL, endL⟩ := lays
  have here : At S.text g m := ⟨ready.here.code, ready.here.pc⟩
  refine here.next prologue rfl rfl rfl fun m₁ regs₁ view₁ clock₁ here₁ => ?_
  have ready₁ : Ready S env (.empty env.locals.length stable) (g.push .prologue []) st m₁ :=
    ⟨ready.on.same view₁, here₁, ready.low, ready.floor, ready.high, ready.pool, by
      have : S.limit ≤ m.clock + S.scope.fuel := ready.fuel
      omega⟩
  refine ready₁.loadParams S.params paramsL same known rfl enough fun m₂ later₂ ready₂ => ?_
  have ready₂ : Ready S env _ g₁.bump.bump.bump _ _ := ready₂.moved rfl rfl rfl
  have suits : Suits S (env.enter (tailOf g₁)) := by
    have ends := endL
    simp only [Emit.routineEnd, lays_bind, lays_emit, layout, shown] at ends
    obtain ⟨-, -, -, -, unwindAt, -⟩ := ends
    exact ⟨inferInstance, distinct, same, classes, rfl,
      fun _ => ⟨_, _, unwindAt, by simp [places]; rfl⟩⟩
  exact refines_outcome suits rfl
    (simulates_stmt able (env.enter (tailOf g₁)) .inRoutine suits open_inRoutine body fit) bodyL endL
    bodyL.temps (ready₂.recast rfl)

end

end Lantern.Meaning
