import Lantern.Proofs.Emission
import Lantern.Proofs.Machine

/-!
# Runs of the machine

A run takes steps of the machine. Where it is to be noted which statements start, it may between two
steps record that the code of some statement starts where the machine stands; that changes nothing
but the record, on which no step depends.
-/

namespace Lantern

open Assembly

/-- The code of a statement, as generated in some surroundings, starts at a place. -/
def Begins (code : List Instr) (pc : Nat) (s : Stmt) : Prop :=
  ∃ (env : Emit.Env) (g g' : Emit.Gen),
    (Emit.stmt env s).run g = ((), g') ∧ Emit.Gen.Lies code g g' ∧ g.code.size = pc

/-- The statement that starts with an event. -/
def Event.start? : Event → Option Stmt
  | .print _ => none
  | .enter body _ => some body
  | .last block => some block
  | .handler c => some c.body

/-- A label is placed somewhere in a routine. -/
def Placed (code : List Instr) (l : String) (k : Nat) : Prop :=
  ∃ i, code[k]? = some i ∧ Machine.places l i = true

/-- No label is placed twice. -/
def Distinct (code : List Instr) : Prop :=
  ∀ l j k, Placed code l j → Placed code l k → j = k

namespace Machine

variable {W : Type} {H : Host W} {rs : List Routine} {noted : Prop}

/-- Adds an event to the record. -/
def note (m : Machine W) (e : Event) : Machine W := { m with trace := m.trace ++ [e] }

/-- The machine stands where the statement of an event starts. -/
def Starts (m : Machine W) (e : Event) : Prop := ∃ s, e.start? = some s ∧ Begins m.code m.pc s

/-- The machine gets from one state to another. -/
inductive Run (H : Host W) (rs : List Routine) (noted : Prop) : Machine W → Machine W → Prop where
  | refl (m : Machine W) : Run H rs noted m m
  | step {m m' n : Machine W} : m.step H rs = .next m' → Run H rs noted m' n → Run H rs noted m n
  | note {m n : Machine W} {e : Event} :
      noted → m.Starts e → Run H rs noted (m.note e) n → Run H rs noted m n

/-- The machine gets to a state with a property. -/
def Reach (H : Host W) (rs : List Routine) (noted : Prop) (m : Machine W)
    (Q : Machine W → Prop) : Prop :=
  ∃ n, Run H rs noted m n ∧ Q n

/-- The next instruction is a division without a result. -/
def Faults (H : Host W) (rs : List Routine) (m : Machine W) : Prop := m.step H rs = .fault

theorem Run.trans {m n o : Machine W} (first : Run H rs noted m n) (second : Run H rs noted n o) :
    Run H rs noted m o := by
  induction first with
  | refl => exact second
  | step one _ ih => exact .step one (ih second)
  | note allowed starts _ ih => exact .note allowed starts (ih second)

theorem clock_of_step {m m' : Machine W} (one : m.step H rs = .next m') :
    m'.clock = m.clock + 1 := by
  unfold step at one
  split at one
  · split at one
    · cases one; rfl
    · next other => exact absurd one (other m')
  · cases one

theorem Run.clock_le {m n : Machine W} (run : Run H rs noted m n) : m.clock ≤ n.clock := by
  induction run with
  | refl => exact le_rfl
  | step one _ ih => have := clock_of_step one; omega
  | note _ _ _ ih => exact ih

namespace Reach

variable {m m' : Machine W} {P Q : Machine W → Prop}

theorem done (h : Q m) : Reach H rs noted m Q := ⟨m, .refl m, h⟩

theorem note {e : Event} (allowed : noted) (starts : m.Starts e)
    (rest : Reach H rs noted (m.note e) Q) : Reach H rs noted m Q := by
  obtain ⟨n, run, h⟩ := rest
  exact ⟨n, .note allowed starts run, h⟩

theorem bind (first : Reach H rs noted m P)
    (rest : ∀ n, m.clock ≤ n.clock → P n → Reach H rs noted n Q) : Reach H rs noted m Q := by
  obtain ⟨n, run, h⟩ := first
  obtain ⟨o, run', h'⟩ := rest n run.clock_le h
  exact ⟨o, run.trans run', h'⟩

theorem mono (first : Reach H rs noted m P) (weaker : ∀ n, m.clock ≤ n.clock → P n → Q n) :
    Reach H rs noted m Q :=
  first.bind fun n later h => done (weaker n later h)

/-- Executes the instruction that stands at the machine's place. -/
theorem exec {op : Op} {args : List Operand} (stands : m.code[m.pc]? = some ⟨op, args, ""⟩)
    (effect : m.exec H rs op args = .next m')
    (rest : Reach H rs noted { m' with clock := m.clock + 1 } Q) : Reach H rs noted m Q := by
  obtain ⟨n, run, h⟩ := rest
  have one : m.step H rs = .next { m' with clock := m.clock + 1 } := by
    simp only [step, stands, effect]
  exact ⟨n, .step one run, h⟩

end Reach

/-! ## Places in the generated code -/

theorem jump_of_placed {m : Machine W} {l : String} {k : Nat} (distinct : Distinct m.code)
    (placed : Placed m.code l k) : m.jump l = .next { m with pc := k } := by
  have found : m.code.findIdx? (places l) = some k := by
    obtain ⟨i, at_, hit⟩ := placed
    obtain ⟨inside, rfl⟩ := List.getElem?_eq_some_iff.mp at_
    refine List.findIdx?_eq_some_iff_getElem.mpr ⟨inside, hit, fun j before => ?_⟩
    intro other
    have same := distinct l j k ⟨_, List.getElem?_eq_getElem (by omega), other⟩ ⟨_, at_, hit⟩
    omega
  simp only [jump, found]

/-- The registers of a state. -/
structure Regs where
  rax : Word
  rbx : Word
  rdx : Word
  r11 : Word
  flags : Option Flags

/-- What the machine holds besides its registers. -/
structure View (W : Type) where
  code : List Instr
  slots : Int → Word
  params : List Word
  saved : Word
  callers : List Activation
  args : List Word
  data : String → Word
  world : W
  trace : List Event

/-- The registers. -/
def regs (m : Machine W) : Regs := ⟨m.rax, m.rbx, m.rdx, m.r11, m.flags⟩

/-- All but the registers, the place and the clock. -/
def view (m : Machine W) : View W :=
  ⟨m.code, m.slots, m.params, m.saved, m.callers, m.args, m.data, m.world, m.trace⟩

/-- The machine stands where the generator stood. -/
structure At (T : Emit.Text) (g : Emit.Gen) (m : Machine W) : Prop where
  code : m.code = T.code
  pc : m.pc = g.code.size

namespace At

variable {T : Emit.Text} {g : Emit.Gen} {m m' : Machine W} {op : Op} {args : List Operand}

theorem stands {i : Option Instr} (here : At T g m) (laid : T.code[g.code.size]? = i) :
    m.code[m.pc]? = i := by
  rw [here.code, here.pc, laid]

/-- Executes an instruction and goes on behind it. -/
theorem next {Q : Machine W → Prop} (here : At T g m)
    (laid : T.code[g.code.size]? = some ⟨op, args, ""⟩)
    (effect : m.exec H rs op args = .next m') (code : m'.code = m.code) (pc : m'.pc = m.pc + 1)
    (rest : ∀ n, regs n = regs m' → view n = view m' → n.clock = m.clock + 1 →
      At T (g.push op args) n → Reach H rs noted n Q) : Reach H rs noted m Q := by
  refine Reach.exec (here.stands laid) effect
    (rest _ rfl rfl rfl ⟨code.trans here.code, ?_⟩)
  simp [pc, here.pc]

/-- Executes an instruction that goes to a label. -/
theorem jump {Q : Machine W → Prop} {l : String} {g' : Emit.Gen} (here : At T g m)
    (laid : T.code[g.code.size]? = some ⟨op, args, ""⟩) (distinct : Distinct T.code)
    (target : T.code[g'.code.size]? = some ⟨.label, [.label l], ""⟩)
    (effect : m.exec H rs op args = m.jump l)
    (rest : ∀ n, regs n = regs m → view n = view m → n.clock = m.clock + 1 → At T g' n →
      Reach H rs noted n Q) : Reach H rs noted m Q := by
  have placed : Placed m.code l g'.code.size := by
    rw [here.code]
    exact ⟨_, target, by simp [places]⟩
  rw [jump_of_placed (here.code ▸ distinct) placed] at effect
  exact Reach.exec (here.stands laid) effect (rest _ rfl rfl rfl ⟨here.code, rfl⟩)

/-- Executes an instruction that goes to a label if a condition holds. -/
theorem jumpIf {Q : Machine W → Prop} {l : String} {g' : Emit.Gen} {f : Flags} (here : At T g m) (cond : Flags → Bool)
    (laid : T.code[g.code.size]? = some ⟨op, [.label l], ""⟩)
    (conditional : m.exec H rs op [.label l] = m.jumpIf cond l) (flags : m.flags = some f)
    (distinct : Distinct T.code) (target : T.code[g'.code.size]? = some ⟨.label, [.label l], ""⟩)
    (taken : cond f = true → ∀ n, regs n = regs m → view n = view m → At T g' n → Reach H rs noted n Q)
    (fallen : cond f = false → ∀ n, regs n = regs m → view n = view m → At T (g.push op [.label l]) n →
      Reach H rs noted n Q) : Reach H rs noted m Q := by
  cases holds : cond f with
  | true =>
      refine here.jump laid distinct target ?_ fun n regs view _ => taken holds n regs view
      simp [conditional, Machine.jumpIf, holds?, flags, holds]
  | false =>
      have effect : m.exec H rs op [.label l] = .next m.next := by
        simp [conditional, Machine.jumpIf, holds?, flags, holds]
      exact here.next laid effect rfl rfl fun n regs view _ => fallen holds n regs view

end At

end Machine

end Lantern
