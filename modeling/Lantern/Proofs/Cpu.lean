import Lantern.Nasm.Line
import Lantern.Proofs.Machine

/-!
# A machine for assembly text

Runs the lines that a routine's instructions expand to. Registers and memory hold words; memory is
read and written by whole words at multiples of eight, so that two words share no byte unless their
addresses are equal. A line that the processor cannot encode, or that touches memory elsewhere, has no
effect that this machine would answer for.
-/

namespace Lantern.Nasm

open Assembly

/-! ## Addresses -/

/-- The word at a distance from another. -/
def shift (a : Word) (d : Int) : Word := a + Int64.ofInt d

theorem shift_zero (a : Word) : shift a 0 = a := by
  have zero : Int64.ofInt 0 = 0 := rfl
  simp [shift, zero]

@[simp] theorem shift_shift (a : Word) (d e : Int) : shift (shift a d) e = shift a (d + e) := by
  simp [shift, Int64.ofInt_add, Int64.add_assoc]

theorem emod_toInt_shift (a : Word) (d : Int) {m : Int} (divides : m ∣ 2 ^ 64) :
    (shift a d).toInt % m = (a.toInt + d) % m := by
  have whole : (shift a d).toInt % 2 ^ 64 = (a.toInt + d) % 2 ^ 64 := by
    have left := Int.bmod_emod (x := a.toInt + (Int64.ofInt d).toInt) (m := 2 ^ 64)
    have right := Int.bmod_emod (x := d) (m := 2 ^ 64)
    have size : Int64.size = 2 ^ 64 := rfl
    rw [shift, Int64.toInt_add, Int64.toInt_ofInt]
    rw [Int64.toInt_ofInt] at left
    simp only [size, Nat.cast_pow, Nat.cast_ofNat] at left right ⊢
    omega
  rw [← Int.emod_emod_of_dvd _ divides, whole, Int.emod_emod_of_dvd _ divides]

theorem shift_inj {a : Word} {d e : Int} (same : shift a d = shift a e) (above : d - e < 2 ^ 64)
    (below : e - d < 2 ^ 64) : d = e := by
  have left := emod_toInt_shift a d (dvd_refl _)
  have right := emod_toInt_shift a e (dvd_refl _)
  rw [same] at left
  omega

/-- Words may be read and written here. -/
def Aligned (a : Word) : Prop := a.toInt % 8 = 0

instance (a : Word) : Decidable (Aligned a) := inferInstanceAs (Decidable (_ = _))

theorem Aligned.shift {a : Word} {d : Int} (aligned : Aligned a) (whole : d % 8 = 0) :
    Aligned (shift a d) := by
  have same := emod_toInt_shift a d (m := 8) (by decide)
  unfold Aligned at aligned ⊢
  omega

/-! ## The machine -/

/-- The state of the processor and of its memory, the data section apart. -/
structure Cpu where
  regs : Reg → Word
  memory : Word → Word
  data : String → Word

/-- Whether a register is a whole one, and not a part of another. -/
def isWhole : Reg → Bool
  | .eax | .edx | .al | .other _ => false
  | _ => true

namespace Cpu

/-- Gives a register a value. -/
def set (s : Cpu) (r : Reg) (v : Word) : Cpu := { s with regs := Function.update s.regs r v }

/-- Gives a word of memory a value. -/
def put (s : Cpu) (a v : Word) : Cpu := { s with memory := Function.update s.memory a v }

/-- The value of an operand. -/
def read (s : Cpu) : Place → Option Word
  | .reg r => if isWhole r then some (s.regs r) else none
  | .imm v => some v
  | .mem b o | .above b o => if Aligned (s.regs b + o) then some (s.memory (s.regs b + o)) else none
  | .data d => some (s.data d)
  | _ => none

/-- Gives an operand a value. -/
def write (s : Cpu) : Place → Word → Option Cpu
  | .reg r, v => if isWhole r then some (s.set r v) else none
  | .mem b o, v | .above b o, v =>
    if Aligned (s.regs b + o) then some (s.put (s.regs b + o) v) else none
  | .data d, v => some { s with data := Function.update s.data d v }
  | _, _ => none

/-- Moves the stack down by a word and stores a value there. -/
def push (s : Cpu) (v : Word) : Option Cpu :=
  let a := s.regs .rsp - 8
  if Aligned a then some ((s.set .rsp a).put a v) else none

section

variable (s : Cpu) (r : Reg) (a v : Word)

@[simp] theorem regs_set_self : (s.set r v).regs r = v := by simp [set]
@[simp] theorem memory_set : (s.set r v).memory = s.memory := rfl
@[simp] theorem data_set : (s.set r v).data = s.data := rfl
@[simp] theorem regs_put : (s.put a v).regs = s.regs := rfl
@[simp] theorem memory_put_self : (s.put a v).memory a = v := by simp [put]
@[simp] theorem data_put : (s.put a v).data = s.data := rfl

variable {r a}

theorem regs_set {r' : Reg} (other : r' ≠ r) : (s.set r v).regs r' = s.regs r' := by
  simp [set, Function.update_of_ne other]

theorem memory_put {a' : Word} (other : a' ≠ a) : (s.put a v).memory a' = s.memory a' := by
  simp [put, Function.update_of_ne other]

end

end Cpu

/-- What a line does, where symbols have the given addresses and `ret` is the place behind a call. A
    constant beyond 32 bits is only moved to a register, and no move names two places in memory. -/
def Line.exec (address : String → Word) (ret : Word) (s : Cpu) : Line → Option Cpu
  | .remark _ | .label _ => some s
  | .instr "call" [.name _] => s.push ret
  | .instr "push" [.reg r] => if isWhole r then s.push (s.regs r) else none
  | .instr "sub" [.reg r, .imm v] => s.write (.reg r) (s.regs r - v)
  | .instr "lea" [.reg r, .addr symbol] => s.write (.reg r) (address symbol)
  | .instr "mov" [d, src] =>
    if d.isMemory && (src.isMemory || src.isWide) then none else (s.read src).bind (s.write d)
  | _ => none

/-- What lines do in order. -/
def run (address : String → Word) (ret : Word) (ls : List Line) (s : Cpu) : Option Cpu :=
  ls.foldlM (Line.exec address ret) s

section

variable {address : String → Word} {ret : Word} {s s' : Cpu}

@[simp] theorem run_nil : run address ret [] s = some s := rfl

theorem run_cons (l : Line) (ls : List Line) :
    run address ret (l :: ls) s = (l.exec address ret s).bind (run address ret ls) := rfl

theorem run_append (ls ls' : List Line) :
    run address ret (ls ++ ls') s = (run address ret ls s).bind (run address ret ls') := by
  simp only [run, List.foldlM_append]
  rfl

theorem exec_mov_reg {q : Reg} {src : Place} {v : Word} (whole : isWhole q = true)
    (value : s.read src = some v) :
    Line.exec address ret s (.instr "mov" [.reg q, src]) = some (s.set q v) := by
  have plain : (Place.reg q).isMemory = false := rfl
  rw [Line.exec]
  simp only [plain, Bool.false_and, Bool.false_eq_true, if_false, value, Option.bind_some, Cpu.write,
    whole, if_true]

theorem exec_mov_mem {d : Place} {q : Reg} (whole : isWhole q = true) :
    Line.exec address ret s (.instr "mov" [d, .reg q]) = s.write d (s.regs q) := by
  have plain : (Place.reg q).isMemory = false ∧ (Place.reg q).isWide = false := ⟨rfl, rfl⟩
  rw [Line.exec]
  simp only [plain, Bool.or_false, Bool.and_false, Bool.false_eq_true, if_false, Cpu.read, whole,
    if_true, Option.bind_some]

theorem exec_lea {q : Reg} {symbol : String} (whole : isWhole q = true) :
    Line.exec address ret s (.instr "lea" [.reg q, .addr symbol]) = some (s.set q (address symbol)) := by
  rw [Line.exec]
  simp only [Cpu.write, whole, if_true]

theorem exec_push {q : Reg} (whole : isWhole q = true) :
    Line.exec address ret s (.instr "push" [.reg q]) = s.push (s.regs q) := by
  rw [Line.exec]
  simp only [whole, if_true]

theorem push_eq {a v : Word} (at_ : s.regs .rsp - 8 = a) (aligned : Aligned a) :
    s.push v = some ((s.set .rsp a).put a v) := by
  simp only [Cpu.push, at_, aligned, if_true]

end

end Lantern.Nasm
