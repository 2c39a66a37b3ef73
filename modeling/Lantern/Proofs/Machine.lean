import Mathlib
import Lantern.Emit

/-!
# A machine for the instruction model

Runs the instructions of a generated program as they stand, before a backend expands them. A frame is
a row of words that no other routine can reach, arguments travel in a list of their own, and what the
program calls but does not hold is answered by a host, about which nothing is assumed here. Flags are
only known behind a comparison: an instruction that reads them anywhere else has no effect that this
machine would answer for.
-/

namespace Lantern

open Assembly

/-- A machine word. -/
abbrev Word := Int64

/-- What a comparison leaves behind. -/
structure Flags where
  /-- The operands were equal, or had no bit in common. -/
  zero : Bool
  /-- The first operand was less than the second, as signed numbers. -/
  less : Bool
  deriving Repr, DecidableEq

/-- What a routine of the host leaves behind, in the registers that it may change. -/
structure Answer (W : Type) where
  /-- The host afterwards. -/
  world : W
  /-- The result. -/
  rax : Word
  /-- What is left in the exception register. -/
  rdx : Word
  /-- What is left in the register for addresses. -/
  r11 : Word

/-- What lies outside of the generated code; `W` is the state of the run-time library. -/
structure Host (W : Type) where
  /-- The address of a symbol. -/
  address : String → Word
  /-- What a routine answers to its arguments. -/
  answer : W → String → List Word → Answer W
  /-- What a new frame holds before anything is written to it. -/
  stale : W → Int → Word
  /-- Whether an argument travels in `rdx`. -/
  inRdx : Int → Bool
  /-- The type of the exception at an address, if there is one. -/
  typeOf : W → Word → Option String

/-- What can be observed of a run. -/
inductive Event where
  /-- A call of the printing routine. -/
  | print (args : List Word)
  /-- A guarded statement with a last block is entered. -/
  | enter (body last : Stmt)
  /-- A last block starts. -/
  | last (block : Stmt)
  /-- A handler starts. -/
  | handler (c : Catch)

/-- An activation that waits for a routine it called. -/
structure Activation where
  /-- Its code. -/
  code : List Instr
  /-- Where it goes on. -/
  pc : Nat
  /-- Its frame. -/
  slots : Int → Word
  /-- Its arguments. -/
  params : List Word
  /-- The `rbx` of its caller. -/
  saved : Word

/-- The state of the machine. -/
structure Machine (W : Type) where
  rax : Word
  rbx : Word
  rdx : Word
  r11 : Word
  /-- The flags, where they are known. -/
  flags : Option Flags
  /-- Arguments placed for the next call. -/
  args : List Word
  /-- The code of the routine under way. -/
  code : List Instr
  /-- The place of the next instruction. -/
  pc : Nat
  /-- The frame. -/
  slots : Int → Word
  /-- Arguments of the routine. -/
  params : List Word
  /-- The `rbx` of the caller. -/
  saved : Word
  /-- The activations that wait, innermost first. -/
  callers : List Activation
  /-- The data section. -/
  data : String → Word
  /-- The state of the host. -/
  world : W
  /-- What has been observed. -/
  trace : List Event
  /-- The number of instructions executed. -/
  clock : Nat

/-- What executing an instruction does. -/
inductive Effect (W : Type) where
  /-- The machine goes on. -/
  | next (m : Machine W)
  /-- A division that has no result stops the program. -/
  | fault
  /-- The outermost routine returns. -/
  | halt
  /-- There is no instruction, or none with an effect. -/
  | stuck

/-- The low half of a word, as a signed number. -/
def lowHalf (w : Word) : Word := w.toInt32.toInt64

/-- The low half of a word with zeros above it, which is what writing to a low half leaves. -/
def wideHalf (w : Word) : Word := w &&& 0xffffffff

/-- The low byte of a word. -/
def lowByte (w : Word) : Word := w &&& 255

/-- A word with another low byte. -/
def setLowByte (w byte : Word) : Word := (w &&& -256) ||| lowByte byte

/-- The number a division divides: `high` and `low` are its halves. -/
def dividend (high low : Word) : Int := high.toInt * 2 ^ 64 + low.toUInt64.toNat

namespace Machine

variable {W : Type} (H : Host W) (rs : List Routine)

/-- The value of an operand. -/
def read (m : Machine W) : Operand → Option Word
  | .reg .rax => some m.rax
  | .reg .rbx => some m.rbx
  | .reg .rdx => some m.rdx
  | .reg .r11 => some m.r11
  | .reg .eax => some (lowHalf m.rax)
  | .reg .edx => some (lowHalf m.rdx)
  | .reg .al => some (lowByte m.rax)
  | .imm v => some v
  | .slot i => some (m.slots i)
  | .data s => some (m.data s)
  | .addr s => some (H.address s)
  | _ => none

/-- Gives an operand a value. -/
def write (m : Machine W) : Operand → Word → Option (Machine W)
  | .reg .rax, v => some { m with rax := v }
  | .reg .rbx, v => some { m with rbx := v }
  | .reg .rdx, v => some { m with rdx := v }
  | .reg .r11, v => some { m with r11 := v }
  | .reg .eax, v => some { m with rax := wideHalf v }
  | .reg .edx, v => some { m with rdx := wideHalf v }
  | .reg .al, v => some { m with rax := setLowByte m.rax v }
  | .slot i, v => some { m with slots := Function.update m.slots i v }
  | .data s, v => some { m with data := Function.update m.data s v }
  | _, _ => none

/-- Goes on behind the instruction. -/
def next (m : Machine W) : Machine W := { m with pc := m.pc + 1 }

/-- Gives an operand the value of an instruction and goes on. -/
def put (m : Machine W) (dst : Operand) : Option Word → Effect W
  | none => .stuck
  | some v =>
    match m.write dst v with
    | some m => .next m.next
    | none => .stuck

/-- An operation on words, which leaves the flags in no known state. -/
def arith (f : Word → Word → Word) (m : Machine W) (dst src : Operand) : Effect W :=
  match m.read H dst, m.read H src with
  | some a, some b => { m with flags := none }.put dst (some (f a b))
  | _, _ => .stuck

/-- Sets the flags by two values. -/
def compare (f : Word → Word → Flags) (m : Machine W) (a b : Operand) : Effect W :=
  match m.read H a, m.read H b with
  | some a, some b => .next { m with flags := some (f a b) }.next
  | _, _ => .stuck

/-- Reads a condition off the flags. -/
def holds? (m : Machine W) (cond : Flags → Bool) : Option Bool := m.flags.map cond

/-- Stores a condition as 0 or 1. -/
def setIf (m : Machine W) (cond : Flags → Bool) (dst : Operand) : Effect W :=
  m.put dst ((m.holds? cond).map fun b => if b then 1 else 0)

/-- Whether an instruction places the label. -/
def places (l : String) (i : Instr) : Bool := decide (i.op = .label ∧ i.args = [.label l])

/-- Goes to a label of the routine. -/
def jump (m : Machine W) (l : String) : Effect W :=
  match m.code.findIdx? (places l) with
  | some k => .next { m with pc := k }
  | none => .stuck

/-- Goes to a label if a condition holds. -/
def jumpIf (m : Machine W) (cond : Flags → Bool) (l : String) : Effect W :=
  match m.holds? cond with
  | some true => m.jump l
  | some false => .next m.next
  | none => .stuck

/-- Divides `rdx` and `rax`, taken together, leaving the quotient in `rax` and the remainder in `rdx`.
    A divisor of zero and a quotient that is no word are faults. -/
def divide (m : Machine W) (divisor : Word) : Effect W :=
  let a := dividend m.rdx m.rax
  let q := a.tdiv divisor.toInt
  if divisor = 0 ∨ q < -2 ^ 63 ∨ 2 ^ 63 ≤ q then .fault
  else .next { m with
    rax := Int64.ofInt q
    rdx := Int64.ofInt (a.tmod divisor.toInt)
    flags := none }.next

/-- Enters a routine of the program. -/
def enter (m : Machine W) (r : Routine) : Machine W :=
  { m with
    flags := none
    args := []
    code := r.code
    pc := 0
    slots := H.stale m.world
    params := m.args
    saved := 0
    callers := ⟨m.code, m.pc + 1, m.slots, m.params, m.saved⟩ :: m.callers }

/-- Lets the host answer a call. -/
def ask (m : Machine W) (name : String) : Machine W :=
  let a := H.answer m.world name m.args
  { m with
    rax := a.rax
    rdx := a.rdx
    r11 := a.r11
    flags := none
    args := []
    pc := m.pc + 1
    world := a.world
    trace := if name = "printf" then m.trace ++ [.print m.args] else m.trace }

/-- Calls a routine of the program or of the host. -/
def call (m : Machine W) (name : String) : Effect W :=
  match rs.find? (·.name == name) with
  | some r => .next (m.enter H r)
  | none => .next (m.ask H name)

/-- Calls the routine at an address. -/
def callAt (m : Machine W) (address : Word) : Effect W :=
  match rs.find? (H.address ·.name == address) with
  | some r => .next (m.enter H r)
  | none => .stuck

/-- Goes back to the caller. -/
def leave (m : Machine W) : Effect W :=
  match m.callers with
  | [] => .halt
  | a :: rest => .next { m with
    rbx := m.saved
    flags := none
    args := []
    code := a.code
    pc := a.pc
    slots := a.slots
    params := a.params
    saved := a.saved
    callers := rest }

/-- Places an argument for a call. -/
def setArg (m : Machine W) (i : Int) (v : Word) : Effect W :=
  if i = m.args.length then
    .next { m with args := m.args ++ [v], rdx := if H.inRdx i then v else m.rdx }.next
  else .stuck

/-- Executes an operation. -/
def exec (m : Machine W) : Op → List Operand → Effect W
  | .mov, [d, s] => m.put d (m.read H s)
  | .lea, [d, .addr s] => m.put d (some (H.address s))
  | .movzx, [d, s] => m.put d (m.read H s)
  | .add, [d, s] => m.arith H (· + ·) d s
  | .sub, [d, s] => m.arith H (· - ·) d s
  | .imul, [d, s] => m.arith H (· * ·) d s
  | .xor, [d, s] => m.arith H (· ^^^ ·) d s
  | .neg, [d] => m.arith H (fun a _ => -a) d d
  | .cqo, [] => .next { m with rdx := if m.rax < 0 then -1 else 0 }.next
  | .idiv, [s] =>
    match m.read H s with
    | some b => m.divide b
    | none => .stuck
  | .cmp, [a, b] => m.compare H (fun a b => ⟨a == b, decide (a < b)⟩) a b
  | .test, [a, b] => m.compare H (fun a b => ⟨a &&& b == 0, decide (a &&& b < 0)⟩) a b
  | .sete, [d] => m.setIf (·.zero) d
  | .setne, [d] => m.setIf (!·.zero) d
  | .setl, [d] => m.setIf (·.less) d
  | .setg, [d] => m.setIf (fun f => !f.zero && !f.less) d
  | .setle, [d] => m.setIf (fun f => f.zero || f.less) d
  | .setge, [d] => m.setIf (!·.less) d
  | .cmovnz, [d, s] =>
    match m.holds? (!·.zero) with
    | some true => m.put d (m.read H s)
    | some false => .next m.next
    | none => .stuck
  | .jmp, [.label l] => m.jump l
  | .jz, [.label l] => m.jumpIf (·.zero) l
  | .jnz, [.label l] => m.jumpIf (!·.zero) l
  | .jge, [.label l] => m.jumpIf (!·.less) l
  | .jle, [.label l] => m.jumpIf (fun f => f.zero || f.less) l
  | .call, [.label f] => m.call H rs f
  | .call, [.reg .r11] => m.callAt H rs m.r11
  | .label, [.label _] => .next m.next
  | .prologue, [] => .next { m with saved := m.rbx }.next
  | .epilogue, [] => m.leave
  | .setarg, [.arg i, s] =>
    match m.read H s with
    | some v => m.setArg H i v
    | none => .stuck
  | .loadparam, [.arg i, .slot j] => m.put (.slot j) (m.params[i.toNat]?)
  | _, _ => .stuck

/-- Executes the next instruction, which takes one tick of the clock. -/
def step (m : Machine W) : Effect W :=
  match m.code[m.pc]? with
  | some i =>
    match m.exec H rs i.op i.args with
    | .next m' => .next { m' with clock := m.clock + 1 }
    | e => e
  | none => .stuck

end Machine

end Lantern
