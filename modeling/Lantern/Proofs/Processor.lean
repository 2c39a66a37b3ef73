import Lantern.Proofs.Cpu

/-!
# A processor with flags

Runs the lines that operations on two operands expand to. Where `Cpu` follows words through calls, this machine
keeps its memory byte by byte, reads and writes parts of registers, and sets its flags at every operation. A line
that cannot be encoded has no effect here: it names two places in memory, moves a constant beyond 32 bits
elsewhere than to a register, or combines operands of different sizes.
-/

namespace Lantern.Nasm

open Assembly

/-! ## What can be encoded -/

namespace Place

/-- Whether an operand is written in brackets. An encoding has room for one that is. -/
def isBracketed : Place → Bool
  | .mem .. | .above .. | .data _ | .addr _ | .near .. => true
  | _ => false

/-- Whether an operand is a register. -/
def isReg : Place → Bool
  | .reg _ => true
  | _ => false

end Place

/-- A line has at most one operand in memory, and a constant beyond 32 bits only in a move to a register. -/
def Line.isEncodable : Line → Bool
  | .instr op args => decide (args.countP Place.isBracketed ≤ 1) &&
      args.all fun a => !a.isWide || (op == "mov" && args.head?.any Place.isReg)
  | _ => true

/-- How much of a register an operand names. -/
inductive Part where
  | whole
  /-- The low half. -/
  | half
  /-- The low byte. -/
  | byte
  deriving Repr, DecidableEq

namespace Part

/-- The register that a name belongs to, and how much of it is meant. -/
def of? : Reg → Option (Reg × Part)
  | .eax => some (.rax, .half)
  | .edx => some (.rdx, .half)
  | .al => some (.rax, .byte)
  | .other _ => none
  | r => some (r, .whole)

/-- The value of a part; that of the low half is a signed number. -/
def read : Part → Word → Word
  | whole, w => w
  | half, w => lowHalf w
  | byte, w => lowByte w

/-- A register a part of which is given a value. Writing to the low half clears the other. -/
def write : Part → Word → Word → Word
  | whole, _, v => v
  | half, _, v => wideHalf v
  | byte, old, v => setLowByte old v

theorem of?_eq_of_isWhole {r : Reg} (whole : isWhole r = true) : of? r = some (r, .whole) := by
  cases r <;> first | rfl | cases whole

end Part

/-- The size of an operand; a constant has none of its own. -/
def Place.part? : Place → Option Part
  | .reg r => (Part.of? r).map Prod.snd
  | .mem .. | .above .. | .data _ => some .whole
  | _ => none

/-- Whether a source has the size of a destination. Constants have that of a whole word. -/
def Place.fits (src d : Place) : Bool :=
  match src with
  | .imm _ => d.part? == some .whole
  | _ => d.part?.isSome && src.part? == d.part?

/-- Whether an operation takes a destination and a source. -/
def takes (op : Op) (d src : Place) : Bool :=
  let wholeReg := d.isReg && d.part? == some .whole
  match op with
  | .mov => src.fits d
  | .add | .sub | .cmp | .xor | .test => src.fits d && d.part? != some .byte
  | .imul => wholeReg && src.fits d
  | .cmovnz => wholeReg && src.part? == some .whole
  | .lea => wholeReg && src.isAddr
  | .movzx => wholeReg && src.part? == some .byte
  | _ => false

/-! ## Flags -/

/-- The flags that conditions on signed numbers are read off. -/
structure Status where
  /-- The result was zero. -/
  zero : Bool
  /-- The result was negative. -/
  sign : Bool
  /-- The result was not the exact one. -/
  overflow : Bool
  deriving Repr, DecidableEq

namespace Status

/-- What the conditions read: a first operand was less than a second if the sign of their difference is wrong
    where it overflowed, and right where it did not. -/
def flags (f : Status) : Flags := ⟨f.zero, f.sign != f.overflow⟩

/-- The flags behind an operation on operands of a size, whose exact result is known. -/
def arithmetic (p : Part) (w : Word) (exact : Int) : Status :=
  ⟨p.read w == 0, decide (p.read w < 0), decide ((p.read w).toInt ≠ exact)⟩

/-- The flags behind an operation on bits, which does not overflow. -/
def logical (p : Part) (w : Word) : Status := ⟨p.read w == 0, decide (p.read w < 0), false⟩

/-- The flags of a difference say which of two words is less. -/
theorem flags_difference (a b : Word) :
    (arithmetic .whole (a - b) (a.toInt - b.toInt)).flags = ⟨a == b, decide (a < b)⟩ := by
  have equal : (a - b == 0) = (a == b) := by
    rw [Bool.eq_iff_iff, beq_iff_eq, beq_iff_eq]
    exact ⟨fun same => by simpa using congrArg (· + b) same, fun same => by simp [same]⟩
  have less : (decide (a - b < 0) != decide ((a - b).toInt ≠ a.toInt - b.toInt)) = decide (a < b) := by
    have residue : (a - b).toInt % 2 ^ 64 = (a.toInt - b.toInt) % 2 ^ 64 := by
      rw [Int64.toInt_sub]
      exact Int.bmod_emod
    have := a.le_toInt
    have := a.toInt_lt
    have := b.le_toInt
    have := b.toInt_lt
    have := (a - b).le_toInt
    have := (a - b).toInt_lt
    have zero : (0 : Word).toInt = 0 := rfl
    rw [Bool.eq_iff_iff]
    simp only [bne_iff_ne, ne_eq, decide_eq_decide, decide_eq_true_eq, Int64.lt_iff_toInt_lt, zero]
    omega
  exact congrArg₂ Flags.mk equal less

theorem flags_logical (p : Part) (w : Word) : (logical p w).flags = ⟨p.read w == 0, decide (p.read w < 0)⟩ := by
  simp [flags, logical]

end Status

/-- The result of an operation on two words, where it is kept, and the flags behind it. A multiplication leaves
    the first two flags as it likes: `undefined` says how. -/
def operate (undefined : Word → Word → Bool × Bool) (p : Part) :
    Op → Word → Word → Option (Option Word × Status)
  | .add, a, b => some (some (a + b), .arithmetic p (a + b) (a.toInt + b.toInt))
  | .sub, a, b => some (some (a - b), .arithmetic p (a - b) (a.toInt - b.toInt))
  | .cmp, a, b => some (none, .arithmetic p (a - b) (a.toInt - b.toInt))
  | .imul, a, b =>
    let (zero, sign) := undefined a b
    some (some (a * b), ⟨zero, sign, (Status.arithmetic p (a * b) (a.toInt * b.toInt)).overflow⟩)
  | .xor, a, b => some (some (a ^^^ b), .logical p (a ^^^ b))
  | .test, a, b => some (none, .logical p (a &&& b))
  | _, _, _ => none

/-! ## Words in memory -/

/-- A byte of a word, the lowest first. -/
def byteAt (w : Word) (k : Nat) : UInt8 := UInt8.ofNat (w.toUInt64.toNat / 256 ^ k)

/-- The word made of eight bytes, the lowest first. -/
def wordOf (byte : Nat → UInt8) : Word :=
  (UInt64.ofNat (Nat.ofDigits 256 ((List.range 8).map fun k => (byte k).toNat))).toInt64

theorem wordOf_byteAt (w : Word) : wordOf (byteAt w) = w := by
  have small := w.toUInt64.toNat_lt
  have digits : Nat.ofDigits 256 ((List.range 8).map fun k => (byteAt w k).toNat) = w.toUInt64.toNat := by
    simp only [List.range, List.range.loop, List.map_cons, List.map_nil, Nat.ofDigits_cons, Nat.ofDigits_nil,
      byteAt, UInt8.toNat_ofNat']
    omega
  rw [wordOf, digits, UInt64.ofNat_toNat]
  rfl

/-! ## The machine -/

/-- The state of the processor and of its memory. -/
structure Processor where
  /-- The registers by their whole names. -/
  regs : Reg → Word
  /-- The bytes of the memory. -/
  memory : Word → UInt8
  status : Status

/-- How far an address lies above the first byte of a word. -/
def distance (a b : Word) : Nat := (b - a).toUInt64.toNat

namespace Processor

/-- The word at an address. -/
def load (s : Processor) (a : Word) : Word := wordOf fun k => s.memory (a + Int64.ofNat k)

/-- Gives the word at an address a value. -/
def store (s : Processor) (a v : Word) : Processor :=
  { s with memory := fun b => if distance a b < 8 then byteAt v (distance a b) else s.memory b }

/-- Gives a register a value. -/
def set (s : Processor) (r : Reg) (v : Word) : Processor := { s with regs := Function.update s.regs r v }

/-- Gives the flags a value. -/
def settle (s : Processor) (f : Status) : Processor := { s with status := f }

theorem load_store (s : Processor) (a v : Word) : (s.store a v).load a = v := by
  have near {k : Nat} (small : k < 8) : distance a (a + Int64.ofNat k) = k := by
    have : a + Int64.ofNat k - a = Int64.ofNat k := by rw [Int64.add_comm, Int64.add_sub_cancel]
    rw [distance, this]
    simp
    omega
  have bytes : (List.range 8).map (fun k => ((s.store a v).memory (a + Int64.ofNat k)).toNat) =
      (List.range 8).map fun k => (byteAt v k).toNat :=
    List.map_congr_left fun k inside => by
      have small := List.mem_range.mp inside
      simp only [store, near small, small, if_true]
  exact (congrArg (fun digits => (UInt64.ofNat (Nat.ofDigits 256 digits)).toInt64) bytes).trans (wordOf_byteAt v)

theorem memory_store {s : Processor} {a b v : Word} (beyond : 8 ≤ distance a b) :
    (s.store a v).memory b = s.memory b := if_neg (Nat.not_lt.mpr beyond)

@[simp] theorem regs_settle (s : Processor) (f : Status) : (s.settle f).regs = s.regs := rfl
@[simp] theorem memory_settle (s : Processor) (f : Status) : (s.settle f).memory = s.memory := rfl
@[simp] theorem status_settle (s : Processor) (f : Status) : (s.settle f).status = f := rfl

@[simp] theorem regs_store (s : Processor) (a v : Word) : (s.store a v).regs = s.regs := rfl
@[simp] theorem status_store (s : Processor) (a v : Word) : (s.store a v).status = s.status := rfl

@[simp] theorem regs_set_self (s : Processor) (r : Reg) (v : Word) : (s.set r v).regs r = v := by simp [set]

theorem regs_set (s : Processor) {r r' : Reg} (v : Word) (other : r' ≠ r) : (s.set r v).regs r' = s.regs r' := by
  simp [set, Function.update_of_ne other]

variable (address : String → Word) (undefined : Word → Word → Bool × Bool)

/-- The value of an operand, where symbols have the given addresses. -/
def value (s : Processor) : Place → Option Word
  | .reg r => (Part.of? r).map fun (q, p) => p.read (s.regs q)
  | .imm v => some v
  | .mem b o | .above b o => if isWhole b then some (s.load (s.regs b + o)) else none
  | .data x => some (s.load (address x))
  | _ => none

/-- Gives an operand a value. -/
def assign (s : Processor) : Place → Word → Option Processor
  | .reg r, v => (Part.of? r).map fun (q, p) => s.set q (p.write (s.regs q) v)
  | .mem b o, v | .above b o, v => if isWhole b then some (s.store (s.regs b + o) v) else none
  | .data x, v => some (s.store (address x) v)
  | _, _ => none

/-- What an operation does. -/
def perform (s : Processor) (op : Op) (d src : Place) : Option Processor :=
  match op with
  | .mov | .movzx => (s.value address src).bind (s.assign address d)
  | .cmovnz => if s.status.zero then some s else (s.value address src).bind (s.assign address d)
  | .lea =>
    match src with
    | .addr x => s.assign address d (address x)
    | _ => none
  | op => do
    let a ← s.value address d
    let b ← s.value address src
    let (result, status) ← operate undefined ((d.part?).getD .whole) op a b
    match result with
    | some w => (s.settle status).assign address d w
    | none => some (s.settle status)

/-- What a line with an operation on two operands does. -/
def execute (s : Processor) : Line → Option Processor
  | .instr name [d, src] => do
    let op ← Op.ofName? name
    if (Line.instr name [d, src]).isEncodable && takes op d src then s.perform address undefined op d src else none
  | _ => none

/-- What such lines do in order. -/
def run (ls : List Line) (s : Processor) : Option Processor := ls.foldlM (execute address undefined) s

section

variable {address : String → Word} {undefined : Word → Word → Bool × Bool} {s : Processor}

theorem run_cons (l : Line) (ls : List Line) :
    run address undefined (l :: ls) s = (s.execute address undefined l).bind (run address undefined ls) := rfl

theorem run_single (l : Line) : run address undefined [l] s = s.execute address undefined l := by
  rw [run_cons]
  exact Option.bind_fun_some _

theorem execute_eq (op : Op) {d src : Place} (encodable : (Line.instr op.name [d, src]).isEncodable)
    (taken : takes op d src) :
    s.execute address undefined (.instr op.name [d, src]) = s.perform address undefined op d src := by
  have found : Op.ofName? op.name = some op := by cases op <;> rfl
  simp only [execute, found, Option.bind_eq_bind, Option.bind_some, encodable, taken, Bool.and_self, if_true]

/-- What an operation does that sets the flags. -/
theorem perform_of_operate {op : Op} {d src : Place} {p : Part} {a b : Word} {result : Option Word} {f : Status}
    (size : d.part? = some p) (left : s.value address d = some a) (right : s.value address src = some b)
    (gives : operate undefined p op a b = some (result, f)) :
    s.perform address undefined op d src = result.elim (some (s.settle f)) ((s.settle f).assign address d) := by
  cases op <;> first
    | (cases gives; done)
    | simp only [perform, Option.bind_eq_bind, left, right, Option.bind_some, size, Option.getD_some, gives]
      cases result <;> rfl

theorem perform_kept {op : Op} {d src : Place} {p : Part} {a b w : Word} {f : Status} (size : d.part? = some p)
    (left : s.value address d = some a) (right : s.value address src = some b)
    (gives : operate undefined p op a b = some (some w, f)) :
    s.perform address undefined op d src = (s.settle f).assign address d w :=
  perform_of_operate size left right gives

theorem perform_settled {op : Op} {d src : Place} {p : Part} {a b : Word} {f : Status} (size : d.part? = some p)
    (left : s.value address d = some a) (right : s.value address src = some b)
    (gives : operate undefined p op a b = some (none, f)) :
    s.perform address undefined op d src = some (s.settle f) :=
  perform_of_operate size left right gives

theorem value_reg {r : Reg} (whole : isWhole r = true) : s.value address (.reg r) = some (s.regs r) := by
  simp [value, Part.of?_eq_of_isWhole whole, Part.read]

theorem assign_reg {r : Reg} (whole : isWhole r = true) (v : Word) :
    s.assign address (.reg r) v = some (s.set r v) := by
  simp [assign, Part.of?_eq_of_isWhole whole, Part.write]

end

end Processor

/-- Whatever is read in a line that gives a register a value, the line can be encoded, but for constants beyond
    32 bits. -/
theorem encodable_reg {name : String} {src : Place} (narrow : src.isWide = false ∨ name = "mov") (r : Reg) :
    (Line.instr name [.reg r, src]).isEncodable := by
  have wide : src.isWide = true → name = "mov" := by grind
  cases src <;> simp_all [Line.isEncodable, Place.isBracketed, Place.isReg, Place.isWide]

theorem part?_of_isWhole {r : Reg} (whole : isWhole r = true) : (Place.reg r).part? = some .whole := by
  simp [Place.part?, Part.of?_eq_of_isWhole whole]

end Lantern.Nasm
