import Lantern.Convention

/-!
# Lines of assembly text

An instruction of the model expands to lines of the machine's own instructions. The machine cannot
name two places in memory at once, nor use a constant beyond 32 bits except in a move to a register;
where the model does so, the value goes through `r10`, which the generator never uses.

* `prologue` ↦ save `rbp` and `rbx`, reserve the frame
* `epilogue` ↦ restore them and return
* `setarg i, x` ↦ move `x` to where argument `i` travels
* `loadparam i, x` ↦ move argument `i` from where it travelled to `x`
-/

namespace Lantern.Nasm

open Assembly

/-- An operand of a machine instruction. -/
inductive Place where
  /-- A register. -/
  | reg (r : Reg)
  /-- A constant. -/
  | imm (value : Int64)
  /-- A word in memory at a distance from a register, written with its sign. -/
  | mem (base : Reg) (offset : Int64)
  /-- A word in memory above a register: the distance is written as it is behind a plus sign. -/
  | above (base : Reg) (offset : Int64)
  /-- A word in memory at a symbol. -/
  | data (symbol : String)
  /-- The address of a symbol. -/
  | addr (symbol : String)
  /-- The address at a distance from a register. -/
  | near (base : Reg) (offset : Int64)
  /-- A name. -/
  | name (text : String)
  deriving Repr, DecidableEq, BEq

/-- A number as written. -/
def number (n : Int64) : String := toString n.toInt

/-- A number with its sign. -/
def withSign (n : Int64) : String := if n < 0 then number n else "+" ++ number n

/-- An operand as written. -/
def Place.text : Place → String
  | reg r => r.name
  | imm v => number v
  | mem r o => "qword [" ++ r.name ++ withSign o ++ "]"
  | above r o => "qword [" ++ r.name ++ "+" ++ number o ++ "]"
  | data s => "qword [" ++ s ++ "]"
  | addr s => "[" ++ s ++ "]"
  | near r o => "[" ++ r.name ++ withSign o ++ "]"
  | name t => t

/-- Whether an operand is a word in memory. -/
def Place.isMemory : Place → Bool
  | mem .. | above .. | data .. => true
  | _ => false

/-- Whether an operand is the address of a symbol. -/
def Place.isAddr : Place → Bool
  | addr .. => true
  | _ => false

/-- Whether an operand is a constant beyond 32 bits. -/
def Place.isWide : Place → Bool
  | imm v => v > 2147483647 || v < -2147483648
  | _ => false

/-- A line of a routine. -/
inductive Line where
  /-- A label. -/
  | label (name : String)
  /-- A remark. -/
  | remark (text : String)
  /-- An instruction without operands. -/
  | bare (op : String)
  /-- An instruction and its operands. -/
  | instr (op : String) (args : List Place)
  deriving Repr, DecidableEq

/-- A line as written, with its line ending. -/
def Line.text : Line → String
  | label n => n ++ ":\n"
  | remark t => "    ; " ++ t ++ "\n"
  | bare op => "    " ++ op ++ "\n"
  | instr op args => "    " ++ op ++ " " ++ ", ".intercalate (args.map Place.text) ++ "\n"

/-- The machine operand for an operand of the model. -/
def place : Operand → Place
  | .reg r => .reg r
  | .imm v => .imm v
  | .slot i => .mem .rbp (Convention.slotOffset i)
  | .data s => .data s
  | .addr s => .addr s
  | .label l => .name l
  | .arg i => .name (Operand.arg i).show

/-- The register that values go through. -/
def through : Place := .reg .r10

/-- Moves `src` to `dst`; an address is loaded, not moved. -/
def move (dst src : Place) : List Line :=
  if src.isAddr && dst.isMemory then [.instr "lea" [through, src], .instr "mov" [dst, through]]
  else if src.isAddr then [.instr "lea" [dst, src]]
  else if dst.isMemory && (src.isMemory || src.isWide) then
    [.instr "mov" [through, src], .instr "mov" [dst, through]]
  else [.instr "mov" [dst, src]]

/-- An operation on `dst` and `src`. -/
def combine (op : Op) (dst src : Place) : List Line :=
  if src.isWide || (dst.isMemory && src.isMemory) then
    [.instr "mov" [through, src], .instr op.name [dst, through]]
  else [.instr op.name [dst, src]]

/-- Whether an operation combines a destination with a source. -/
def combines : Op → Bool
  | .add | .sub | .imul | .cmp | .xor | .test | .cmovnz | .lea | .movzx => true
  | _ => false

/-- The lines of an instruction in a routine with the given frame. -/
def expand (c : Convention) (frame : Int64) (i : Instr) : List Line :=
  match i.op, i.args with
  | .label, a :: _ => [.label (place a).text]
  | .prologue, _ =>
    [.instr "push" [.reg .rbp], .instr "mov" [.reg .rbp, .reg .rsp], .instr "push" [.reg .rbx],
     .instr "sub" [.reg .rsp, .imm frame]]
  | .epilogue, _ =>
    [.instr "lea" [.reg .rsp, .near .rbp (-8)], .instr "pop" [.reg .rbx], .instr "pop" [.reg .rbp],
     .bare "ret"]
  | .setarg, .arg n :: src :: _ =>
    match c.argPlace n.toNat with
    | .reg r => move (.reg r) (place src)
    | .stack off => move through (place src) ++ [.instr "mov" [.above .rsp off, through]]
  | .loadparam, .arg n :: dst :: _ =>
    match c.argPlace n.toNat with
    | .reg r => move (place dst) (.reg r)
    | .stack _ =>
      .instr "mov" [through, .above .rbp (c.paramOffset n)] :: move (place dst) through
  | .cqo, _ => [.bare "cqo"]
  | .mov, dst :: src :: _ => move (place dst) (place src)
  | op, args =>
    match combines op, args with
    | true, dst :: src :: _ => combine op (place dst) (place src)
    | _, _ => [.instr op.name (args.map place)]

/-- The lines of a routine below its name. -/
def routineLines (c : Convention) (r : Routine) : List Line :=
  let frame := c.frameSize r.slots r.maxCallArgs
  r.code.flatMap fun i =>
    (if i.remark.isEmpty then [] else [.remark i.remark]) ++ expand c frame i

end Lantern.Nasm
