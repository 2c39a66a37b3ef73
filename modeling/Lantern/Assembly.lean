/-!
# The instruction model

What the code generator produces: routines of instructions that no platform has had a say in. Calls
place their arguments with `setarg`, routines fetch theirs with `loadparam`, and frames are set up
and taken down by `prologue` and `epilogue`; a backend expands these for one calling convention.
-/

namespace Lantern.Assembly

/-- A register. -/
inductive Reg where
  | rax | rbx | rcx | rdx | rsi | rdi | rbp | rsp | r8 | r9 | r10 | r11 | r12 | r13 | r14 | r15
  /-- The low half of `rax`. -/
  | eax
  /-- The low half of `rdx`. -/
  | edx
  /-- The low byte of `rax`. -/
  | al
  /-- A register the generator has no use for. -/
  | other (name : String)
  deriving Repr, DecidableEq, BEq

namespace Reg

/-- The registers with a constructor of their own. -/
def named : List Reg :=
  [rax, rbx, rcx, rdx, rsi, rdi, rbp, rsp, r8, r9, r10, r11, r12, r13, r14, r15, eax, edx, al]

/-- The name of a register. -/
def name : Reg → String
  | rax => "rax"
  | rbx => "rbx"
  | rcx => "rcx"
  | rdx => "rdx"
  | rsi => "rsi"
  | rdi => "rdi"
  | rbp => "rbp"
  | rsp => "rsp"
  | r8 => "r8"
  | r9 => "r9"
  | r10 => "r10"
  | r11 => "r11"
  | r12 => "r12"
  | r13 => "r13"
  | r14 => "r14"
  | r15 => "r15"
  | eax => "eax"
  | edx => "edx"
  | al => "al"
  | other name => name

/-- The register of a given name. -/
def ofName (name : String) : Reg := (named.find? (·.name == name)).getD (.other name)

end Reg

/-- An operand of an instruction. -/
inductive Operand where
  /-- A register. -/
  | reg (r : Reg)
  /-- A constant. -/
  | imm (value : Int64)
  /-- A word of the frame. -/
  | slot (index : Int)
  /-- A word of the data section. -/
  | data (symbol : String)
  /-- The address of a data or code symbol. -/
  | addr (symbol : String)
  /-- The target of a jump or call. -/
  | label (name : String)
  /-- An argument of a call or of the routine itself. -/
  | arg (index : Int)
  deriving Repr, DecidableEq, BEq

/-- The operand as shown in a listing of the model. -/
def Operand.show : Operand → String
  | reg r => r.name
  | imm v => toString v.toInt
  | slot i => "slot" ++ toString i
  | data s => "[" ++ s ++ "]"
  | addr s => "&" ++ s
  | label l => l
  | arg i => "arg" ++ toString i

/-- An operation. -/
inductive Op where
  | mov | lea | add | sub | imul | cqo | idiv | neg | xor | cmp | test
  | sete | setne | setl | setg | setle | setge | movzx | cmovnz
  | jmp | jz | jnz | jge | jle | call
  /-- Places a label. -/
  | label
  /-- Sets the frame up. -/
  | prologue
  /-- Takes the frame down and returns. -/
  | epilogue
  /-- Places an argument for a call. -/
  | setarg
  /-- Fetches a parameter into the frame. -/
  | loadparam
  deriving Repr, DecidableEq, BEq

namespace Op

/-- Every operation, those a backend must expand last. -/
def all : List Op :=
  [mov, lea, add, sub, imul, cqo, idiv, neg, xor, cmp, test, sete, setne, setl, setg, setle, setge,
   movzx, cmovnz, jmp, jz, jnz, jge, jle, call, label, prologue, epilogue, setarg, loadparam]

/-- The name of an operation. -/
def name : Op → String
  | mov => "mov"
  | lea => "lea"
  | add => "add"
  | sub => "sub"
  | imul => "imul"
  | cqo => "cqo"
  | idiv => "idiv"
  | neg => "neg"
  | xor => "xor"
  | cmp => "cmp"
  | test => "test"
  | sete => "sete"
  | setne => "setne"
  | setl => "setl"
  | setg => "setg"
  | setle => "setle"
  | setge => "setge"
  | movzx => "movzx"
  | cmovnz => "cmovnz"
  | jmp => "jmp"
  | jz => "jz"
  | jnz => "jnz"
  | jge => "jge"
  | jle => "jle"
  | call => "call"
  | label => "label"
  | prologue => "prologue"
  | epilogue => "epilogue"
  | setarg => "setarg"
  | loadparam => "loadparam"

/-- The operation of a given name. -/
def ofName? (name : String) : Option Op := all.find? (·.name == name)

/-- The number of operations that are instructions of the machine. -/
def realCount : Nat := all.idxOf label

/-- Whether a backend must expand the operation. -/
def isPseudo : Op → Bool
  | label | prologue | epilogue | setarg | loadparam => true
  | _ => false

/-- The name of the operation with a given number, whether or not there is one. -/
def nameAt (n : Nat) : String :=
  match all[n]? with
  | some op => op.name
  | none => "op(" ++ toString n ++ ")"

/-- Whether the operation with a given number must be expanded. -/
def isPseudoAt (n : Nat) : Bool := realCount ≤ n

end Op

/-- An instruction; an empty remark is none. -/
structure Instr where
  /-- What to do. -/
  op : Op
  /-- On what. -/
  args : List Operand
  /-- A remark for the reader of the assembly text. -/
  remark : String := ""
  deriving Repr, DecidableEq, BEq

/-- The instruction as shown in a listing of the model. -/
def Instr.show (i : Instr) : String :=
  if i.args.isEmpty then i.op.name
  else i.op.name ++ " " ++ ", ".intercalate (i.args.map Operand.show)

/-- A routine. -/
structure Routine where
  /-- Its symbol. -/
  name : String
  /-- Its instructions. -/
  code : List Instr
  /-- Number of words of its frame. -/
  slots : Int
  /-- Greatest number of arguments of the calls it makes. -/
  maxCallArgs : Nat
  deriving Repr, DecidableEq

/-- Makes room for a call with `n` arguments. -/
def Routine.noteCall (r : Routine) (n : Nat) : Routine :=
  { r with maxCallArgs := max r.maxCallArgs n }

/-- A string of the literal pool. -/
structure StringLit where
  /-- Its symbol. -/
  label : String
  /-- Its content. -/
  value : String
  deriving Repr, DecidableEq, BEq

/-- A generated program. -/
structure Image where
  /-- Routines it calls but does not hold. -/
  externs : List String
  /-- Its literal pool. -/
  strings : List StringLit
  /-- Words of its data section. -/
  globals : List String
  /-- Its routines. -/
  routines : List Routine
  deriving Repr, DecidableEq

namespace Image

/-- The first routine of a given name. -/
def find? (p : Image) (name : String) : Option Routine := p.routines.find? (·.name == name)

/-- The label of a string of the pool. -/
def stringLabel? (p : Image) (value : String) : Option String :=
  (p.strings.find? (·.value == value)).map StringLit.label

end Image

end Lantern.Assembly
