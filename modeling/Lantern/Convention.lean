import Lantern.Assembly
import Lantern.Text.Lower

/-!
# Calling conventions

The two conventions for which code is generated: where arguments travel, how frames are laid out,
and what goes with the platform when files are assembled and linked. A frame holds the saved `rbp`,
the saved `rbx` just below it, then its slots downwards, and at its foot the area for the arguments
of calls.

Slots and arguments are counted by integers; sizes and distances are numbers of bytes in a machine
word, and their arithmetic is the machine's, modulo 2^64.
-/

namespace Lantern

open Assembly (Reg)

/-- A platform. -/
inductive Platform where
  | sysv | win64
  deriving Repr, DecidableEq, BEq

namespace Platform

/-- The name of a platform. -/
def name : Platform → String
  | sysv => "sysv"
  | win64 => "win64"

/-- The platform with a given number. -/
def ofIndex? (n : Int) : Option Platform :=
  if n == 0 then some sysv else if n == 1 then some win64 else none

/-- The name of the platform with a given number, whether or not there is one. -/
def nameAt (n : Int) : String :=
  match ofIndex? n with
  | some p => p.name
  | none => "platform(" ++ toString n ++ ")"

/-- The platform a target names, by convention or by operating system. -/
def ofName? (target : String) : Option Platform :=
  match Text.lower target with
  | "sysv" | "linux" | "elf64" | "amd64_sysv" => some sysv
  | "win64" | "windows" => some win64
  | _ => none

/-- What to say about a target that names no platform. -/
def unsupported (target : String) : String :=
  "unsupported target '" ++ target ++ "'. Supported: 'sysv' (linux), 'win64' (windows)"

/-- What to say about a number that is no platform's. -/
def noConvention (n : Int) : String := "no calling convention for " ++ nameAt n

end Platform

/-- Everything a backend needs to know about a platform. -/
structure Convention where
  /-- The platform. -/
  platform : Platform
  /-- Registers for the first arguments, in order. -/
  argRegs : List Reg
  /-- Bytes a caller reserves below its stack arguments. -/
  shadowSpace : Nat
  /-- Registers a routine must preserve. -/
  calleeSaved : List Reg
  /-- The register of results. -/
  accumulator : Reg
  /-- The register for second operands. -/
  scratch : Reg
  /-- Object file format of the assembler. -/
  objectFormat : String
  /-- Extension of object files. -/
  objectExt : String
  /-- Extension of executables. -/
  exeExt : String
  /-- Whether the text ends with a note on the stack. -/
  stackNote : Bool
  /-- Whether executables are linked at a fixed address. -/
  noPie : Bool
  /-- Whether executables are linked with the C library by name. -/
  linkLibc : Bool
  deriving Repr, DecidableEq

namespace Convention

/-- The convention of a platform. -/
def of : Platform → Convention
  | .sysv =>
    { platform := .sysv
      argRegs := [.rdi, .rsi, .rdx, .rcx, .r8, .r9]
      shadowSpace := 0
      calleeSaved := [.rbx, .rbp, .r12, .r13, .r14, .r15]
      accumulator := .rax
      scratch := .rbx
      objectFormat := "elf64"
      objectExt := ".o"
      exeExt := ""
      stackNote := true
      noPie := true
      linkLibc := true }
  | .win64 =>
    { platform := .win64
      argRegs := [.rcx, .rdx, .r8, .r9]
      shadowSpace := 32
      calleeSaved := [.rbx, .rbp, .rdi, .rsi, .r12, .r13, .r14, .r15]
      accumulator := .rax
      scratch := .rbx
      objectFormat := "win64"
      objectExt := ".obj"
      exeExt := ".exe"
      stackNote := false
      noPie := false
      linkLibc := false }

/-- Where an argument travels. -/
inductive ArgPlace where
  /-- In a register. -/
  | reg (r : Reg)
  /-- On the stack, at a distance from `rsp` at the call. -/
  | stack (offset : Int64)
  deriving Repr, DecidableEq

/-- How far argument `i` is behind the last one that travels in a register. -/
def argsBeyondRegs (c : Convention) (i : Int) : Int64 :=
  Int64.ofInt i - Int64.ofNat c.argRegs.length

/-- Where argument `i` travels: in a register as long as there are any, else on the stack. -/
def argPlace (c : Convention) (i : Nat) : ArgPlace :=
  match c.argRegs[i]? with
  | some r => .reg r
  | none => .stack (Int64.ofNat c.shadowSpace + 8 * c.argsBeyondRegs i)

/-- Where a routine finds stack argument `i`, from `rbp` on. -/
def paramOffset (c : Convention) (i : Int) : Int64 :=
  16 + Int64.ofNat c.shadowSpace + 8 * c.argsBeyondRegs i

/-- The stack needed for calls with up to `n` arguments. -/
def outgoingArea (c : Convention) (n : Int) : Int64 :=
  Int64.ofNat c.shadowSpace + 8 * max (c.argsBeyondRegs n) 0

/-- What is subtracted from `rsp` after saving `rbp` and `rbx`, so that `rsp` is a multiple of 16 at
    every call. The mask rounds down to a multiple of 16. -/
def frameSize (c : Convention) (slots maxArgs : Int) : Int64 :=
  ((8 * Int64.ofInt slots + c.outgoingArea maxArgs + 23) &&& -16) - 8

/-- The distance of slot `i` from `rbp`. -/
def slotOffset (i : Int) : Int64 := -16 - 8 * Int64.ofInt i

end Convention

end Lantern
