import Lantern.Text.Utf8

/-!
# Data directives

A string in the data section is written as a list of runs and numbers: printable bytes in quotes as
they are, every other byte as a number, and a zero at the end.
-/

namespace Lantern.Nasm

/-- An item of a data directive. -/
inductive Datum where
  /-- Bytes in quotes. -/
  | run (bytes : List UInt8)
  /-- A byte as a number. -/
  | byte (value : UInt8)
  deriving Repr, DecidableEq

/-- A byte that may stand in quotes. -/
def isQuotable (b : UInt8) : Bool := 0x20 ≤ b && b < 0x7F && b != 0x22

/-- The items for bytes, given the run being gathered, latest first. -/
def dataFrom : List UInt8 → List UInt8 → List Datum
  | run, [] => if run.isEmpty then [] else [.run run.reverse]
  | run, b :: bs =>
    if isQuotable b then dataFrom (b :: run) bs
    else if run.isEmpty then .byte b :: dataFrom [] bs
    else .run run.reverse :: .byte b :: dataFrom [] bs

/-- The items for a string, with the zero at its end. -/
def dataOf (bytes : List UInt8) : List Datum := dataFrom [] bytes ++ [.byte 0]

/-- An item as written. -/
def Datum.text : Datum → String
  | run bytes => "\"" ++ String.ofList (bytes.map fun b => Char.ofNat b.toNat) ++ "\""
  | byte b => toString b.toNat

/-- Bytes as the operands of a data directive. -/
def bytesData (bytes : List UInt8) : String := ", ".intercalate ((dataOf bytes).map Datum.text)

/-- A string as the operands of a data directive. -/
def stringData (s : String) : String := bytesData (Text.utf8Bytes s)

end Lantern.Nasm
