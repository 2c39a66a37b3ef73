import Lantern.Nasm.Data
import Lantern.Nasm.Line

/-!
# Assembly text

A generated program as the text an assembler reads: external names, the data section with the fixed
strings, the literal pool and the globals, and the routines.
-/

namespace Lantern.Nasm

open Assembly

/-- The strings every program holds. -/
def fixedData : List StringLit :=
  [⟨"fmt_int", "%lld"⟩, ⟨"fmt_str", "%s"⟩, ⟨"fmt_quoted", "\"%s\""⟩, ⟨"fmt_read_int", "%lld"⟩,
   ⟨"fmt_read_str", "%255s"⟩, ⟨"fmt_read_line", " %255[^\n]"⟩, ⟨"newline", "\n"⟩,
   ⟨"lbracket", "["⟩, ⟨"rbracket", "]"⟩, ⟨"lbrace", "\x7b"⟩, ⟨"rbrace", "\x7d"⟩, ⟨"comma", ", "⟩,
   ⟨"colon", ": "⟩, ⟨"word_true", "true"⟩, ⟨"word_false", "false"⟩, ⟨"word_object", "<object>"⟩]

/-- A string of the data section. -/
def stringLine (s : StringLit) : String := s.label ++ ": db " ++ stringData s.value ++ "\n"

/-- A routine as written. -/
def routineText (c : Convention) (r : Routine) : String :=
  "\n" ++ r.name ++ ":\n" ++ String.join ((routineLines c r).map Line.text)

/-- A program as written for a platform. -/
def render (platform : Platform) (p : Image) : String :=
  let c := Convention.of platform
  "; target: " ++ c.platform.name ++ "\ndefault rel\n\n" ++
    String.join (p.externs.map fun n => "extern " ++ n ++ "\n") ++
    "\nsection .data\n" ++
    String.join (fixedData.map stringLine) ++
    "input_val: dq 0\ninput_buf: times 256 db 0\n" ++
    String.join (p.strings.map stringLine) ++
    String.join (p.globals.map fun g => g ++ ": dq 0\n") ++
    "\nsection .text\nglobal main\n" ++
    String.join (p.routines.map (routineText c)) ++
    (if c.stackNote then "\nsection .note.GNU-stack noalloc noexec nowrite progbits\n" else "")

/-- A program as written for the platform with a given number; the error says that there is none. -/
def renderAt (n : Int) (p : Image) : Except String String :=
  match Platform.ofIndex? n with
  | some platform => .ok (render platform p)
  | none => .error ("nasm backend: " ++ Platform.noConvention n)

end Lantern.Nasm
