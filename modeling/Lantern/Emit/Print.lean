import Lantern.Emit.Expr

/-!
# Code for printing

A value is printed by its sigil: words, strings and truth values directly, lists and maps element by
element in a loop of generated code.
-/

namespace Lantern.Emit

open Assembly

/-- Prints by a fixed format. -/
def printf (format : String) (args : List Operand) : Emitting Unit :=
  call "printf" (fixedAddr format :: args)

/-- Adds one to a temporary. -/
def increment (t : Operand) : Emitting Unit := do
  emit .mov [rax, t]
  emit .add [rax, imm 1]
  emit .mov [t, rax]

/-- Leaves the loop over `n` elements when `i` reaches `n`, and prints a comma before every element
    but the first. -/
def loopHead (loop endL skip : String) (i n : Operand) : Emitting Unit := do
  emit .mov [i, imm 0]
  place loop
  emit .mov [rax, i]
  emit .cmp [rax, n]
  jump .jge endL
  testResult
  jump .jz skip
  printf "comma" []
  place skip

/-- Prints the list in `rax`; strings are quoted. -/
def printList (env : Env) (s : Sigil) : Emitting Unit := do
  let loop ← newLabel "plist"
  let endL ← newLabel "plistend"
  let skip ← newLabel "nocomma"
  let list ← spill env
  printf "lbracket" []
  call "lm_array_length" [list]
  let n ← spill env
  let i ← pushTemp env
  loopHead loop endL skip i n
  call "lm_array_get" [list, i]
  printf (if s.elemSigil.isStr then "fmt_quoted" else "fmt_int") [rax]
  increment i
  jump .jmp loop
  place endL
  printf "rbracket" []
  popTemps 3

/-- Prints the map in `rax`, asking at run time which values are strings. -/
def printMap (env : Env) : Emitting Unit := do
  let loop ← newLabel "pmap"
  let endL ← newLabel "pmapend"
  let skip ← newLabel "nocomma"
  let intL ← newLabel "pint"
  let nextL ← newLabel "pnext"
  let m ← spill env
  printf "lbrace" []
  call "lm_map_size" [m]
  let n ← spill env
  let i ← pushTemp env
  loopHead loop endL skip i n
  call "lm_map_key_at" [m, i]
  printf "fmt_quoted" [rax]
  printf "colon" []
  call "lm_map_value_is_string" [m, i]
  testResult
  jump .jz intL
  call "lm_map_value_at" [m, i]
  printf "fmt_quoted" [rax]
  jump .jmp nextL
  place intL
  call "lm_map_value_at" [m, i]
  printf "fmt_int" [rax]
  place nextL
  increment i
  jump .jmp loop
  place endL
  printf "rbrace" []
  popTemps 3

/-- Prints an entry of a map, asking at run time whether it is a string. -/
def printEntry (env : Env) (base k : Value) : Emitting Unit := do
  let intL ← newLabel "pint"
  let doneL ← newLabel "pdone"
  base.code
  let m ← spill env
  key k
  let k ← spill env
  call "lm_map_get" [m, k]
  let v ← spill env
  call "lm_map_value_is_string_key" [m, k]
  testResult
  jump .jz intL
  printf "fmt_str" [v]
  jump .jmp doneL
  place intL
  printf "fmt_int" [v]
  place doneL
  popTemps 3

/-- Whether an expression is an entry of a map: the map and the key. -/
def mapEntry? : Expr → Option (Expr × Expr)
  | .index _ base k =>
    match base.sigil with
    | .map _ => some (base, k)
    | _ => none
  | _ => none

/-- Prints a value that is no entry of a map, without the line ending. -/
def printValue (env : Env) (v : Value) : Emitting Unit := do
  v.code
  match v.sigil with
  | .str => printf "fmt_str" [rax]
  | .bool =>
    boolWord
    printf "fmt_str" [rax]
  | .list e => printList env (.list e)
  | .map _ => printMap env
  | .object _ => printf "fmt_str" [fixedAddr "word_object"]
  | .int => printf "fmt_int" [rax]

/-- Prints an expression and a line ending. -/
def print (env : Env) (e : Expr) : Emitting Unit := do
  match mapEntry? e with
  | some (base, k) => printEntry env (value env base) (value env k)
  | none => printValue env (value env e)
  printf "newline" []

end Lantern.Emit
