import Lantern.Emit.Forms

/-!
# Code for library calls

Most library functions are a routine of the run-time library each; the others depend on the sigils
of their arguments.
-/

namespace Lantern.Emit

open Assembly

/-- Fixed data the generated code refers to. -/
def fixedAddr (name : String) : Operand := .addr name

/-- The word numbers are read into. -/
def inputWord : String := "input_val"

/-- The buffer strings are read into. -/
def inputBuffer : Operand := .addr "input_buf"

/-- Replaces a truth value by the address of its word. -/
def boolWord : Emitting Unit := do
  testResult
  emit .lea [rax, fixedAddr "word_false"]
  emit .lea [rbx, fixedAddr "word_true"]
  emit .cmovnz [rax, rbx]

/-- Reads a string by a format and yields a trimmed copy of it. -/
def readString (format : String) : Emitting Unit := do
  call "scanf" [fixedAddr format, inputBuffer]
  call "lm_str_trim" [inputBuffer]

/-- The routine of a library function that is called the same way whatever its arguments are. -/
def runtimeRoutine? : LibFunc → Option String
  | .join => some "lm_str_join"
  | .split => some "lm_str_split"
  | .trim => some "lm_str_trim"
  | .replace => some "lm_str_replace"
  | .push => some "lm_array_push"
  | .pop => some "lm_array_pop"
  | .removeAt => some "lm_array_remove_at"
  | .array => some "lm_array_new"
  | .keys => some "lm_map_keys"
  | .values => some "lm_map_values"
  | .random => some "lm_random"
  | .errorType => some "lm_exception_type"
  | .errorMessage => some "lm_exception_message"
  | _ => none

/-- The length of a value. -/
def lenForm (v : Value) : Emitting Unit := do
  v.code
  call (if v.sigil.isStr then "strlen"
    else if v.sigil.isKeyed then "lm_map_size"
    else "lm_array_length") [rax]

/-- A value as a string. -/
def strForm (v : Value) : Emitting Unit := do
  v.code
  match v.sigil with
  | .str => pure ()
  | .bool => boolWord
  | _ => call "lm_to_string" [rax]

/-- A value as a number. -/
def numForm (v : Value) : Emitting Unit := do
  v.code
  if v.sigil.isStr then call "lm_to_number" [rax]

/-- Whether a string, map or list contains something. -/
def containsForm (env : Env) (v x : Value) : Emitting Unit := do
  v.code
  let c ← spill env
  if v.sigil.isKeyed then key x else x.code
  call (if v.sigil.isStr then "lm_str_contains"
    else if v.sigil.isKeyed then "lm_map_contains"
    else if v.sigil.elemSigil.isStr then "lm_array_contains_str"
    else "lm_array_contains_int") [c, rax]
  popTemps 1

/-- Removes an entry of a map. -/
def deleteForm (env : Env) (v k : Value) : Emitting Unit := do
  v.code
  let m ← spill env
  key k
  call "lm_map_delete" [m, rax]
  popTemps 1

/-- An entry of a map or a given value. -/
def getOrForm (env : Env) (v k d : Value) : Emitting Unit := do
  v.code
  let m ← spill env
  key k
  let k ← spill env
  d.code
  call "lm_map_get_default" [m, k, rax]
  popTemps 2

/-- Frees a list. -/
def freeForm (v : Value) : Emitting Unit := do
  v.code
  call "lm_array_free" [rax]
  zero

/-- Reads a string or a number. -/
def inputForm (readStr : Bool) : Emitting Unit := do
  if readStr then readString "fmt_read_str"
  else
    call "scanf" [fixedAddr "fmt_read_int", .addr inputWord]
    emit .mov [rax, .data inputWord]

/-- A call of a library function; `readStr` when input is to be a string. -/
def libraryCall (env : Env) (at_ : Span) (f : LibFunc) (readStr : Bool) (args : List Value) :
    Emitting Unit := do
  if args.length != f.arity then
    warn at_ ("Wrong number of arguments to '" ++ f.name ++ "' evaluates to 0")
    zero
  else
    match runtimeRoutine? f, f, args with
    | some routine, _, _ =>
      let ops ← evalArgs env args
      call routine ops
      popTemps ops.length
    | none, .len, [v] => lenForm v
    | none, .str, [v] => strForm v
    | none, .num, [v] => numForm v
    | none, .contains, [v, x] => containsForm env v x
    | none, .delete, [v, k] => deleteForm env v k
    | none, .getOr, [v, k, d] => getOrForm env v k d
    | none, .free, [v] => freeForm v
    | none, .input, _ => inputForm readStr
    | none, .inputLine, _ => readString "fmt_read_line"
    | none, _, _ =>
      warn at_ ("Library call '" ++ f.name ++ "' has no lowering and evaluates to 0")
      zero

/-- A call by name: through a variable, of a library function, or of a function of the program. -/
def callByName (env : Env) (at_ : Span) (name : String) (args : List Value) : Emitting Unit :=
  match env.lookup? name with
  | some place => do
    let ops ← evalArgs env args
    callAddress env place ops
    popTemps ops.length
  | none =>
    match LibFunc.ofName? name with
    | some f => libraryCall env at_ f false args
    | none =>
      if env.funcs.contains name then do
        let ops ← evalArgs env args
        callRoutine env (.label (SymbolName.func name)) ops
        popTemps ops.length
      else do
        warn at_ ("Call to unknown function '" ++ name ++ "' evaluates to 0")
        zero

end Lantern.Emit
