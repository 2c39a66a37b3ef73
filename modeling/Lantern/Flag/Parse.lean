import Lantern.Flag

/-!
# Reading a command line

A flag is written `--name`, `--name=value`, `--name value`, and with one dash instead of two; by its
shorthand it is written `-x`, `-xvalue`, `-x=value` and `-x value`. A switch takes no separate value.
A long name wins over a shorthand. Everything else is positional, and so is everything behind `--`.
-/

namespace Lantern

/-- Why a command line cannot be read. -/
inductive FlagFault where
  /-- No flag is written so. -/
  | unknown (arg : String)
  /-- A value is missing. -/
  | needsValue (arg : String)
  /-- A switch was given a value behind its shorthand. -/
  | takesNoValue (shorthand : String)
  /-- The flag refuses the value. -/
  | refused (arg : String) (why : Flag.Refusal)
  deriving Repr, DecidableEq

/-- What is said about a command line that cannot be read. -/
def FlagFault.message : FlagFault → String
  | unknown arg => "unknown flag: " ++ arg
  | needsValue arg => "flag needs an argument: " ++ arg
  | takesNoValue shorthand => "flag -" ++ shorthand ++ " does not take a value"
  | refused arg why => arg ++ ": " ++ why.message

/-- An argument that names a flag, resolved: the flag, and the value written with it. -/
structure Mention where
  /-- The flag meant. -/
  flag : Flag
  /-- The value written in the same argument. -/
  attached : Option String
  deriving Repr, DecidableEq

namespace FlagSet

/-- Resolves an argument by the shorthand at its start. -/
def mentionShort? (fs : FlagSet) (arg body : String) (attached : Option String) :
    Except FlagFault Mention :=
  match body.toList with
  | [] => .error (.unknown arg)
  | c :: rest =>
    match fs.findShort? (String.singleton c) with
    | none => .error (.unknown arg)
    | some flag =>
      if rest.isEmpty then .ok ⟨flag, attached⟩
      else if flag.value.isSwitch then .error (.takesNoValue (String.singleton c))
      else
        let value := String.ofList rest
        .ok ⟨flag, some ((Text.dropStart? "=" value).getD value)⟩

/-- Resolves an argument that starts with a dash: by the long name before the first `=`, or, behind a
    single dash, by the shorthand at its start. Shorthands are ASCII. -/
@[irreducible]
def mention (fs : FlagSet) (arg : String) : Except FlagFault Mention :=
  let isLong := Text.startsWith "--" arg
  let body := String.ofList (arg.toList.drop (if isLong then 2 else 1))
  let (name, attached) := Text.cutAt '=' body
  match fs.find? name with
  | some flag => .ok ⟨flag, attached⟩
  | none =>
    if isLong || 128 ≤ (body.toList.headD ' ').toNat then .error (.unknown arg)
    else fs.mentionShort? arg body attached

/-- Gives a value to a flag that an argument mentions. -/
def give (fs : FlagSet) (arg : String) (flag : Flag) (value : String) : Except FlagFault FlagSet :=
  match flag.value.give value with
  | .ok v => .ok (fs.hold flag.name v)
  | .error why => .error (.refused arg why)

/-- Whether an argument is positional: it does not start with a dash, or is one. -/
def isPositional (arg : String) : Bool :=
  match arg.toList with
  | '-' :: _ :: _ => false
  | _ => true

/-- Reads arguments. What was read before a fault stays. -/
def readArgs (fs : FlagSet) : List String → FlagSet × Option FlagFault
  | [] => (fs, none)
  | arg :: rest =>
    if arg == "--" then (fs.addArgs rest, none)
    else if isPositional arg then readArgs (fs.addArgs [arg]) rest
    else
      match fs.mention arg with
      | .error fault => (fs, some fault)
      | .ok ⟨flag, some value⟩ =>
        match fs.give arg flag value with
        | .ok fs => readArgs fs rest
        | .error fault => (fs, some fault)
      | .ok ⟨flag, none⟩ =>
        if flag.value.isSwitch then
          match fs.give arg flag "true" with
          | .ok fs => readArgs fs rest
          | .error fault => (fs, some fault)
        else
          match rest with
          | [] => (fs, some (.needsValue arg))
          | value :: rest =>
            match fs.give arg flag value with
            | .ok fs => readArgs fs rest
            | .error fault => (fs, some fault)

/-- Reads a command line, its positional arguments replacing those read before. -/
def parse (fs : FlagSet) (args : List String) : FlagSet × Option FlagFault :=
  readArgs { fs with args := [], cells := fs.cells.restart } args

end FlagSet

end Lantern
