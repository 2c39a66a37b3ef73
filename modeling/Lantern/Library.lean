import Lantern.Sigil

/-!
# Library functions

The named operations every program may call. Each takes a fixed number of arguments, and the sigil
of its result is fixed or follows from that of an argument.
-/

namespace Lantern

/-- A library function. -/
inductive LibFunc where
  | len | str | num | join | split | trim | replace | contains | push | pop | removeAt | array
  | free | keys | values | delete | getOr | input | inputLine | random | errorType | errorMessage
  deriving Repr, DecidableEq, BEq

namespace LibFunc

/-- Every library function. -/
def all : List LibFunc :=
  [len, str, num, join, split, trim, replace, contains, push, pop, removeAt, array, free, keys,
   values, delete, getOr, input, inputLine, random, errorType, errorMessage]

/-- The name by which it is called. -/
def name : LibFunc → String
  | len => "len"
  | str => "str"
  | num => "num"
  | join => "join"
  | split => "split"
  | trim => "trim"
  | replace => "replace"
  | contains => "contains"
  | push => "push"
  | pop => "pop"
  | removeAt => "remove_at"
  | array => "array"
  | free => "free"
  | keys => "keys"
  | values => "values"
  | delete => "delete"
  | getOr => "get_or"
  | input => "input"
  | inputLine => "input_line"
  | random => "random"
  | errorType => "error_type"
  | errorMessage => "error_message"

/-- The number of arguments it takes. -/
def arity : LibFunc → Nat
  | input | inputLine => 0
  | len | str | num | trim | pop | array | free | keys | values | random | errorType
  | errorMessage => 1
  | join | split | contains | push | removeAt | delete => 2
  | replace | getOr => 3

/-- The library function of a given name. -/
def ofName? (name : String) : Option LibFunc := all.find? (·.name == name)

/-- The sigil of the result for arguments of the given sigils. -/
def result (f : LibFunc) (args : List Sigil) : Sigil :=
  let first := args.headD .int
  match f with
  | len | num | free | input | random => .int
  | str | join | trim | replace | inputLine | errorType | errorMessage => .str
  | contains | delete => .bool
  | split | keys => .list .str
  | array => .list .int
  | push => first
  | pop | removeAt | getOr => first.elemSigil
  | values => .list first.elem

end LibFunc

/-- Whether a name is that of a library function. -/
def isLibrary (name : String) : Bool := (LibFunc.ofName? name).isSome

end Lantern
