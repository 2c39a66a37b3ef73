/-!
# Sigils

A sigil says how a value is represented at run time: as a plain word, as a string, as a collection
of one of the two, or as an object of some class.
-/

namespace Lantern

/-- How the elements of a collection are represented. -/
inductive Elem where
  /-- As plain words. -/
  | int
  /-- As strings. -/
  | str
  deriving Repr, DecidableEq, BEq

/-- How a value is represented. -/
inductive Sigil where
  /-- A 64-bit integer. -/
  | int
  /-- A truth value. -/
  | bool
  /-- A string. -/
  | str
  /-- A list. -/
  | list (elem : Elem)
  /-- A map from strings. -/
  | map (elem : Elem)
  /-- An object; the empty class name is an object of unknown class. -/
  | object (cls : String)
  deriving Repr, DecidableEq, BEq

/-- The name of an element representation. -/
def Elem.name : Elem → String
  | .int => "int"
  | .str => "string"

/-- The sigil of a collection's elements. -/
def Elem.sigil : Elem → Sigil
  | .int => .int
  | .str => .str

namespace Sigil

/-- The sigil as written in declarations and shown in messages. -/
def name : Sigil → String
  | int => "int"
  | bool => "bool"
  | str => "string"
  | list e => "list<" ++ e.name ++ ">"
  | map e => "map<" ++ e.name ++ ">"
  | object cls => if cls.isEmpty then "object" else cls

/-- The sigil a written type denotes. Any name that is not built in denotes a class. -/
def ofName (name : String) : Sigil :=
  match name with
  | "int" => int
  | "bool" => bool
  | "string" => str
  | "list" | "list<int>" => list .int
  | "list<string>" => list .str
  | "map" | "map<int>" => map .int
  | "map<string>" => map .str
  | cls => object cls

/-- Whether values are strings. -/
def isStr : Sigil → Bool
  | str => true
  | _ => false

/-- Whether values are lists or maps. -/
def isCollection : Sigil → Bool
  | list _ | map _ => true
  | _ => false

/-- Whether values are reached by string keys: maps and objects. -/
def isKeyed : Sigil → Bool
  | map _ | object _ => true
  | _ => false

/-- Whether values are objects. -/
def isObject : Sigil → Bool
  | object _ => true
  | _ => false

/-- The class of an object, empty for anything else. -/
def className : Sigil → String
  | object cls => cls
  | _ => ""

/-- How the elements of a collection are represented; plain words for anything else. -/
def elem : Sigil → Elem
  | list e | map e => e
  | _ => .int

/-- The sigil of the elements of a collection; `int` for anything else. -/
def elemSigil (s : Sigil) : Sigil := s.elem.sigil

/-- The place of the sigil's shape among the shapes. -/
def kindIndex : Sigil → Nat
  | int => 0
  | bool => 1
  | str => 2
  | list _ => 3
  | map _ => 4
  | object _ => 5

end Sigil

/-- The place of an element representation among the shapes. -/
def Elem.kindIndex (e : Elem) : Nat := e.sigil.kindIndex

end Lantern
