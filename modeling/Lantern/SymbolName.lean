/-!
# Symbol names

How the routines and variables of a program are called in its assembly text. Names that belong to a
class are separated by points. Identifiers hold no point, and the second part of every name that is
not a method's is a keyword, so no two kinds of symbol spell the same name.
-/

namespace Lantern.SymbolName

/-- The key under which an object holds its method table. -/
def methodTableKey : String := "__vtable"

/-- The routine that holds the top-level statements. -/
def mainRoutine : String := "main"

/-- The routine of a function. -/
def func (name : String) : String := "fn_" ++ name

/-- The word of a global variable. -/
def globalVar (name : String) : String := "gv_" ++ name

/-- The routine of an instance method. -/
def method (cls name : String) : String := "__" ++ cls ++ "." ++ name

/-- The routine of a static method. -/
def staticMethod (cls name : String) : String := "__" ++ cls ++ ".static." ++ name

/-- The word of a static field. -/
def staticField (cls name : String) : String := "__" ++ cls ++ ".var." ++ name

/-- The routine of the constructor taking `arity` arguments. The number is written with its sign, so
distinct numbers give distinct names. -/
def ctor (cls : String) (arity : Int) : String :=
  "__" ++ cls ++ ".constructor." ++ toString arity

/-- The word of a class's method table. -/
def methodTable (cls : String) : String := "__" ++ cls ++ ".class"

/-- The method-table key of the implementation of `name` that a class inherits from its base. -/
def superKey (cls name : String) : String := "super::" ++ cls ++ "::" ++ name

end Lantern.SymbolName
