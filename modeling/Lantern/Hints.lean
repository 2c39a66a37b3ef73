import Lantern.Assoc
import Lantern.Sigil

/-!
# Hints

What checking a program finds out for the passes behind it: which names are global variables, and
the types that parameters, results and globals are declared with. Routines go by their symbol name.
-/

namespace Lantern

/-- Declared types, gathered by the checker. -/
structure Hints where
  /-- Names of global variables. -/
  globals : List String := []
  /-- Parameter types of each routine, the receiver first where there is one. -/
  params : Assoc (List Sigil) := []
  /-- Declared result types of routines. -/
  results : Assoc Sigil := []
  /-- Declared types of global variables. -/
  globalTypes : Assoc Sigil := []
  deriving Repr, DecidableEq, Inhabited

namespace Hints

/-- Nothing is known. -/
def empty : Hints := ⟨[], [], [], []⟩

/-- Adds a global variable. -/
def addGlobal (h : Hints) (name : String) : Hints := { h with globals := addNew h.globals name }

/-- Records a routine's parameter types and declared result. -/
def addRoutine (h : Hints) (sym : String) (params : List Sigil) (result : Option Sigil) : Hints :=
  { h with
    params := h.params.put sym params
    results := match result with
      | some r => h.results.put sym r
      | none => h.results }

end Hints

end Lantern
