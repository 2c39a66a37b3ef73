import Lantern.Diagnostic
import Lantern.Hints

/-!
# Scopes

The names a checker knows at a place in the program: a stack of scopes, the innermost first and the
global one last. Each name of a scope has a type, or none as long as it is unknown.
-/

namespace Lantern.Check

/-- The names of one scope and their types. -/
abbrev Scope := Assoc (Option Sigil)

/-- What changes while a program is checked. -/
structure State where
  /-- Scopes, innermost first; the last is the global one. -/
  scopes : List Scope
  /-- What has been found out so far. -/
  hints : Hints
  deriving Repr, DecidableEq

/-- A step of checking. -/
abbrev Checking := StateT State Checked

/-- Gives a warning. -/
def warn (kind : Warning) (at_ : Span) (message : String) : Checking Unit :=
  liftM (Checked.warn kind at_ message)

/-- Stops with an error. -/
def fail {α : Type} (at_ : Span) (message : String) : Checking α :=
  liftM (Checked.fail at_ message : Checked α)

/-- The type of a name in the innermost scope that knows it. -/
def lookup? : List Scope → String → Option (Option Sigil)
  | [], _ => none
  | s :: rest, name =>
    match s.get? name with
    | some t => some t
    | none => lookup? rest name

/-- Gives the name a type in the innermost scope that knows it. -/
def retype (name : String) (type : Option Sigil) : List Scope → List Scope
  | [] => []
  | s :: rest => if s.has name then s.put name type :: rest else s :: retype name type rest

/-- The type of a name, if any scope knows it. -/
def find? (name : String) : Checking (Option (Option Sigil)) := do
  return lookup? (← get).scopes name

/-- Whether some scope knows the name. -/
def isKnown (name : String) : Checking Bool := do return (← find? name).isSome

/-- Gives a known name a type. -/
def setType (name : String) (type : Option Sigil) : Checking Unit :=
  modify fun st => { st with scopes := retype name type st.scopes }

/-- Runs a step in a new innermost scope. -/
def inScope {α : Type} (x : Checking α) : Checking α := do
  modify fun st => { st with scopes := [] :: st.scopes }
  let a ← x
  modify fun st => { st with scopes := st.scopes.tail }
  return a

/-- Whether the innermost scope knows the name. -/
def isLocal (name : String) : Checking Bool := do
  return ((← get).scopes.headD []).has name

/-- Adds a name to the innermost scope; a name it knows only gains a type it lacked. -/
def declare (name : String) (type : Option Sigil) : Checking Unit :=
  modify fun st =>
    match st.scopes with
    | [] => st
    | s :: rest =>
      match s.get? name with
      | some (some _) => st
      | some none => { st with scopes := s.put name type :: rest }
      | none => { st with scopes := s.put name type :: rest }

/-- Whether the global scope is the innermost one. -/
def atGlobalScope : Checking Bool := do return (← get).scopes.length ≤ 1

/-- Adds a name with an unknown type to the last scope, unless the first of the scopes knows it. -/
def addToLast (name : String) : List Scope → List Scope
  | [] => []
  | [s] => [if s.has name then s else s.put name none]
  | s :: rest => s :: addToLast name rest

end Lantern.Check
