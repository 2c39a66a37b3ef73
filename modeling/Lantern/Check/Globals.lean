import Lantern.Check.Declarations

/-!
# Global variables

Every variable declared by a top-level statement is global, however deeply it is nested, and so is
the variable of a handler. They are gathered before anything is checked.
-/

namespace Lantern.Check

/-- Declares a global variable. It is looked for in the innermost scope; its first written type
    stays. -/
def declareGlobal (classes : ClassTable) (name : String) (type : Option Sigil) (at_ : Span) :
    Checking Unit := do
  if classes.has name then
    fail at_ ("Variable '" ++ name ++ "' has the same name as a class")
  modify fun st => { st with hints := st.hints.addGlobal name }
  unless ← isLocal name do
    modify fun st => { st with scopes := addToLast name st.scopes }
  if let some t := type then
    if let some none ← find? name then
      setType name type
      modify fun st => { st with
        hints := { st.hints with globalTypes := st.hints.globalTypes.put name t } }

mutual

/-- Declares the globals of a top-level statement. -/
def gatherGlobals (classes : ClassTable) : Stmt → Checking Unit
  | .varDecl s name type _ => declareGlobal classes name type s
  | .block _ body => gatherGlobalsOf classes body
  | .ifElse _ _ a b => do
    gatherGlobals classes a
    match b with
    | some b => gatherGlobals classes b
    | none => pure ()
  | .while_ _ _ body => gatherGlobals classes body
  | .doWhile _ body _ => gatherGlobals classes body
  | .for_ _ init _ _ body => do
    match init with
    | some i => gatherGlobals classes i
    | none => pure ()
    gatherGlobals classes body
  | .switch _ _ cs => gatherClauseGlobals classes cs
  | .try_ _ body cs last => do
    gatherGlobals classes body
    gatherCatchGlobals classes cs
    match last with
    | some l => gatherGlobals classes l
    | none => pure ()
  | _ => pure ()

/-- Declares the globals of top-level statements. -/
def gatherGlobalsOf (classes : ClassTable) : List Stmt → Checking Unit
  | [] => pure ()
  | s :: ss => do
    gatherGlobals classes s
    gatherGlobalsOf classes ss

/-- Declares the globals of the clauses of a switch. -/
def gatherClauseGlobals (classes : ClassTable) : List Clause → Checking Unit
  | [] => pure ()
  | .case_ _ _ body :: cs => do
    gatherGlobalsOf classes body
    gatherClauseGlobals classes cs
  | .default_ _ body :: cs => do
    gatherGlobalsOf classes body
    gatherClauseGlobals classes cs

/-- Declares the globals of handlers. -/
def gatherCatchGlobals (classes : ClassTable) : List Catch → Checking Unit
  | [] => pure ()
  | ⟨s, _, name, body⟩ :: cs => do
    declareGlobal classes name (some (.object "")) s
    gatherGlobals classes body
    gatherCatchGlobals classes cs

end

end Lantern.Check
