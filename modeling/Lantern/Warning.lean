import Lantern.Text.Blank

/-!
# Warnings

The kinds of warning a compilation can give, and which of them are switched on.
-/

namespace Lantern

/-- A kind of warning. -/
inductive Warning where
  /-- A character escape that means nothing. -/
  | unknownEscape
  /-- An integer constant out of range. -/
  | overflow
  /-- Statements that cannot be reached. -/
  | unreachableCode
  /-- Assignment to a name nobody declared. -/
  | implicitDecl
  /-- Obvious type mismatches. -/
  | type
  /-- A construct the code generator degrades to zero. -/
  | codegen
  /-- Matters of style. -/
  | pedantic
  /-- Anything else worth a remark. -/
  | extra
  deriving Repr, DecidableEq, BEq

namespace Warning

/-- Every warning, in the order flags and reports list them. -/
def all : List Warning :=
  [unknownEscape, overflow, unreachableCode, implicitDecl, type, codegen, pedantic, extra]

/-- The name by which a warning is switched. -/
def name : Warning → String
  | unknownEscape => "u-esc"
  | overflow => "overflow"
  | unreachableCode => "unreachable-code"
  | implicitDecl => "implicit-decl"
  | type => "type"
  | codegen => "codegen"
  | pedantic => "pedantic"
  | extra => "extra"

/-- The explanation on the help page. -/
def description : Warning → String
  | unknownEscape => "Warn on unrecognized character escape sequences."
  | overflow => "Warn when an integer constant is out of range."
  | unreachableCode => "Warn about statements after return, break, continue or throw."
  | implicitDecl => "Warn when a function assigns to a name it never declared."
  | type => "Warn about obvious type mismatches in declarations and calls."
  | codegen => "Warn when the code generator degrades an unresolved construct to zero."
  | pedantic => "Issue every warning, including stylistic ones."
  | extra => "Enable extra miscellaneous warnings."

/-- Whether a warning is on before anyone switches it. -/
def byDefault : Warning → Bool
  | codegen | pedantic => false
  | _ => true

/-- The warning of a given name. -/
def ofName? (name : String) : Option Warning := all.find? (·.name == name)

/-- The warning at a given place of the list of all. -/
def ofIndex? (n : Int) : Option Warning := if n < 0 then none else all[n.toNat]?

end Warning

/-- The warnings that are switched on. -/
structure WarningSet where
  /-- Those switched on, in the order of `Warning.all`. -/
  enabled : List Warning
  deriving Repr, DecidableEq, BEq

namespace WarningSet

/-- What is on before anyone switches anything. -/
def standard : WarningSet := ⟨Warning.all.filter Warning.byDefault⟩

/-- No warning is on. -/
def silent : WarningSet := ⟨[]⟩

/-- Whether `w` is on. -/
def contains (ws : WarningSet) (w : Warning) : Bool := ws.enabled.contains w

/-- Switches one warning. -/
def set (ws : WarningSet) (w : Warning) (on : Bool) : WarningSet :=
  ⟨Warning.all.filter fun v => if v == w then on else ws.contains v⟩

/-- Switches every warning; turning all on leaves the pedantic ones as they are. -/
def setAll (ws : WarningSet) (on : Bool) : WarningSet :=
  Warning.all.foldl (fun ws w => if w == .pedantic && on then ws else ws.set w on) ws

/-- Switches by name: `all`, or the name of a warning, switching off when `no-` stands before it.
    The error is a name that means nothing. -/
def applyName (ws : WarningSet) (name : String) : Except String WarningSet :=
  let (on, name) := match Text.dropStart? "no-" name with
    | some rest => (false, rest)
    | none => (true, name)
  if name == "all" then .ok (ws.setAll on)
  else
    match Warning.ofName? name with
    | some w => .ok (ws.set w on)
    | none => .error name

end WarningSet

end Lantern
