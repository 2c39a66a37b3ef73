import Lantern.Classes
import Lantern.Hints
import Lantern.SymbolName

/-!
# Facts about variables

What inference knows about the variables of a program: for each routine the sigils of its parameters
and locals and the locals still waiting for one, and the sigils of globals and static fields. A
variable's sigil is settled once and never changes.
-/

namespace Lantern.Infer

/-- The variables of one routine. -/
structure Frame where
  /-- Parameters. -/
  params : Assoc Sigil
  /-- Locals with a sigil. -/
  locals : Assoc Sigil
  /-- Locals declared without a type or value, which their first assignment settles. -/
  pending : List String
  deriving Repr, DecidableEq

/-- The variables of a routine before anything is known. -/
def Frame.empty : Frame := ⟨[], [], []⟩

/-- Whether the routine knows the name. -/
def Frame.knows (f : Frame) (name : String) : Bool :=
  f.params.has name || f.locals.has name || f.pending.contains name

/-- The variables of a program. -/
structure Facts where
  /-- Variables of each routine by its symbol. -/
  frames : Assoc Frame
  /-- Global variables. -/
  globals : Assoc Sigil
  /-- Static fields by their symbol. -/
  statics : Assoc Sigil
  deriving Repr, DecidableEq

/-- Where an expression or statement stands. -/
structure Context where
  /-- What the checker found out. -/
  hints : Hints
  /-- The classes of the program. -/
  classes : ClassTable
  /-- The symbol of the routine around. -/
  routine : String
  /-- The name of the class around; empty if there is none. -/
  cls : String

namespace Facts

/-- The variables of a routine. -/
def frame (fs : Facts) (routine : String) : Frame := (fs.frames.get? routine).getD Frame.empty

/-- The sigil of a name seen from a routine: of the parameter, else the local, else the global.
    Unknown names are `int`. -/
def var (fs : Facts) (routine name : String) : Sigil :=
  let f := fs.frame routine
  (((f.params.get? name).or (f.locals.get? name)).or (fs.globals.get? name)).getD .int

/-- The sigil of a global variable, `int` if it is unknown. -/
def globalVar (fs : Facts) (name : String) : Sigil := (fs.globals.get? name).getD .int

/-- The sigil of the static field that a class has of its own. -/
def ownStatic? (fs : Facts) (name : String) (c : ClassDecl) : Option Sigil :=
  fs.statics.get? (SymbolName.staticField c.name name)

/-- The sigil of a static field of a class or, failing that, of the nearest base that has it. Bases that come round
    are left after one round here; the search that inference makes does not end on them. -/
def staticField? (fs : Facts) (classes : ClassTable) (cls name : String) : Option Sigil :=
  classes.nearest? (fs.ownStatic? name) cls

/-- Replaces the variables of a routine. -/
def setFrame (fs : Facts) (routine : String) (f : Frame) : Facts :=
  { fs with frames := fs.frames.put routine f }

/-- Settles a global variable, unless it is settled. -/
def settleGlobal (fs : Facts) (name : String) (s : Sigil) : Facts :=
  if fs.globals.has name then fs else { fs with globals := fs.globals.put name s }

/-- Settles a local variable of a routine. -/
def settleLocal (fs : Facts) (routine name : String) (s : Sigil) : Facts :=
  let f := fs.frame routine
  fs.setFrame routine
    { f with locals := f.locals.put name s, pending := f.pending.filter (· != name) }

/-- Records the declaration of a variable, whose sigil may not be known yet. Outside of routines
    every variable is global, and one with a declared type is settled by it. -/
def declare (ctx : Context) (fs : Facts) (name : String) (sigil : Option Sigil) : Facts :=
  if ctx.routine == SymbolName.mainRoutine then
    match sigil with
    | some s => if ctx.hints.globalTypes.has name then fs else fs.settleGlobal name s
    | none => fs
  else
    let f := fs.frame ctx.routine
    if f.locals.has name then fs
    else
      match sigil with
      | some s => fs.settleLocal ctx.routine name s
      | none => fs.setFrame ctx.routine { f with pending := addNew f.pending name }

/-- Records an assignment of a value of sigil `s`, which settles a waiting local, or outside of
    routines an unknown global. -/
def assign (ctx : Context) (fs : Facts) (name : String) (s : Sigil) : Facts :=
  if (fs.frame ctx.routine).pending.contains name then fs.settleLocal ctx.routine name s
  else if ctx.routine == SymbolName.mainRoutine then fs.settleGlobal name s
  else fs

/-- Whether a name is a variable where the context stands. -/
def isVariable (ctx : Context) (fs : Facts) (name : String) : Bool :=
  (fs.frame ctx.routine).knows name || fs.globals.has name || ctx.hints.globals.contains name

end Facts

end Lantern.Infer
