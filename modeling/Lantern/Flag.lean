import Lantern.Text.Numeral
import Lantern.Text.Pieces

/-!
# Flags

A flag set is the vocabulary of a command line: named flags, some with a one-letter shorthand, and
families of switches that are listed under a heading of their own. Reading arguments changes what
the flags hold.
-/

namespace Lantern

namespace Flag

/-- What a flag holds. -/
inductive Value where
  /-- A text. -/
  | text (value : String)
  /-- On or off. -/
  | switch (on : Bool)
  /-- An integer. -/
  | number (value : Int64)
  /-- Every text given so far. -/
  | items (values : List String)
  deriving Repr, DecidableEq

/-- Why a flag refuses a text. -/
inductive Refusal where
  /-- Neither true nor false. -/
  | notSwitch (given : String)
  /-- No integer in range. -/
  | notNumber (given : String)
  deriving Repr, DecidableEq

/-- What is said about a refusal. -/
def Refusal.message : Refusal → String
  | notSwitch given => "invalid boolean '" ++ given ++ "'"
  | notNumber given => "invalid integer '" ++ given ++ "'"

/-- The truth value a text denotes. -/
def readSwitch? (s : String) : Option Bool :=
  if ["1", "t", "T", "TRUE", "true", "True"].contains s then some true
  else if ["0", "f", "F", "FALSE", "false", "False"].contains s then some false
  else none

namespace Value

/-- The value as shown. -/
def shown : Value → String
  | text s => s
  | switch on => if on then "true" else "false"
  | number n => toString n.toInt
  | items xs => ",".intercalate xs

/-- Whether the value is on or off. -/
def isSwitch : Value → Bool
  | switch _ => true
  | _ => false

/-- The value after a text is given for it: the last text, truth value or integer wins, and items
    are gathered. -/
def give (v : Value) (given : String) : Except Refusal Value :=
  match v with
  | text _ => .ok (text given)
  | switch _ =>
    match readSwitch? given with
    | some on => .ok (switch on)
    | none => .error (.notSwitch given)
  | number _ =>
    match Text.Numeral.readInt given with
    | .ok n => .ok (number (Int64.ofInt n))
    | .error _ => .error (.notNumber given)
  | items xs => .ok (items (xs ++ [given]))

end Value

end Flag

/-- A flag. -/
structure Flag where
  /-- Its long name. -/
  name : String
  /-- Its one-letter name; empty is none. -/
  shorthand : String
  /-- What the help page says about it. -/
  usage : String
  /-- What the help page calls its argument. -/
  placeholder : String
  /-- What it held when it was registered. -/
  initial : Flag.Value
  /-- What it holds. -/
  value : Flag.Value
  deriving Repr, DecidableEq

/-- A member of a family of switches. -/
structure FlagEntry where
  /-- The name of what is switched. -/
  name : String
  /-- The letters of the family. -/
  family : String
  /-- What the help page says about it. -/
  usage : String
  /-- Whether there is a switch to turn it on, and how that starts out. -/
  enabled : Option Bool
  /-- Whether there is a switch to turn it off, and how that starts out. -/
  disabled : Option Bool
  deriving Repr, DecidableEq

namespace FlagEntry

/-- The flag that turns the entry on. -/
def onName (e : FlagEntry) : String := e.family ++ e.name

/-- The flag that turns the entry off. -/
def offName (e : FlagEntry) : String := e.family ++ "no-" ++ e.name

/-- The flags the entry asks for, in order: name, usage, and how the flag starts out. -/
def wanted (e : FlagEntry) : List (String × String × Bool) :=
  (e.enabled.toList.map fun on => (e.onName, e.usage, on)) ++
    (e.disabled.toList.map fun on => (e.offName, "Disable '" ++ e.name ++ "'", on))

end FlagEntry

/-- A family of switches. -/
structure FlagGroup where
  /-- Its heading. -/
  name : String
  /-- What it is about. -/
  description : String
  /-- What one of its members is called; empty is a flag. -/
  kind : String
  /-- The line above the list of members. -/
  header : String
  /-- Its members. -/
  entries : List FlagEntry
  deriving Repr, DecidableEq

/-- Cells that hold positional arguments. Lists of arguments are handed out without being copied,
    and the next reading starts again at the first cell; so a list handed out earlier shows what its
    cells hold now. When the cells do not suffice, reading moves on to a larger block and leaves the
    old one as it is. -/
structure ArgCells where
  /-- The blocks of cells there have been, the one in use first. -/
  blocks : List (List String)
  /-- Number of cells in use. -/
  used : Nat
  deriving Repr, DecidableEq

namespace ArgCells

/-- No cells yet. -/
def empty : ArgCells := ⟨[], 0⟩

/-- The number of cells of the block in use. -/
def capacity (c : ArgCells) : Nat := (c.blocks.headD []).length

/-- Makes the cells free again. -/
def restart (c : ArgCells) : ArgCells := { c with used := 0 }

/-- The size of a block for `needed` cells after one of `capacity`: twice that, unless more is
    needed. -/
def growth (capacity needed : Nat) : Nat := max needed (2 * capacity)

/-- Puts several arguments into the cells at once. -/
def append (c : ArgCells) (xs : List String) : ArgCells :=
  let block := c.blocks.headD []
  let needed := c.used + xs.length
  let filled := block.take c.used ++ xs
  if needed ≤ block.length then
    ⟨(filled ++ block.drop needed) :: c.blocks.tail, needed⟩
  else
    ⟨(filled ++ List.replicate (growth block.length needed - needed) "") :: c.blocks, needed⟩

/-- A list of arguments that was handed out. -/
structure Window where
  /-- The number of older blocks. -/
  block : Nat
  /-- How many arguments it has. -/
  count : Nat
  deriving Repr, DecidableEq

/-- The list of the arguments now in the cells. -/
def window (c : ArgCells) : Window := ⟨c.blocks.length - 1, c.used⟩

/-- What a list handed out earlier shows now. -/
def read (c : ArgCells) (w : Window) : List String :=
  ((c.blocks[c.blocks.length - 1 - w.block]?).getD []).take w.count

end ArgCells

/-- A vocabulary of flags and what was read with it. -/
structure FlagSet where
  /-- The flags by long name, in the order of registration. -/
  flags : List Flag
  /-- The long name each shorthand stands for. -/
  shorthands : List (String × String)
  /-- The long names that belong to a group. -/
  members : List String
  /-- The groups. -/
  groups : List FlagGroup
  /-- The long names of the flags that were given. -/
  changed : List String
  /-- The positional arguments. -/
  args : List String
  /-- The cells the positional arguments are kept in. -/
  cells : ArgCells
  deriving Repr, DecidableEq

/-- Why a flag cannot be registered. -/
inductive RegisterFault where
  /-- It has no name. -/
  | noName
  /-- The name is taken. -/
  | nameTaken (name : String)
  /-- The shorthand is taken. -/
  | shorthandTaken (shorthand : String)
  deriving Repr, DecidableEq

/-- What is said about a flag that cannot be registered. -/
def RegisterFault.message : RegisterFault → String
  | noName => "cli: flag name cannot be empty"
  | nameTaken name => "cli: flag redefined: " ++ name
  | shorthandTaken shorthand => "cli: shorthand redefined: " ++ shorthand

namespace FlagSet

/-- No flags. -/
def empty : FlagSet := ⟨[], [], [], [], [], [], ArgCells.empty⟩

/-- The flag of a long name. -/
def find? (fs : FlagSet) (name : String) : Option Flag := fs.flags.find? (·.name == name)

/-- The flag of a shorthand. -/
def findShort? (fs : FlagSet) (shorthand : String) : Option Flag :=
  match fs.shorthands.find? (·.1 == shorthand) with
  | some (_, name) => fs.find? name
  | none => none

/-- Whether a flag was given. -/
def isChanged (fs : FlagSet) (name : String) : Bool := fs.changed.contains name

/-- Registers a flag. One whose shorthand is taken is registered under its long name alone, and the
    fault is reported. -/
def register (fs : FlagSet) (value : Flag.Value) (name shorthand usage placeholder : String) :
    FlagSet × Option RegisterFault :=
  if name.isEmpty then (fs, some .noName)
  else if (fs.find? name).isSome then (fs, some (.nameTaken name))
  else
    let fs := { fs with flags := fs.flags ++ [⟨name, shorthand, usage, placeholder, value, value⟩] }
    if shorthand.isEmpty then (fs, none)
    else if fs.shorthands.any (·.1 == shorthand) then (fs, some (.shorthandTaken shorthand))
    else ({ fs with shorthands := fs.shorthands ++ [(shorthand, name)] }, none)

/-- Registers the flags of group members, up to the first that cannot be. -/
def registerMembers (fs : FlagSet) : List (String × String × Bool) → FlagSet × Option RegisterFault
  | [] => (fs, none)
  | (name, usage, on) :: rest =>
    match fs.register (.switch on) name "" usage "" with
    | (fs, some fault) => (fs, some fault)
    | (fs, none) => registerMembers { fs with members := fs.members ++ [name] } rest

/-- Registers a group and the flags of its members. -/
def addGroup (fs : FlagSet) (g : FlagGroup) : FlagSet × Option RegisterFault :=
  match fs.registerMembers (g.entries.flatMap FlagEntry.wanted) with
  | (fs, some fault) => (fs, some fault)
  | (fs, none) => ({ fs with groups := fs.groups ++ [g] }, none)

/-- The flags outside every group, by name. -/
def options (fs : FlagSet) : List Flag :=
  (fs.flags.filter fun f => !fs.members.contains f.name).mergeSort fun a b => a.name ≤ b.name

/-- Whether a switch is registered and on. -/
def isOn (fs : FlagSet) (name : String) : Bool :=
  match fs.find? name with
  | some f => f.value == .switch true
  | none => false

/-- Lets a flag hold a value and remembers that it was given. -/
def hold (fs : FlagSet) (name : String) (value : Flag.Value) : FlagSet :=
  { fs with
    flags := fs.flags.map fun f => if f.name == name then { f with value } else f
    changed := if fs.changed.contains name then fs.changed else fs.changed ++ [name] }

/-- Adds positional arguments. -/
def addArgs (fs : FlagSet) (xs : List String) : FlagSet :=
  { fs with args := fs.args ++ xs, cells := fs.cells.append xs }

end FlagSet

end Lantern
