import Lantern.Flag.Page
import Lantern.Flag.Parse

/-!
# Commands

A command is a name, a flag set and the pages that explain it. Running it reads the command line and
either shows a page or hands the positional arguments on.
-/

namespace Lantern

/-- A command. -/
structure Command where
  /-- Its name. -/
  name : String
  /-- How it is used, behind its name; empty is the usual form. -/
  usage : String
  /-- How it is used, for the help page; empty is none. -/
  synopsis : String
  /-- What it is for; empty is none. -/
  description : String
  /-- Where more is to be found; empty is nowhere. -/
  repository : String
  /-- The width of a page. -/
  width : Int
  /-- Its flags. -/
  flags : FlagSet
  deriving Repr, DecidableEq

namespace Command

open Page

/-- A heading on a page. -/
def heading (title : String) : String := "\n" ++ indent ++ title ++ "\n"

/-- How the command is used, behind its name. -/
def usageLine (c : Command) : String :=
  if c.usage.isEmpty then "[options] <file> ..." else c.usage

/-- The table of the flags outside every group. -/
def optionRows (c : Command) : List Row := c.flags.options.map flagRow

/-- The section of options, if there are any. -/
def optionsText (c : Command) : String :=
  if c.optionRows.isEmpty then ""
  else heading "Options" ++ tableText c.width (Widths.of c.optionRows) c.optionRows

/-- The short page: how the command is used and its options. -/
def usagePage (c : Command) : String :=
  "Usage: " ++ c.name ++ " " ++ c.usageLine ++ "\n" ++ c.optionsText ++
    "\nRun '" ++ c.name ++ " --help' for all available options and flags.\n"

/-- The section of a group, whose columns are at least as wide as `least`, and the widths that
    suit the sections that follow. -/
def groupText (c : Command) (least : Widths) (g : FlagGroup) : String × Widths :=
  let rows := groupRows g
  let members := memberRows c.flags g
  let common := (Widths.of rows).sup least
  let widths := (Widths.of members).sup common
  (heading g.name ++ tableText c.width widths rows ++
    (if g.header.isEmpty then "" else indent ++ g.header ++ "\n") ++
    tableText c.width widths members, common)

/-- The sections of groups in order. -/
def groupsText (c : Command) : Widths → List FlagGroup → String
  | _, [] => ""
  | least, g :: gs =>
    if g.entries.isEmpty then groupsText c least gs
    else
      let (text, widths) := c.groupText least g
      text ++ groupsText c widths gs

/-- The full page: everything about the command, and the state of every switch in a group. -/
def helpPage (c : Command) : String :=
  (if c.repository.isEmpty then ""
    else indent ++ "For more details refer to " ++ c.repository ++ "\n") ++
  (if c.synopsis.isEmpty then ""
    else heading "Synopsis" ++ deepIndent ++ c.name ++ " " ++ c.synopsis ++ "\n") ++
  (if c.description.isEmpty then ""
    else heading "Description" ++
      String.join ((wrap c.description (c.width - 8)).map fun l => deepIndent ++ l ++ "\n")) ++
  c.optionsText ++
  c.groupsText (Widths.of c.optionRows) (c.flags.groups.mergeSort fun a b => a.name ≤ b.name)

/-- What became of running a command. -/
inductive Outcome where
  /-- The help flag itself could not be registered. -/
  | unregistered (fault : RegisterFault)
  /-- The command line could not be read. -/
  | misread (fault : FlagFault)
  /-- Help was asked for. -/
  | help
  /-- The positional arguments are to be acted upon. -/
  | act (args : List String)
  deriving Repr, DecidableEq

/-- Registers the help flag and reads a command line. -/
def run (c : Command) (args : List String) : Command × Outcome :=
  match c.flags.register (.switch false) "help" "h" "Display this information" "" with
  | (fs, some fault) => ({ c with flags := fs }, .unregistered fault)
  | (fs, none) =>
    match fs.parse args with
    | (fs, some fault) => ({ c with flags := fs }, .misread fault)
    | (fs, none) =>
      ({ c with flags := fs }, if fs.isOn "help" then .help else .act fs.args)

/-- What a misread command line is answered with. -/
def complaint (c : Command) (fault : FlagFault) : String :=
  c.name ++ ": " ++ fault.message ++ "\n" ++ c.usagePage

end Command

end Lantern
