import Lantern.Flag
import Lantern.Text.Utf8

/-!
# Tables on a page

Help pages are tables of three columns: what is typed, what it does, and a note. The middle column
is broken into lines that fit the page. Widths are measured in bytes; filling up with spaces counts
characters.
-/

namespace Lantern.Page

/-- The unit of indentation. -/
def indent : String := "    "

/-- The indentation of what stands below a heading. -/
def deepIndent : String := indent ++ indent

/-- Breaks words into lines of at most `width` bytes, given the line begun. A word longer than that
    has a line to itself. -/
def fill (width : Nat) : String → List String → List String
  | line, [] => [line]
  | line, w :: ws =>
    if Text.byteLength line + 1 + Text.byteLength w > width then line :: fill width w ws
    else fill width (line ++ " " ++ w) ws

/-- Breaks a text into lines of at most `width` bytes. A page without room leaves the text as it
    is. -/
def wrap (text : String) (width : Int) : List String :=
  match Text.words text with
  | [] => []
  | w :: ws => if width ≤ 0 then [text] else fill width.toNat w ws

/-- A row of a table. -/
structure Row where
  /-- What is typed. -/
  left : String
  /-- What it does. -/
  usage : String
  /-- A note; empty is none. -/
  note : String
  deriving Repr, DecidableEq

/-- The widths of the first two columns. -/
structure Widths where
  /-- Of what is typed. -/
  left : Nat
  /-- Of what it does, unless the page is narrower. -/
  usage : Nat
  deriving Repr, DecidableEq

namespace Widths

/-- The widths a table needs. -/
def of (rows : List Row) : Widths :=
  rows.foldl (fun w r => ⟨max w.left (Text.byteLength r.left), max w.usage (Text.byteLength r.usage)⟩)
    ⟨0, 0⟩

/-- The widths that suit two tables. -/
def sup (a b : Widths) : Widths := ⟨max a.left b.left, max a.usage b.usage⟩

end Widths

/-- What is left of a page of the given width for the middle column of a row, never less than ten. -/
def available (page : Int) (w : Widths) (r : Row) : Nat :=
  (max (page - 8 - w.left - 1 - Text.byteLength r.note - 2) 10).toNat

/-- A row as written. -/
def rowText (page : Int) (w : Widths) (r : Row) : String :=
  let room := available page w r
  let (first, more) := match wrap r.usage room with
    | [] => ("", [])
    | l :: ls => (l, ls)
  let start := deepIndent ++ Text.padEnd w.left r.left ++ " "
  let head :=
    if r.note.isEmpty then start ++ first
    else start ++ Text.padEnd (min w.usage room) first ++ "  " ++ r.note
  head ++ "\n" ++
    String.join (more.map fun l => deepIndent ++ Text.repeated (w.left + 1) ' ' ++ l ++ "\n")

/-- A table as written. -/
def tableText (page : Int) (w : Widths) (rows : List Row) : String :=
  String.join (rows.map (rowText page w))

/-- A flag as typed: its shorthand, its name, and what its argument is called. -/
def spelling (f : Flag) : String :=
  let arg :=
    if f.value.isSwitch || f.placeholder.isEmpty then "" else " <" ++ f.placeholder ++ ">"
  if f.shorthand.isEmpty then "--" ++ f.name ++ arg
  else "-" ++ f.shorthand ++ ", --" ++ f.name ++ arg

/-- The note on what a flag holds if it is not given. -/
def initialNote (f : Flag) : String :=
  if f.value.isSwitch || f.initial.shown.isEmpty then "" else "|" ++ f.initial.shown ++ "|"

/-- The row of a flag. -/
def flagRow (f : Flag) : Row := ⟨spelling f, f.usage, initialNote f⟩

/-- The rows that say how the switches of a group are typed. -/
def groupRows (g : FlagGroup) : List Row :=
  let kind := if g.kind.isEmpty then "flag" else g.kind
  let family := (g.entries.head?.map FlagEntry.family).getD ""
  [⟨"-" ++ family ++ "<" ++ kind ++ ">", "Enable a specific " ++ kind, ""⟩,
   ⟨"-" ++ family ++ "no-<" ++ kind ++ ">", "Disable a specific " ++ kind, ""⟩]

/-- Whether a member of a group is on: it is turned on and not turned off. -/
def isActive (fs : FlagSet) (e : FlagEntry) : Bool :=
  e.enabled.isSome && fs.isOn e.onName && !(e.disabled.isSome && fs.isOn e.offName)

/-- The rows of the members of a group, by name. -/
def memberRows (fs : FlagSet) (g : FlagGroup) : List Row :=
  (g.entries.mergeSort fun a b => a.name ≤ b.name).map fun e =>
    ⟨e.name, e.usage, if isActive fs e then "|x|" else "|-|"⟩

end Lantern.Page
