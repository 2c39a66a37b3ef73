import Lantern.Path
import Lantern.Text.Utf8

/-!
# File trees

The files and directories a command works on. A location is the list of names that leads to a node
from the working directory; names above it are written `..`, and a path that starts at the root has
`/` as its first name. The working directory, everything above it and the root are always there.
-/

namespace Lantern

/-- A file or a directory. -/
inductive FileNode where
  /-- A directory. -/
  | dir
  /-- A file that holds a text. -/
  | file (content : String)
  /-- A file whose bytes are no text. -/
  | binary (bytes : List UInt8)
  deriving Repr, DecidableEq

namespace FileNode

/-- A file with the given bytes. -/
def ofBytes (bytes : List UInt8) : FileNode :=
  let text := Text.decodeUtf8 bytes
  if Text.utf8Bytes text == bytes then .file text else .binary bytes

/-- The text of a file; bytes that are no character stand for the replacement character. -/
def text? : FileNode → Option String
  | dir => none
  | file content => some content
  | binary bytes => some (Text.decodeUtf8 bytes)

/-- The bytes of a file. -/
def bytes? : FileNode → Option (List UInt8)
  | dir => none
  | file content => some (Text.utf8Bytes content)
  | binary bytes => some bytes

end FileNode

/-- Where a node is. -/
abbrev Location := List String

/-- Why a path cannot be used. -/
inductive FileFault where
  /-- Nothing is there. -/
  | missing
  /-- A file is where a directory has to be. -/
  | notDirectory
  /-- A directory is where a file has to be. -/
  | isDirectory
  /-- Something is there. -/
  | present
  deriving Repr, DecidableEq

/-- What is said about a path that cannot be used. -/
def FileFault.message : FileFault → String
  | missing => "no such file or directory"
  | notDirectory => "not a directory"
  | isDirectory => "is a directory"
  | present => "file exists"

/-- What was tried on which path, and why it failed. -/
structure FileError where
  /-- What was tried. -/
  action : String
  /-- The path as given. -/
  path : String
  /-- Why it failed. -/
  fault : FileFault
  deriving Repr, DecidableEq

/-- What is said about a failure. -/
def FileError.message (e : FileError) : String := e.action ++ " " ++ e.path ++ ": " ++ e.fault.message

/-- Files and directories by location. -/
structure FileTree where
  /-- The nodes below the working directory. -/
  nodes : List (Location × FileNode)
  deriving Repr, DecidableEq

namespace FileTree

/-- Nothing but the working directory. -/
def empty : FileTree := ⟨[]⟩

/-- Whether a location is a directory that is always there. -/
def isFixed (l : Location) : Bool := l.all (· == "..") || l == ["/"]

/-- The node at a location. -/
def node? (t : FileTree) (l : Location) : Option FileNode :=
  if isFixed l then some .dir else (t.nodes.find? (·.1 == l)).map Prod.snd

/-- Puts a node at a location. -/
def put (t : FileTree) (l : Location) (n : FileNode) : FileTree :=
  if isFixed l then t else ⟨t.nodes.filter (·.1 != l) ++ [(l, n)]⟩

/-- Takes the node at a location away. -/
def drop (t : FileTree) (l : Location) : FileTree := ⟨t.nodes.filter (·.1 != l)⟩

/-- The location one name further. -/
def step (here : Location) (name : String) : Location :=
  if name.isEmpty || name == "." then here
  else if name == ".." then
    if here.all (· == "..") then here ++ [".."] else if here == ["/"] then here else here.dropLast
  else here ++ [name]

/-- Follows names from a location; every name is looked up in a directory. -/
def follow (t : FileTree) (here : Location) : List String → Except FileFault Location
  | [] => .ok here
  | name :: names =>
    match t.node? here with
    | none => .error .missing
    | some .dir => follow t (step here name) names
    | some _ => .error .notDirectory

/-- The location of a path. Nothing need be there. -/
def locate (t : FileTree) (path : String) : Except FileFault Location :=
  if path.isEmpty then .error .missing
  else t.follow (if Path.isRooted path then ["/"] else []) (Path.parts path)

/-- The node at a path. -/
def stat (t : FileTree) (path : String) : Except FileFault FileNode :=
  match t.locate path with
  | .error f => .error f
  | .ok l =>
    match t.node? l with
    | some n => .ok n
    | none => .error .missing

/-- Whether anything is at a path. -/
def has (t : FileTree) (path : String) : Bool := (t.stat path).isOk

/-- What `content?` gives for the file at a path. -/
def readBy {α : Type} (content? : FileNode → Option α) (t : FileTree) (path : String) :
    Except FileError α :=
  match t.stat path with
  | .error f => .error ⟨"open", path, f⟩
  | .ok n =>
    match content? n with
    | some a => .ok a
    | none => .error ⟨"read", path, .isDirectory⟩

/-- The text of the file at a path. -/
def read : FileTree → String → Except FileError String := readBy FileNode.text?

/-- The bytes of the file at a path. -/
def readBytes : FileTree → String → Except FileError (List UInt8) := readBy FileNode.bytes?

/-- Puts a file at a path, in place of the one that was there. -/
def putFile (t : FileTree) (path : String) (n : FileNode) : Except FileError FileTree :=
  match t.locate path with
  | .error f => .error ⟨"open", path, f⟩
  | .ok l =>
    if t.node? l == some .dir then .error ⟨"open", path, .isDirectory⟩ else .ok (t.put l n)

/-- Writes a text to the file at a path, in place of what was there. -/
def write (t : FileTree) (path content : String) : Except FileError FileTree :=
  t.putFile path (.file content)

/-- Writes bytes to the file at a path, in place of what was there. -/
def writeBytes (t : FileTree) (path : String) (bytes : List UInt8) : Except FileError FileTree :=
  t.putFile path (.ofBytes bytes)

/-- Whether a location is a directory with something in it. -/
def isOccupied (t : FileTree) (l : Location) : Bool := t.nodes.any fun (k, _) => k.dropLast == l

/-- Removes the file or the empty directory at a path; anything else stays. -/
def remove (t : FileTree) (path : String) : FileTree :=
  match t.locate path with
  | .error _ => t
  | .ok l => if t.isOccupied l then t else t.drop l

/-- Makes the directory of a path in a directory that is there. -/
def makeDir (t : FileTree) (path : String) : Except FileError FileTree :=
  match t.locate (Text.trimEnd (· == '/') path) with
  | .error f => .error ⟨"mkdir", path, f⟩
  | .ok l => if (t.node? l).isSome then .error ⟨"mkdir", path, .present⟩ else .ok (t.put l .dir)

/-- A path up to the slash before its last part. -/
def parentText (path : String) : String :=
  String.ofList ((path.toList.reverse.dropWhile (· == '/')).dropWhile (· != '/')).reverse

/-- Makes the directories of a path, at most `depth` of them. Those made before a failure stay. -/
def makeDirsFrom : Nat → FileTree → String → FileTree × Option FileError
  | 0, t, _ => (t, none)
  | depth + 1, t, path =>
    match t.stat path with
    | .ok .dir => (t, none)
    | .ok _ => (t, some ⟨"mkdir", path, .notDirectory⟩)
    | .error _ =>
      let parent := parentText path
      match (if parent.isEmpty then (t, none) else makeDirsFrom depth t parent) with
      | (t, some e) => (t, some e)
      | (t, none) =>
        match t.makeDir path with
        | .ok t => (t, none)
        | .error e =>
          match t.stat path with
          | .ok .dir => (t, none)
          | _ => (t, some e)

/-- Makes the directory of a path and those above it, as far as they are missing. -/
def makeDirs (t : FileTree) (path : String) : FileTree × Option FileError :=
  makeDirsFrom (path.length + 1) t path

/-- The texts of the files below the working directory by path. -/
def files (t : FileTree) : List (String × String) :=
  t.nodes.filterMap fun (l, n) =>
    match n.text?, l.head? with
    | some content, some first =>
      if first == ".." || first == "/" then none else some ("/".intercalate l, content)
    | _, _ => none

end FileTree

end Lantern
