import Lantern.Convention
import Lantern.FileTree
import Lantern.Hash
import Lantern.Text.Quoted
import Lantern.Text.Utf8

/-!
# Packaging

Assembly text becomes an executable by two tools, an assembler and a linker. A stamp beside the
assembly text remembers what was packaged last; as long as it fits and the executable is there,
nothing is done.
-/

namespace Lantern

/-- Why a tool did not do its work. -/
inductive ToolFault where
  /-- There is no such tool. -/
  | notFound
  /-- It ended with a status that is not zero. -/
  | exited (status : Nat)
  deriving Repr, DecidableEq

/-- What is said about a tool that did not do its work. -/
def ToolFault.message (tool : String) : ToolFault → String
  | notFound => "exec: " ++ Text.quoted tool ++ ": executable file not found in $PATH"
  | exited status => "exit status " ++ toString status

/-- What a run of a tool leaves behind beside files. -/
structure ToolRun where
  /-- What it printed. -/
  output : String
  /-- Why it failed, if it did. -/
  fault : Option ToolFault
  deriving Repr, DecidableEq

/-- What tools do: given a tool, its arguments and the files, the files afterwards. -/
abbrev Toolbox := String → List String → FileTree → FileTree × ToolRun

/-- The step a tool is run for. -/
inductive Stage where
  | assembler | linker
  deriving Repr, DecidableEq

/-- The name of a step. -/
def Stage.name : Stage → String
  | assembler => "assembler"
  | linker => "linker"

/-- Why packaging failed. -/
inductive PackageFault where
  /-- The build directory could not be made. -/
  | buildDir (why : FileError)
  /-- The directory of the executable could not be made. -/
  | outputDir (why : FileError)
  /-- The assembly text could not be written. -/
  | assembly (why : FileError)
  /-- A tool failed; what it printed is kept. -/
  | tool (stage : Stage) (name : String) (why : ToolFault) (output : String)
  /-- The stamp could not be written. -/
  | stamp (why : FileError)
  deriving Repr, DecidableEq

/-- What is said about a failure. -/
def PackageFault.message : PackageFault → String
  | buildDir why => "failed to create build directory: " ++ why.message
  | outputDir why => "failed to create output directory: " ++ why.message
  | assembly why => "failed to write assembly: " ++ why.message
  | tool stage name why output =>
    match why with
    | .notFound => stage.name ++ ": " ++ name ++ " not found: " ++ why.message name
    | .exited _ =>
      let said := Text.trim output
      stage.name ++ ": " ++ name ++ " failed: " ++ why.message name ++
        (if said.isEmpty then "" else "\nOutput:\n" ++ said)
  | stamp why => "failed to write build stamp: " ++ why.message

/-- What is to be packaged, and how. -/
structure PackageOptions where
  /-- The platform. -/
  platform : Platform
  /-- Where assembly text, object and stamp go; empty is `build`. -/
  buildDir : String := ""
  /-- Where executables go; empty is `bin`. -/
  binDir : String := ""
  /-- The path of the executable; empty is one in the directory for executables. -/
  output : String := ""
  /-- Objects and archives to link with. -/
  runtimeLibs : List String := []
  /-- Further arguments of the linker. -/
  linkerArgs : List String := []
  /-- The assembler; empty is `nasm`. -/
  assembler : String := ""
  /-- The linker; empty is `cc`. -/
  linker : String := ""
  /-- Whether to package even if the stamp fits. -/
  force : Bool := false
  deriving Repr, DecidableEq

/-- `s`, or `usual` if it is empty. -/
def orUsual (usual s : String) : String := if s.isEmpty then usual else s

/-- The result of packaging. -/
structure Product where
  /-- The path of the assembly text. -/
  asmPath : String
  /-- The path of the object. -/
  objPath : String
  /-- The path of the executable. -/
  binPath : String
  /-- Whether nothing had to be done. -/
  cached : Bool
  deriving Repr, DecidableEq

/-- The files, and the tool calls made so far: each a tool and its arguments. -/
structure Workspace where
  /-- The files. -/
  files : FileTree
  /-- The calls, the first one first. -/
  calls : List (List String)
  deriving Repr, DecidableEq

namespace PackageOptions

/-- The convention of the platform. -/
def convention (o : PackageOptions) : Convention := Convention.of o.platform

/-- The build directory. -/
def buildPath (o : PackageOptions) : String := orUsual "build" o.buildDir

/-- The name of the assembler. -/
def assemblerName (o : PackageOptions) : String := orUsual "nasm" o.assembler

/-- The name of the linker. -/
def linkerName (o : PackageOptions) : String := orUsual "cc" o.linker

/-- The paths of what is made for a program. -/
def product (o : PackageOptions) (stem : String) : Product :=
  { asmPath := Path.join o.buildPath (stem ++ ".asm")
    objPath := Path.join o.buildPath (stem ++ o.convention.objectExt)
    binPath := orUsual (Path.join (orUsual "bin" o.binDir) (stem ++ o.convention.exeExt)) o.output
    cached := false }

/-- The path of the stamp of a program. -/
def stampPath (o : PackageOptions) (stem : String) : String :=
  Path.join o.buildPath (stem ++ ".stamp")

end PackageOptions

/-- The arguments of the assembler. -/
def assemblerArgs (c : Convention) (asmPath objPath : String) : List String :=
  ["-f", c.objectFormat, asmPath, "-o", objPath]

/-- The arguments of the linker. Libraries follow the object, so that they provide what it lacks. -/
def linkerArgs (c : Convention) (objPath binPath : String) (runtimeLibs extra : List String) :
    List String :=
  (if c.noPie then ["-no-pie"] else []) ++ [objPath] ++ runtimeLibs ++ ["-o", binPath] ++ extra ++
    (if c.linkLibc then ["-lc"] else [])

/-- The byte that separates the parts of a fingerprint's input. -/
def separator : List UInt8 := [0]

/-- Everything the executable depends on, as bytes. -/
def fingerprintInput (o : PackageOptions) (text : String) : List UInt8 :=
  let joined (xs : List String) : List UInt8 := separator.intercalate (xs.map Text.utf8Bytes)
  Text.utf8Bytes o.platform.name ++ separator ++ joined o.runtimeLibs ++ separator ++
    joined o.linkerArgs ++ separator ++ Text.utf8Bytes text

/-- The fingerprint of a program and the way it is packaged. -/
def fingerprint (o : PackageOptions) (text : String) : String :=
  Hash.hex (Hash.hash64 (fingerprintInput o text))

namespace Package

/-- Whether the stamp at a path holds a fingerprint. -/
def stampFits (t : FileTree) (path print : String) : Bool :=
  match t.read path with
  | .ok content => Text.trim content == print
  | .error _ => false

/-- Whether nothing has to be done. -/
def isCurrent (o : PackageOptions) (stem text : String) (t : FileTree) : Bool :=
  !o.force && stampFits t (o.stampPath stem) (fingerprint o text) && t.has (o.product stem).binPath

/-- Makes the directories, takes an old stamp away, so that it does not outlive a failure, and writes
    the assembly text. -/
def prepare (o : PackageOptions) (stem text : String) (t : FileTree) :
    FileTree × Option PackageFault :=
  let p := o.product stem
  match t.makeDirs o.buildPath with
  | (t, some e) => (t, some (.buildDir e))
  | (t, none) =>
    match t.makeDirs (Path.dir p.binPath) with
    | (t, some e) => (t, some (.outputDir e))
    | (t, none) =>
      let t := t.remove (o.stampPath stem)
      match t.write p.asmPath text with
      | .error e => (t, some (.assembly e))
      | .ok t => (t, none)

/-- Runs a tool and notes the call. -/
def call (tools : Toolbox) (stage : Stage) (tool : String) (args : List String) (w : Workspace) :
    Workspace × Option PackageFault :=
  let (t, run) := tools tool args w.files
  (⟨t, w.calls ++ [tool :: args]⟩, run.fault.map fun why => .tool stage tool why run.output)

/-- Assembles and links. A linker that fails leaves no executable. -/
def runTools (tools : Toolbox) (o : PackageOptions) (stem : String) (w : Workspace) :
    Workspace × Option PackageFault :=
  let p := o.product stem
  match call tools .assembler o.assemblerName (assemblerArgs o.convention p.asmPath p.objPath) w with
  | (w, some fault) => (w, some fault)
  | (w, none) =>
    match call tools .linker o.linkerName
        (linkerArgs o.convention p.objPath p.binPath o.runtimeLibs o.linkerArgs) w with
    | (w, some fault) => ({ w with files := w.files.remove p.binPath }, some fault)
    | (w, none) => (w, none)

/-- Clears up after the tools and writes the stamp. -/
def finish (o : PackageOptions) (stem text : String) (t : FileTree) :
    FileTree × Option PackageFault :=
  let t := if o.platform == .win64 then t.remove (o.product stem).objPath else t
  match t.write (o.stampPath stem) (fingerprint o text ++ "\n") with
  | .error e => (t, some (.stamp e))
  | .ok t => (t, none)

/-- Makes the executable of a program from its assembly text, unless it is there already. -/
def build (tools : Toolbox) (o : PackageOptions) (stem text : String) (w : Workspace) :
    Workspace × Except PackageFault Product :=
  let p := o.product stem
  if isCurrent o stem text w.files then (w, .ok { p with cached := true })
  else
    match prepare o stem text w.files with
    | (t, some fault) => ({ w with files := t }, .error fault)
    | (t, none) =>
      match runTools tools o stem { w with files := t } with
      | (w, some fault) => (w, .error fault)
      | (w, none) =>
        match finish o stem text w.files with
        | (t, some fault) => ({ w with files := t }, .error fault)
        | (t, none) => ({ w with files := t }, .ok p)

end Package

end Lantern
