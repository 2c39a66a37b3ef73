import Lantern.Check
import Lantern.Emit
import Lantern.Flag.Command
import Lantern.Nasm
import Lantern.Package
import Lantern.ProjectFile
import Lantern.Token.Lexer
import Lantern.Tree.Outline
import Lantern.Tree.Parser

/-!
# The command line

The compiler as a command: it takes settings from the project file and the command line, reads all
sources as one program, and prints a listing or makes an executable. A run is a function from the
files and the tools of a machine to what it prints, its exit code and the files it leaves.
-/

namespace Lantern.CommandLine

/-- The machine a command runs on. -/
structure Machine where
  /-- Its operating system. -/
  os : String
  /-- Its processor. -/
  arch : String
  /-- Its tools. -/
  tools : Toolbox

/-- The flags that hold something: name, shorthand, what they hold at first, usage, placeholder. -/
def valueFlags : List (String × String × Flag.Value × String × String) :=
  [("output", "o", .text "", "Place the executable into <file> instead of bin/<stem>.", "file"),
   ("target", "t", .text "", "Target ABI: sysv (linux) or win64 (windows). Defaults to the host.",
    "abi"),
   ("config", "c", .text "", "Read defaults from a YAML project file.", "file"),
   ("build-dir", "", .text "build", "Directory for the assembly, object and stamp files.", "dir"),
   ("seed", "", .number (-1),
    "Seed the random source with <n>; a negative value leaves it unseeded.", "n"),
   ("linker-arg", "L", .items [], "Pass an argument to the linker.", "arg"),
   ("runtime", "r", .items [], "Link a runtime object or archive.", "file"),
   ("warn", "", .items [], "Toggle warnings by name, including all and no-all.", "name"),
   ("dump-tokens", "", .switch false, "Print the token stream and exit.", ""),
   ("dump-ast", "", .switch false, "Print the type-checked syntax tree and exit.", ""),
   ("dump-asm", "S", .switch false, "Print the generated assembly and exit.", ""),
   ("force", "f", .switch false, "Rebuild even when the build stamp is current.", "")]

/-- The flags of the command. -/
def flagSet : FlagSet :=
  let fs := valueFlags.foldl (fun fs (name, shorthand, value, usage, placeholder) =>
    (fs.register value name shorthand usage placeholder).1) FlagSet.empty
  (fs.addGroup Settings.warningGroup).1

/-- The command. -/
def command : Command :=
  { name := "lumc"
    usage := "[options] <input.lm> ..."
    synopsis := "[options] <input.lm> ..."
    description := "A compiler for the Lumen language. Source files are compiled together into " ++
      "one program, emitted as NASM assembly and packaged with nasm and cc."
    repository := ""
    width := 80
    flags := flagSet }

/-- What a run has printed and done so far. -/
structure Console where
  /-- What it printed. -/
  out : String
  /-- What it printed as information and errors. -/
  err : String
  /-- The files and the tool calls. -/
  workspace : Workspace
  deriving Repr, DecidableEq

/-- A run that may end early with an exit code. -/
abbrev Session := ExceptT Nat (StateM Console)

/-- Prints. -/
def say (text : String) : Session Unit := modify fun c => { c with out := c.out ++ text }

/-- Prints information or errors. -/
def note (text : String) : Session Unit := modify fun c => { c with err := c.err ++ text }

/-- Ends the run with an error that is about no place in the source. -/
def fatal {α : Type} (message : String) : Session α := do
  note (Diagnostic.render [] ⟨.error, ⟨-1, 0, 0, 0⟩, message⟩)
  throw 1

/-- The result, or the end of the run with the message of the error. -/
def orFatal {ε α : Type} (message : ε → String) : Except ε α → Session α
  | .ok a => pure a
  | .error e => fatal (message e)

/-- The result of a part of the compilation, whose diagnostics are shown; an error ends the run. -/
def checked {α : Type} (ws : WarningSet) (sources : List Source) (x : Checked α) : Session α := do
  let (a, ds) := x.outcome
  note (Diagnostic.renderAll ws sources ds)
  match a with
  | some a => pure a
  | none => throw 1

/-- The text a flag holds. -/
def textOf (fs : FlagSet) (name : String) : String :=
  match (fs.find? name).map Flag.value with
  | some (.text s) => s
  | _ => ""

/-- The texts a flag has gathered. -/
def itemsOf (fs : FlagSet) (name : String) : List String :=
  match (fs.find? name).map Flag.value with
  | some (.items xs) => xs
  | _ => []

/-- The seed of the command line, if it gives one. -/
def seedOf? (fs : FlagSet) : Option Int64 :=
  match (fs.find? "seed").map Flag.value with
  | some (.number n) => if fs.isChanged "seed" then some n else none
  | _ => none

/-- Takes over the project file the command line names; the target it asks for is returned. -/
def takeProject (fs : FlagSet) (s : Settings) : Session (Settings × String) := do
  let path := textOf fs "config"
  if path.isEmpty then return (s, "")
  let f ← orFatal ProjectFile.Fault.message (ProjectFile.load (← get).workspace.files path)
  let (s, target) := f.apply s
  return (s, ← orFatal id target)

/-- Switches the warnings of the given names. -/
def switchByName (s : Settings) (names : List String) : Session Settings :=
  names.foldlM (fun s name => do
    return { s with warnings := ← orFatal Settings.unknownWarning (s.warnings.applyName name) }) s

/-- The settings of a run: the project file first, so that the command line overrides it. -/
def settle (m : Machine) (fs : FlagSet) : Session Settings := do
  let (s, projectTarget) ← takeProject fs Settings.standard
  let s ← switchByName s (itemsOf fs "warn")
  let s := s.applyFlags fs
  let s := { s with
    seed := (seedOf? fs).getD s.seed
    output := orUsual s.output (textOf fs "output") }
  let (s, said) := s.setTarget m.os m.arch (orUsual projectTarget (textOf fs "target"))
  note (← orFatal TargetFault.message said)
  return { s with
    runtimeLibs := s.runtimeLibs ++ itemsOf fs "runtime"
    linkerArgs := s.linkerArgs ++ itemsOf fs "linker-arg" }

/-- Reads the sources in order into one stream of tokens. Diagnostics of this step do not show the
    source: the sources are known only when all of them are read. -/
def readSources (ws : WarningSet) : Nat → List String → Session (List Source × List Token)
  | _, [] => return ([], [])
  | file, path :: paths => do
    let text ← orFatal (fun e => "could not read file '" ++ path ++ "': " ++ FileError.message e)
      ((← get).workspace.files.read path)
    let tokens ← checked ws [] (Token.readAll file text)
    let (sources, more) ← readSources ws (file + 1) paths
    return (⟨path, text⟩ :: sources, tokens.dropLast ++ more)

/-- The end of the stream of tokens of that many sources. -/
def endToken (count : Nat) : Token := ⟨.endOfFile, ⟨(count - 1 : Nat), 0, 0, 0⟩⟩

/-- A token as listed: its place, its kind, and what it carries. -/
def tokenLine (sources : List Source) (t : Token) : String :=
  let name := ((Diagnostic.sourceOf? sources t.span).map Source.name).getD "<input>"
  let place := name ++ ":" ++ toString t.span.line ++ ":" ++ toString t.span.column
  if t.lexeme.value.isEmpty then Text.padEnd 24 place ++ " " ++ t.lexeme.kindName ++ "\n"
  else
    Text.padEnd 24 place ++ " " ++ Text.padEnd 12 t.lexeme.kindName ++ " " ++
      Text.quoted t.lexeme.value ++ "\n"

/-- The line that frames the report on progress. -/
def ruleLine : String := "----------------------\n"

/-- Makes the executable. -/
def package (m : Machine) (fs : FlagSet) (s : Settings) (progress : String → Session Unit)
    (input text : String) : Session Unit := do
  let stem := Path.stem input
  let usual := "bin/" ++ stem ++ (Convention.of s.platform).exeExt
  progress ("Linking to create '" ++ orUsual usual s.output ++ "'...\n")
  let options : PackageOptions :=
    { platform := s.platform
      buildDir := textOf fs "build-dir"
      output := s.output
      runtimeLibs := s.runtimeLibs
      linkerArgs := s.linkerArgs
      force := fs.isOn "force" }
  let (w, result) := Package.build m.tools options stem text (← get).workspace
  modify fun c => { c with workspace := w }
  let product ← orFatal PackageFault.message result
  if product.cached then progress ("'" ++ product.binPath ++ "' is up to date.\n")
  progress (ruleLine ++ "Done!\n")

/-- Compiles the given sources. -/
def compile (m : Machine) (fs : FlagSet) (inputs : List String) : Session Unit := do
  let first :: _ := inputs | fatal "no input files specified."
  let s ← settle m fs
  let dumps := fs.isOn "dump-tokens" || fs.isOn "dump-ast" || fs.isOn "dump-asm"
  let progress := if dumps then note else say
  progress (ruleLine ++ "Tokenizing " ++ toString inputs.length ++ " source file(s)...\n")
  let (sources, tokens) ← readSources s.warnings 0 inputs
  let tokens := tokens ++ [endToken inputs.length]
  if fs.isOn "dump-tokens" then
    say (String.join (tokens.map (tokenLine sources)))
    return
  progress "Parsing tokens into AST...\n"
  let program ← checked s.warnings sources (Program.ofTokens tokens)
  progress "Type checking...\n"
  let (program, hints) ← checked s.warnings sources program.check
  if fs.isOn "dump-ast" then
    say (String.join (program.listing.map (· ++ "\n")))
    return
  progress ("Generating code for '" ++ s.platform.name ++ "'...\n")
  let (image, log) := program.generate hints s.seed
  note (Diagnostic.renderAll s.warnings sources log)
  let text := Nasm.render s.platform image
  if fs.isOn "dump-asm" then say text else package m fs s progress first text

/-- What a run leaves behind. -/
structure Result where
  /-- What it printed. -/
  stdout : String
  /-- What it printed as information and errors. -/
  stderr : String
  /-- Its exit code. -/
  exit : Nat
  /-- The files afterwards. -/
  files : FileTree
  deriving Repr, DecidableEq

/-- What the command does about its arguments. -/
def session (m : Machine) (args : List String) : Session Unit :=
  match command.run args with
  | (_, .unregistered fault) => fatal fault.message
  | (c, .misread fault) => do
    note (c.complaint fault)
    throw 1
  | (c, .help) => say c.helpPage
  | (c, .act inputs) => compile m c.flags inputs

/-- A run of the command. -/
def run (m : Machine) (args : List String) (files : FileTree) : Result :=
  match StateT.run (ExceptT.run (session m args)) ⟨"", "", ⟨files, []⟩⟩ with
  | (result, c) =>
    { stdout := c.out
      stderr := c.err
      exit := match result with
        | .ok _ => 0
        | .error status => status
      files := c.workspace.files }

/-- The paths a run may read: its sources and its project file. -/
def wanted (args : List String) : List String :=
  let (fs, _) := flagSet.parse args
  fs.args ++ [textOf fs "config"].filter (!·.isEmpty)

end Lantern.CommandLine
