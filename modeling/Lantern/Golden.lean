import Lantern.Duration
import Lantern.Path
import Lantern.Text.Pieces

/-!
# Golden runs

A program is tested by running it on several inputs and comparing what it prints with runs recorded
earlier. The record stands beside the source and holds the runs, or just that the program does not
compile.
-/

namespace Lantern

/-- What a run of a program came to. -/
structure Execution where
  /-- What it printed. -/
  stdout : String
  /-- What it printed as errors. -/
  stderr : String
  /-- Its exit code. -/
  exitCode : Int
  /-- How long it took. -/
  duration : Duration
  /-- Whether it was stopped for taking too long. -/
  timedOut : Bool
  /-- Whether repeated runs differed. -/
  unstable : Bool
  deriving Repr, DecidableEq

/-- A run of a program on one input. -/
structure TestRun where
  /-- The name of the case. -/
  name : String
  /-- The input; empty is none. -/
  input : String
  /-- What it came to. -/
  result : Execution
  deriving Repr, DecidableEq

/-- A program compiled once and run on every case. -/
structure RunResult where
  /-- The path of the executable; empty if there is none. -/
  binaryPath : String
  /-- The run of the compiler. -/
  compile : Execution
  /-- The runs of the program. -/
  runs : List TestRun
  deriving Repr, DecidableEq

/-- What is recorded about a program. -/
structure Golden where
  /-- Whether it does not compile. -/
  compileFails : Bool
  /-- Its runs. -/
  runs : List TestRun
  deriving Repr, DecidableEq

namespace RunResult

/-- Whether the compiler failed. -/
def compileFailed (r : RunResult) : Bool := r.compile.exitCode != 0 || r.compile.timedOut

/-- The record of a result. -/
def golden (r : RunResult) : Golden :=
  if r.compileFailed then ⟨true, []⟩ else ⟨false, r.runs⟩

end RunResult

/-- A case a program is run on. -/
structure TestCase where
  /-- Its name. -/
  name : String
  /-- The input; empty is none. -/
  input : String
  deriving Repr, DecidableEq

namespace TestCase

/-- The line that separates inputs. -/
def divider : String := "\n---\n"

/-- The case of the given number. -/
def numbered (n : Nat) (section_ : String) : TestCase :=
  let digits := toString n
  ⟨"input_" ++ (if digits.length < 2 then "0" ++ digits else digits),
   if section_.toList.getLast? == some '\n' then section_ else section_ ++ "\n"⟩

/-- The cases of a program: one without input, and one for each section of the text beside it. -/
def all (inputs : Option String) : List TestCase :=
  ⟨"no_input", ""⟩ ::
    match inputs with
    | none => []
    | some text => (Text.split divider text).mapIdx fun i s => numbered (i + 1) s

end TestCase

namespace Golden

/-- Where the record of a source is kept: beside it, unless a directory is given. -/
def path (dir source : String) : String :=
  Path.join (if dir.isEmpty then Path.dir source else dir) ("." ++ Path.base source ++ ".json")

/-- The pieces of a text that are not empty. -/
def splitNonEmpty (sep s : String) : List String :=
  (Text.split sep s).filter fun piece => !piece.isEmpty

/-- An output without the lines in which one of the given texts occurs. -/
def filterLines (ignored : List String) (output : String) : String :=
  if ignored.isEmpty || output.isEmpty then output
  else
    "\n".intercalate
      ((Text.lines output).filter fun line => !ignored.any fun sub => Text.contains sub line)

/-- What stands for the path of the executable. -/
def binaryMark : String := "__BINARY__"

/-- An output as compared: without ignored lines, and with a mark for the path of the executable and
    for its name. -/
def normalize (ignored : List String) (binaryPath output : String) : String :=
  let kept := filterLines ignored output
  if binaryPath.isEmpty then kept
  else
    Text.replaceAll (Path.base binaryPath) binaryMark (Text.replaceAll binaryPath binaryMark kept)

end Golden

end Lantern
