import Lantern.Golden

/-!
# Comparing runs

Every recorded run is compared with the run of the same name. Runs that were not recorded are not
looked at.
-/

namespace Lantern

/-- What became of testing a source. -/
inductive Status where
  /-- Everything is as recorded. -/
  | pass
  /-- Something differs. -/
  | fail
  /-- There was nothing to compare. -/
  | skip
  /-- The comparison itself failed. -/
  | error
  /-- Anything else a report may hold. -/
  | other (name : String)
  deriving Repr, DecidableEq, BEq

namespace Status

/-- The name of a status. -/
def name : Status → String
  | pass => "PASS"
  | fail => "FAIL"
  | skip => "SKIP"
  | error => "ERROR"
  | other name => name

/-- The status of a given name. -/
def ofName (name : String) : Status :=
  match name with
  | "PASS" => pass
  | "FAIL" => fail
  | "SKIP" => skip
  | "ERROR" => error
  | name => other name

/-- Whether the status spoils a test run. -/
def isFailure : Status → Bool
  | fail | error => true
  | _ => false

end Status

/-- The result of testing a source. -/
structure FileResult where
  /-- The source. -/
  file : String
  /-- What became of it. -/
  status : Status
  /-- What there is to say. -/
  message : String
  /-- What differs. -/
  diff : String
  /-- The runs, if there were any. -/
  result : Option RunResult
  deriving Repr, DecidableEq

namespace Golden

/-- An output stream. -/
inductive Stream where
  | stdout | stderr
  deriving Repr, DecidableEq

/-- The name of a stream. -/
def Stream.name : Stream → String
  | stdout => "STDOUT"
  | stderr => "STDERR"

/-- A way in which a run differs from its record. -/
inductive Mismatch where
  /-- There is no such run. -/
  | missing (run : String)
  /-- Only one of them is stable. -/
  | stability (run : String) (want got : Bool)
  /-- The exit codes differ. -/
  | exitCode (run : String) (want got : Int)
  /-- The outputs differ. -/
  | output (run : String) (stream : Stream) (want got : String)
  deriving Repr, DecidableEq

namespace Mismatch

/-- The two sides of a difference. -/
def sides (want got : String) : String := "  - Golden: " ++ want ++ "\n  - Got:    " ++ got ++ "\n"

/-- The lines of an output behind a sign. -/
def signed (sign output : String) : String :=
  String.join ((Text.lines output).map fun line => sign ++ "\t" ++ line ++ "\n")

/-- Two outputs below each other; nothing if they are the same. -/
def outputs (want got : String) : String :=
  if want == got then "" else signed "-" want ++ signed "+" got

/-- A truth value as shown. -/
def showBool (b : Bool) : String := if b then "true" else "false"

/-- A difference as shown. -/
def text : Mismatch → String
  | missing run => "Test run '" ++ run ++ "' missing from results.\n"
  | stability run want got =>
    "Run '" ++ run ++ "' output stability mismatch:\n" ++ sides (showBool want) (showBool got)
  | exitCode run want got =>
    "Run '" ++ run ++ "' exit code mismatch:\n" ++ sides (toString want) (toString got)
  | output run stream want got =>
    "Run '" ++ run ++ "' " ++ stream.name ++ " mismatch:\n" ++ outputs want got

end Mismatch

/-- How a run differs from its record. The executable of the run leaves its mark in the outputs of
    the run only: the record holds the mark already. -/
def differences (ignored : List String) (binaryPath name : String) (want got : Execution) :
    List Mismatch :=
  let differs (want got : String) : Bool :=
    normalize ignored "" want != normalize ignored binaryPath got
  (if want.unstable != got.unstable then [.stability name want.unstable got.unstable] else []) ++
  (if want.exitCode != got.exitCode then [.exitCode name want.exitCode got.exitCode] else []) ++
  (if differs want.stdout got.stdout then [.output name .stdout want.stdout got.stdout] else []) ++
  (if differs want.stderr got.stderr then [.output name .stderr want.stderr got.stderr] else [])

/-- The run of a given name; of several, the last. -/
def runNamed? (runs : List TestRun) (name : String) : Option TestRun :=
  runs.reverse.find? (·.name == name)

/-- How a result differs from the record. -/
def mismatches (g : Golden) (got : RunResult) (ignored : List String) : List Mismatch :=
  g.runs.flatMap fun want =>
    match runNamed? got.runs want.name with
    | none => [.missing want.name]
    | some have_ => differences ignored got.binaryPath want.name want.result have_.result

/-- Compares a result that compiled with the record. -/
def compare (file : String) (g : Golden) (got : RunResult) (ignored : List String) : FileResult :=
  if g.compileFails then
    ⟨file, .fail, "Compilation succeeded, but the golden file expected failure", "", some got⟩
  else
    match mismatches g got ignored with
    | [] => ⟨file, .pass, "All test cases passed", "", some got⟩
    | ms =>
      ⟨file, .fail, "Runtime output or exit code mismatch", String.join (ms.map Mismatch.text),
       some got⟩

end Golden

end Lantern
