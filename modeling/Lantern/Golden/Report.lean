import Lantern.Assoc
import Lantern.Diagnostic
import Lantern.Golden.Compare

/-!
# Test reports

The summary of a test run: what became of each source, what differs where a test failed, the time
taken if one wants to know, and the counts.
-/

namespace Lantern.Golden

/-- The colour of bad news. -/
def red : String := Diagnostic.colour "91"
/-- The colour of good news. -/
def green : String := Diagnostic.colour "92"
/-- The colour of what was left out. -/
def yellow : String := Diagnostic.colour "93"
/-- The colour of names. -/
def cyan : String := Diagnostic.colour "96"
/-- The style of headings. -/
def bold : String := Diagnostic.colour "1"
/-- The end of a colour. -/
def plain : String := Diagnostic.colour "0"

/-- The line between sources. -/
def rule : String := Text.repeated 70 '-'

/-- What differs, indented, with lost lines and new lines in their colours. -/
def formatDiff (diff : String) : String :=
  if diff.isEmpty then ""
  else
    "    --- Diff ---\n" ++ String.join ((Text.lines diff).map fun line =>
      let kept := Text.trim line
      (if Text.startsWith "-" kept then red else if Text.startsWith "+" kept then green else "") ++
        "    " ++ line ++ plain ++ "\n")

/-- The colour of a status. -/
def statusColour : Status → String
  | .fail | .error => red
  | .skip => yellow
  | _ => green

/-- The time the runs of a program took. -/
def runTime (r : RunResult) : Duration :=
  r.runs.foldl (fun d t => d.add t.result.duration) Duration.zero

/-- The time of each case, and of compiling and running. -/
def timings (r : RunResult) : String :=
  String.join (r.runs.map fun t =>
    "    " ++ Text.padEnd 12 t.name ++ " " ++ t.result.duration.brief ++ "\n") ++
    "    [compile: " ++ r.compile.duration.brief ++ " | run: " ++ (runTime r).brief ++ "]\n"

/-- The part of the summary about one source. -/
def sourceText (verbose : Bool) (r : FileResult) : String :=
  rule ++ "\nTesting " ++ cyan ++ r.file ++ plain ++ "...\n" ++
    "  [" ++ statusColour r.status ++ r.status.name ++ plain ++ "] " ++ r.message ++ "\n" ++
    (if r.status == .fail then formatDiff r.diff ++ "\n" else "") ++
    (match r.result with
    | some result => if verbose then timings result else ""
    | none => "")

/-- How many results have a status. -/
def count (rs : List FileResult) (s : Status) : String :=
  toString (rs.countP fun r => r.status == s)

/-- The line of counts. -/
def countsText (rs : List FileResult) : String :=
  bold ++ "Test Summary:" ++ plain ++ " " ++
    green ++ count rs .pass ++ " Passed" ++ plain ++ ", " ++
    red ++ count rs .fail ++ " Failed" ++ plain ++ ", " ++
    yellow ++ count rs .skip ++ " Skipped" ++ plain ++ ", " ++
    red ++ count rs .error ++ " Errored" ++ plain ++ ", " ++
    toString rs.length ++ " Total\n"

/-- The line of total times; nothing if nothing was compiled. -/
def totalsText (rs : List FileResult) : String :=
  let results := rs.filterMap FileResult.result
  let compile := results.foldl (fun d r => d.add r.compile.duration) Duration.zero
  let run := results.foldl (fun d r => d.add (runTime r)) Duration.zero
  if 0 < compile.nanos then
    "Total compile time " ++ (compile.round 1000000).shown ++ ", total run time " ++
      (run.round 1000).shown ++ ".\n"
  else ""

/-- The summary of a test run. -/
def summary (rs : List FileResult) (verbose : Bool) : String :=
  String.join (rs.map (sourceText verbose)) ++ rule ++ "\n" ++ countsText rs ++ totalsText rs

/-- The results by source; of several for one source, the last. -/
def report (rs : List FileResult) : Assoc FileResult :=
  rs.foldl (fun report r => report.put r.file r) []

/-- Whether a test run has failures. -/
def hasFailures (report : Assoc FileResult) : Bool := report.any fun (_, r) => r.status.isFailure

end Lantern.Golden
