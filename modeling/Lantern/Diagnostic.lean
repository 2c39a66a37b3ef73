import Lantern.Span
import Lantern.Text.Blank
import Lantern.Warning

/-!
# Diagnostics

What a compilation tells its user about the source: warnings, which it survives, and the one error
that ends it. A diagnostic is a value; how it is shown depends on the sources known when it is
shown and on the warnings switched on.
-/

namespace Lantern

/-- A source file by name and content. -/
structure Source where
  /-- The name diagnostics show. -/
  name : String
  /-- The text. -/
  content : String
  deriving Repr, DecidableEq, BEq

/-- How grave a diagnostic is. -/
inductive Severity where
  /-- The compilation ends. -/
  | error
  /-- The compilation goes on. -/
  | warning (kind : Warning)
  deriving Repr, DecidableEq, BEq

/-- One remark about a place in the source. -/
structure Diagnostic where
  /-- How grave it is. -/
  severity : Severity
  /-- The place it is about. -/
  span : Span
  /-- What it says. -/
  message : String
  deriving Repr, DecidableEq, BEq

namespace Diagnostic

/-- The source a span belongs to. -/
def sourceOf? (sources : List Source) (s : Span) : Option Source :=
  if s.file < 0 then none else sources[s.file.toNat]?

/-- The text of the line a span starts on, without its line ending. -/
def sourceLine? (sources : List Source) (s : Span) : Option String :=
  match sourceOf? sources s with
  | none => none
  | some src =>
    if s.line < 1 then none
    else ((Text.lines src.content)[(s.line - 1).toNat]?).map (Text.dropEnding "\r")

/-- The escape sequence that starts a colour. -/
def colour (code : String) : String := "\x1b[" ++ code ++ "m"

/-- The label of a severity, its colour, and what is put behind the message. -/
def decoration : Severity → String × String × String
  | .error => ("error", "31", "")
  | .warning w => ("warning", "33", " [-W" ++ w.name ++ "]")

/-- The diagnostic as shown: place, label and message on one line, then, when the source is known,
    the line itself with a caret under the span. -/
def render (sources : List Source) (d : Diagnostic) : String :=
  let (label, code, tail) := decoration d.severity
  let name := ((sourceOf? sources d.span).map Source.name).getD "<input>"
  let head := name ++ ":" ++ toString d.span.line ++ ":" ++ toString d.span.column ++ ": " ++
    colour code ++ label ++ ":" ++ colour "0" ++ " " ++ d.message ++ tail ++ "\n"
  match sourceLine? sources d.span with
  | none => head
  | some line =>
    head ++ "  " ++ line ++ "\n  " ++ Text.repeated (d.span.column - 1).toNat ' ' ++ colour "32" ++
      "^" ++ Text.repeated (d.span.length - 1).toNat '~' ++ colour "0" ++ "\n"

/-- Whether a diagnostic is shown while the warnings `ws` are on. Errors always are. -/
def isShown (ws : WarningSet) (d : Diagnostic) : Bool :=
  match d.severity with
  | .error => true
  | .warning w => ws.contains w

/-- Everything a list of diagnostics shows, in order. -/
def renderAll (ws : WarningSet) (sources : List Source) (ds : List Diagnostic) : String :=
  String.join ((ds.filter (isShown ws)).map (render sources))

end Diagnostic

/-- A computation that may warn on its way and stops at its first error. The warnings given before
    an error stay. -/
abbrev Checked := ExceptT Diagnostic (StateM (Array Diagnostic))

namespace Checked

/-- Gives a warning. -/
def warn (kind : Warning) (at_ : Span) (message : String) : Checked Unit :=
  modify (·.push ⟨.warning kind, at_, message⟩)

/-- Stops with an error. -/
def fail {α : Type} (at_ : Span) (message : String) : Checked α :=
  throw ⟨.error, at_, message⟩

/-- The outcome of a whole computation: its result, unless it stopped, and every diagnostic it gave,
    the error last. -/
def outcome {α : Type} (x : Checked α) : Option α × List Diagnostic :=
  match StateT.run (ExceptT.run x) #[] with
  | (.ok a, log) => (some a, log.toList)
  | (.error d, log) => (none, (log.push d).toList)

end Checked

end Lantern
