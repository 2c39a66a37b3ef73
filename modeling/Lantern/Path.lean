import Lantern.Text.Blank

/-!
# Paths

Paths as texts with slashes: the parts between the slashes, and the forms that need no look at the
files themselves.
-/

namespace Lantern.Path

/-- The parts between the slashes, empty ones included. -/
def parts (path : String) : List String :=
  (Text.piecesFrom (· == '/') [] path.toList).map String.ofList

/-- Whether a path starts at the root. -/
def isRooted (path : String) : Bool := Text.startsWith "/" path

/-- Takes one part into a path being cleaned, its latest part first: empty parts and `.` are dropped,
    and `..` takes the part before it away. Nothing is above the root. -/
def settle (rooted : Bool) (done : List String) (part : String) : List String :=
  if part.isEmpty || part == "." then done
  else if part == ".." then
    match done with
    | [] => if rooted then [] else [".."]
    | top :: below => if top == ".." then ".." :: done else below
  else part :: done

/-- The shortest form of a path. -/
def clean (path : String) : String :=
  let rooted := isRooted path
  let body := "/".intercalate ((parts path).foldl (settle rooted) []).reverse
  if rooted then "/" ++ body else if body.isEmpty then "." else body

/-- The last part of a path. -/
def base (path : String) : String :=
  if path.isEmpty then "."
  else
    match (parts path).reverse.dropWhile String.isEmpty with
    | [] => "/"
    | last :: _ => last

/-- The path without its last part, in its shortest form. -/
def dir (path : String) : String :=
  match (parts path).dropLast with
  | [] => "."
  | ps => clean ("/".intercalate ps ++ "/")

/-- Two paths in a row, in the shortest form. -/
def join (first second : String) : String :=
  if first.isEmpty then (if second.isEmpty then "" else clean second)
  else clean (first ++ "/" ++ second)

/-- The ending of the last part from its last point on; empty if there is no point. -/
def ext (path : String) : String :=
  let name := ((parts path).getLastD "").toList.reverse
  if name.contains '.' then String.ofList ('.' :: (name.takeWhile (· != '.')).reverse) else ""

/-- The last part of a path without its ending. -/
def stem (path : String) : String := Text.dropEnding (ext (base path)) (base path)

end Lantern.Path
