import Lantern.Assoc
import Lantern.FileTree
import Lantern.Settings
import Lantern.Text.Quoted
import Lantern.Text.Utf8
import Lantern.Yaml.Tree

/-!
# Project files

Settings kept in a file beside the sources. What is in the file is checked against what each setting
holds; every mismatch is reported, with its line.
-/

namespace Lantern

/-- The settings a project file may hold. -/
structure ProjectFile where
  /-- The target; empty is none. -/
  target : String := ""
  /-- The seed. -/
  seed : Option Int64 := none
  /-- The path of the executable; empty is none. -/
  output : String := ""
  /-- Objects and archives to link with. -/
  runtime : List String := []
  /-- Further arguments of the linker. -/
  linkerArgs : List String := []
  /-- Warnings to switch, by name. -/
  warnings : Assoc Bool := []
  deriving Repr, DecidableEq

namespace ProjectFile

open Yaml (Node Value)

/-- A node that does not fit the setting it is for. -/
structure Misfit where
  /-- Where the node is. -/
  line : Nat
  /-- What is wrong. -/
  text : String
  deriving Repr, DecidableEq

/-- A misfit as shown. -/
def Misfit.message (m : Misfit) : String := "line " ++ toString m.line ++ ": " ++ m.text

/-- What is known about a document while it is read. -/
structure Tally where
  /-- The misfits so far. -/
  misfits : List Misfit := []
  /-- How many nodes have been read, over and over if they are named over and over. -/
  nodes : Nat := 0
  /-- How many of them have been read under another name. -/
  named : Nat := 0
  /-- How many names lead to the node that is being read. -/
  depth : Nat := 0
  deriving Repr, DecidableEq

/-- Whether so much of a document comes from names that it is not worth reading on. Up to 400,000
    nodes all but one in a hundred may; the share then goes down evenly to one in ten at 4,000,000. -/
def Tally.isExcessive (t : Tally) : Bool :=
  let beyond := min t.nodes 4000000 - 400000
  100 < t.named && 1000 < t.nodes &&
    t.nodes * (99 * 3600000 - 89 * beyond) < t.named * 100 * 3600000

/-- Collects misfits; a fault ends the reading at once. -/
abbrev Reading := StateT Tally (Except Yaml.Fault)

/-- Notes misfits. -/
def note (ms : List Misfit) : Reading Unit := modify fun t => { t with misfits := t.misfits ++ ms }

/-- Counts a node. -/
def visit : Reading Unit := do
  let t ← get
  let t := { t with nodes := t.nodes + 1, named := if t.depth == 0 then t.named else t.named + 1 }
  if t.isExcessive then throw ⟨0, .excessiveAliasing⟩
  set t

/-- Counts a name and reads the node behind it. -/
def byName {α : Type} (r : Reading α) : Reading α := do
  visit
  modify fun t => { t with depth := t.depth + 1 }
  let a ← r
  modify fun t => { t with depth := t.depth - 1 }
  return a

/-- The start of a scalar as shown in messages: seven of more than ten bytes. -/
def excerpt (text : String) : String :=
  if 10 < Text.byteLength text then Text.decodeUtf8 ((Text.utf8Bytes text).take 7) ++ "..." else text

/-- The misfit of a node where a value of the given type belongs. The text of a node with the tag of
    lists or maps is shown without quotes. -/
def misfit (n : Node) (type : String) : Misfit :=
  let what :=
    if n.tag == Node.seqTag || n.tag == Node.mapTag then n.tag ++ n.text
    else n.tag ++ " " ++ "`" ++ excerpt n.text ++ "`"
  ⟨n.line, "cannot unmarshal " ++ what ++ " into " ++ type⟩

/-- The misfits of keys that are given more than once. -/
def repeated : List Node → List Misfit
  | [] => []
  | k :: ks =>
    ((ks.filter k.sameKey).map fun again =>
      ⟨again.line, "mapping key " ++ Text.quoted again.text ++
        " already defined at line " ++ toString k.line⟩) ++ repeated ks

/-- Whether the keys of a map differ; those that do not are noted. -/
def keysDiffer (es : List (Node × Node)) : Reading Bool := do
  match repeated (es.map Prod.fst) with
  | [] => return true
  | ms =>
    note ms
    return false

/-- Notes that a node is not of the given type. Keys given more than once count first. -/
def refuse {α : Type} (n : Node) (type : String) (instead : α) : Reading α := do
  match n with
  | .map _ _ es => if ← keysDiffer es then note [misfit n type]
  | _ => note [misfit n type]
  return instead

/-- Whether a node is null. -/
def isNull (n : Node) : Bool := n.tag == Value.nullTag

/-- The value of a scalar by `take`, which gives none for a value of another type; null is none. -/
def readScalar? {α : Type} (type : String) (take : String → Value → Option α) :
    Node → Reading (Option α)
  | .alias_ _ _ target _ => byName (readScalar? type take target)
  | .scalar line tag text => do
    visit
    match ← Value.ofTagged tag text with
    | .null => return none
    | v =>
      match take text v with
      | some a => return some a
      | none => refuse (.scalar line tag text) type none
  | n => do
    visit
    refuse n type none

/-- A text; whatever a scalar without quotes stands for, its text counts. Null is none. -/
def readText? : Node → Reading (Option String) :=
  readScalar? "string" fun text v => match v with
    | .str s => some s
    | _ => some text

/-- The integer of 64 bits for a number with a fraction, which is cut off. What lies below all
    integers, or next above them, becomes the least. -/
def integerOf? : Yaml.Fractional → Option Int64
  | .nan | .infinite false => none
  | .infinite true => some Int64.minValue
  | .finite n =>
    if Text.Numeral.signedLimit < n then none
    else if Int64.minValue.toInt ≤ n && n ≤ Int64.maxValue.toInt then some (Int64.ofInt n)
    else some Int64.minValue

/-- The seed that a value stands for. -/
def seedOf? : Value → Option Int64
  | .int n => if n < Text.Numeral.signedLimit then some (Int64.ofInt n) else none
  | .float x => integerOf? x
  | _ => none

/-- An integer of 64 bits; null is none. A list or map with the tag of null is said to stand where an
    optional integer belongs. -/
def readSeed? (n : Node) : Reading (Option Int64) :=
  readScalar? (if isNull n then "*int64" else "int64") (fun _ v => seedOf? v) n

/-- The words that count as true where a truth value belongs. -/
def trueWords : List String := ["y", "Y", "yes", "Yes", "YES", "on", "On", "ON"]

/-- The words that count as false where a truth value belongs. -/
def falseWords : List String := ["n", "N", "no", "No", "NO", "off", "Off", "OFF"]

/-- A truth value; null is none. -/
def readBool? : Node → Reading (Option Bool) :=
  readScalar? "bool" fun _ v => match v with
    | .bool b => some b
    | .str s =>
      if trueWords.contains s then some true
      else if falseWords.contains s then some false
      else none
    | _ => none

/-- A list of texts; null is the empty list, and a null item is left out. -/
def readTexts : Node → Reading (List String)
  | .alias_ _ _ target _ => byName (readTexts target)
  | .seq _ _ items => do
    visit
    return (← items.mapM readText?).filterMap id
  | n => return (← readScalar? "[]string" (fun _ _ => none) n).getD []

/-- Whether a key is the sign that takes over the entries of other maps. -/
def isMerge : Node → Bool
  | .scalar _ tag text => text == Value.mergeSign && tag == Value.mergeTag
  | _ => false

/-- What a map takes entries over from: the value behind the last sign for it. -/
def mergeSource? (es : List (Node × Node)) : Option Node :=
  ((es.filter fun e => isMerge e.1).getLast?).map Prod.snd

/-- What the value behind that sign gives to take entries over from: itself, or the items of a list. -/
def mergeParts : Node → List Node
  | .seq _ _ items => items
  | n => [n]

/-- Reads the entries of a map by `content`; something else is at fault. -/
def withMap {α : Type} (n : Node) (content : List (Node × Node) → Reading α) : Reading α :=
  match n with
  | .map _ _ es => do
    visit
    content es
  | .alias_ _ name (.map _ _ es) isInside => byName do
    visit
    if isInside then throw ⟨0, .selfReference name⟩
    content es
  | _ => throw ⟨0, .mergeWithoutMap⟩

/-- Counts a key. -/
def visitKey : Node → Reading Unit
  | .alias_ _ _ target _ => byName (visitKey target)
  | _ => visit

/-- The text a key is told by when entries are taken over, unless it is of another type. -/
def keyText? : Node → Option String
  | .scalar _ tag text =>
    match Value.ofTagged tag text with
    | .ok (.str s) => some s
    | _ => none
  | .alias_ _ _ target _ => keyText? target
  | _ => none

/-- An entry of a map with its key read. -/
structure Entry where
  /-- The line of the key. -/
  line : Nat
  /-- The key. -/
  name : String
  /-- The value. -/
  value : Node
  /-- Whether the map is one that another map takes entries over from. -/
  isTaken : Bool
  /-- Whether the map has an entry of the same name before this one. -/
  isAgain : Bool

/-- Reads entries by `entry`, those left out whose name is among `taken`. The names before them in
    the same map are given. -/
def readOwn {α : Type} (entry : α → Entry → Reading α) :
    Option (List String) → List String → α → List (Node × Node) →
      Reading (α × Option (List String))
  | taken, _, a, [] => return (a, taken)
  | taken, before, a, (key, value) :: es => do
    match ← readText? key with
    | none => readOwn entry taken before a es
    | some name =>
      if (taken.getD []).contains name then readOwn entry taken before a es
      else
        let a ← entry a ⟨key.line, name, value, taken.isSome, before.contains name⟩
        readOwn entry (taken.map (name :: ·)) (name :: before) a es

/-- Reads the entries of a map by `entry`, and then those of the maps it takes entries over from. An
    entry that is taken over gives way to those before it: `taken` holds the keys that count no more,
    or nothing in a map that is not taken over itself. The first argument bounds the depth. -/
def readEntries {α : Type} (entry : α → Entry → Reading α) :
    Nat → Option (List String) → α → List (Node × Node) → Reading (α × Option (List String))
  | 0, taken, a, _ => return (a, taken)
  | fuel + 1, taken, a, es => do
    if !(← keysDiffer es) then return (a, taken)
    let (a, taken) ← readOwn entry taken [] a (es.filter fun e => !isMerge e.1)
    match mergeSource? es with
    | none => return (a, taken)
    | some source =>
      if taken.isNone then es.forM fun e => visitKey e.1
      let names := taken.getD (es.filterMap fun e => keyText? e.1)
      let (a, names) ← (mergeParts source).foldlM (fun (a, names) part =>
        withMap part (readEntries entry fuel names a)) (a, some names)
      return (a, taken.bind fun _ => names)

/-- How deeply maps may take over entries from one another. -/
def mergeDepth : Nat := 10000

/-- Reads an entry of the warnings; null switches a warning off that is not given yet. -/
def readWarning (ws : Assoc Bool) (e : Entry) : Reading (Assoc Bool) := do
  match ← readBool? e.value with
  | some on => return ws.put e.name on
  | none =>
    let counts := isNull e.value && (!e.isTaken || !ws.has e.name)
    return if counts then ws.put e.name false else ws

/-- Warnings by name. -/
def readWarnings : Node → Reading (Assoc Bool)
  | .alias_ line name (.map inner tag es) isInside =>
    withMap (.alias_ line name (.map inner tag es) isInside) fun es => do
      return (← readEntries readWarning mergeDepth none [] es).1
  | .map line tag es =>
    withMap (.map line tag es) fun es => do
      return (← readEntries readWarning mergeDepth none [] es).1
  | n => return (← readScalar? "map[string]bool" (fun _ _ => none) n).getD []

/-- The names of the settings. -/
def settingNames : List String :=
  ["target", "seed", "output", "runtime", "linker_args", "warnings"]

/-- Reads one setting; what is not known is passed over. -/
def readSetting (f : ProjectFile) (e : Entry) : Reading ProjectFile := do
  if e.isAgain && settingNames.contains e.name then
    note [⟨e.line, "field " ++ e.name ++ " already set in type config.ProjectFile"⟩]
    return f
  match e.name with
  | "target" => return { f with target := (← readText? e.value).getD f.target }
  | "seed" => return { f with seed := ← readSeed? e.value }
  | "output" => return { f with output := (← readText? e.value).getD f.output }
  | "runtime" => return { f with runtime := ← readTexts e.value }
  | "linker_args" => return { f with linkerArgs := ← readTexts e.value }
  | "warnings" => return { f with warnings := ← readWarnings e.value }
  | _ => return f

/-- Reads a whole document, which counts as a node itself. -/
def readDocument (root : Node) : Reading ProjectFile := do
  visit
  match root with
  | .map .. =>
    withMap root fun es => return (← readEntries readSetting mergeDepth none {} es).1
  | n => return (← readScalar? "config.ProjectFile" (fun _ _ => none) n).getD {}

/-- Why a project file cannot be used. -/
inductive Fault where
  /-- It cannot be read. -/
  | unreadable (why : FileError)
  /-- It is no document. -/
  | malformed (path : String) (why : Yaml.Fault)
  /-- Some of it does not fit. -/
  | misfits (path : String) (ms : List Misfit)
  deriving Repr, DecidableEq

/-- What is said about a project file that cannot be used. -/
def Fault.message : Fault → String
  | unreadable why => "failed to read project file: " ++ why.message
  | malformed path why => "failed to parse project file " ++ path ++ ": " ++ why.message
  | misfits path ms =>
    "failed to parse project file " ++ path ++ ": yaml: unmarshal errors:" ++
      String.join (ms.map fun m => "\n  " ++ m.message)

/-- The settings of a document. -/
def ofBytes (path : String) (bytes : List UInt8) : Except Fault ProjectFile := do
  let reading : Reading ProjectFile := do
    match ← Yaml.read bytes with
    | some n => readDocument n
    | none => return {}
  match reading.run {} with
  | .error why => throw (.malformed path why)
  | .ok (f, t) => if t.misfits.isEmpty then return f else throw (.misfits path t.misfits)

/-- The settings of the project file at a path. -/
def load (t : FileTree) (path : String) : Except Fault ProjectFile :=
  match t.readBytes path with
  | .error e => .error (.unreadable e)
  | .ok bytes => ofBytes path bytes

/-- Switches warnings by name, up to the first name that is no warning's. -/
def switchWarnings (s : Settings) : Assoc Bool → Settings × Option String
  | [] => (s, none)
  | (name, on) :: rest =>
    match Warning.ofName? name with
    | none => (s, some name)
    | some w => switchWarnings (s.setWarning w on) rest

/-- Takes the settings of a project file over and returns the target it asks for. The warnings are
    switched in the order of their names. -/
def apply (f : ProjectFile) (s : Settings) : Settings × Except String String :=
  let s := { s with
    seed := f.seed.getD s.seed
    output := if f.output.isEmpty then s.output else f.output
    runtimeLibs := s.runtimeLibs ++ f.runtime
    linkerArgs := s.linkerArgs ++ f.linkerArgs }
  match switchWarnings s (f.warnings.mergeSort fun a b => a.1 ≤ b.1) with
  | (s, none) => (s, .ok f.target)
  | (s, some name) => (s, .error ("project file: " ++ Settings.unknownWarning name))

end ProjectFile

end Lantern
