import Lantern.Yaml.Node
import Lantern.Yaml.TokenStream
import Lantern.Yaml.Value

/-!
# From tokens to nodes

Only the first document of a text is read. Tokens are read as they are needed and a few ahead, so a
fault in the text counts as soon as it is within that reach, and not at all behind the document.
-/

namespace Lantern.Yaml

/-- A node that has been given a name. -/
structure Anchor where
  /-- The name. -/
  name : String
  /-- The node as far as it is known. -/
  node : Node
  /-- Whether the node is still being read. -/
  isOpen : Bool
  deriving Inhabited

/-- What is left to read and what has been said about names. -/
structure TreeReader where
  /-- The tokens. -/
  stream : TokenStream
  /-- What the handles of tags stand for. -/
  handles : List (String × String) := []
  /-- The nodes that have been given names, in this order. -/
  anchors : List Anchor := []

namespace TreeReader

/-- Reads tokens, with a fault where they do not fit. -/
abbrev Read := StateT TreeReader (Except Fault)

/-- The next token. -/
def peek : Read Token := do
  let s ← get
  let stream ← s.stream.settle
  set { s with stream }
  return stream.head

/-- Passes over the next token. -/
def advance : Read Unit := modify fun s => { s with stream := s.stream.pass }

/-- A scalar that is not written, at a place. -/
def emptyAt (m : Mark) : Node := .scalar (m.line + 1) Value.nullTag ""

/-- What is said about a node before it. -/
structure Properties where
  /-- Where the node starts. -/
  mark : Mark
  /-- Its name. -/
  anchor : Option String := none
  /-- Its tag; empty is none. -/
  tag : String := ""

/-- The tag that a handle and what is behind it stand for. -/
def resolveTag (start here : Mark) (handle suffix : String) : Read String := do
  if handle == "" then return suffix
  let tag := match (← get).handles.lookup handle with
    | some meaning => meaning ++ suffix
    | none => ""
  if tag == "" then throw (.nesting start here .undefinedHandle)
  return tag

/-- Reads an anchor, if there is one. -/
def readAnchor (p : Properties) : Read Properties := do
  match ← peek with
  | ⟨.anchor name, _⟩ =>
    advance
    return { p with anchor := some name }
  | _ => return p

/-- Reads what is said about a node: an anchor and a tag in any order, each optional. A tag is told to
    be undefined only when both have been read. -/
def readProperties : Read Properties := do
  let start := (← peek).mark
  let before ← readAnchor ⟨start, none, ""⟩
  match ← peek with
  | ⟨.tag handle suffix, mark⟩ =>
    advance
    let p ← if before.anchor.isNone then readAnchor before else pure before
    let _ ← peek
    return { p with tag := ← resolveTag start mark handle suffix }
  | _ => return before

/-- The tag of a node: the one it is given, unless that is a lone mark, or else the one it shows. -/
def Properties.tagOr (p : Properties) (shown : String) : String :=
  if p.tag == "" || p.tag == "!" then shown else Node.shortTag p.tag

/-- The tag that a scalar shows. -/
def shownTag (text : String) (plain : Bool) : String :=
  if !plain then Value.strTag
  else if text == Value.mergeSign then Value.mergeTag
  else (Value.ofText true text).tag

/-- Gives a complete node its name. -/
def nameNode (p : Properties) (n : Node) : Read Node := do
  if let some name := p.anchor then
    modify fun s => { s with anchors := s.anchors ++ [⟨name, n, false⟩] }
  return n

/-- Reads the content of a list or map by `content`, its name being known inside of it. -/
def nameWhile (p : Properties) (outline : Node) (content : Read Node) : Read Node := do
  match p.anchor with
  | none => content
  | some name =>
    let at_ := (← get).anchors.length
    modify fun s => { s with anchors := s.anchors ++ [⟨name, outline, true⟩] }
    let n ← content
    modify fun s => { s with anchors := s.anchors.set at_ ⟨name, n, false⟩ }
    return n

/-- The node an alias stands for: the latest one of that name. -/
def readAlias (mark : Mark) (name : String) : Read Node := do
  match ((← get).anchors.filter (·.name == name)).getLast? with
  | some a => return .alias_ (mark.line + 1) name a.node a.isOpen
  | none => throw ⟨0, .unknownAnchor name⟩

/-- A node without content, which must have a name or a tag. -/
def missing (p : Properties) (t : Token) : Read Node := do
  if p.anchor.isSome || p.tag != "" then
    nameNode p (.scalar (p.mark.line + 1) (p.tagOr Value.nullTag) "")
  else throw (.nesting p.mark t.mark .missingNode)

mutual

/-- Reads a node. Lists and maps by indentation are read only if `block`, and a list that is not
    indented only if `flat`. The first argument bounds the depth. -/
def readNode : Nat → (block flat : Bool) → Read Node
  | 0, _, _ => do throw (.nesting {} (← peek).mark .missingNode)
  | fuel + 1, block, flat => do
    match ← peek with
    | ⟨.alias_ name, mark⟩ =>
      let n ← readAlias mark name
      advance
      return n
    | _ =>
      let p ← readProperties
      let t ← peek
      let line := p.mark.line + 1
      let seqTag := p.tagOr Node.seqTag
      let mapTag := p.tagOr Node.mapTag
      let list (items : Read (List Node)) : Read Node :=
        nameWhile p (.seq line seqTag []) do return .seq line seqTag (← items)
      let entries (es : Read (List (Node × Node))) : Read Node :=
        nameWhile p (.map line mapTag []) do return .map line mapTag (← es)
      match t.kind with
      | .dash => if flat then list (readFlat fuel []) else missing p t
      | .scalar text plain =>
        advance
        nameNode p (.scalar line (p.tagOr (shownTag text plain)) text)
      | .openBracket =>
        advance
        list (readBrackets fuel t.mark true [])
      | .openBrace =>
        advance
        entries (readBraces fuel t.mark true [])
      | .seqStart =>
        if block then
          advance
          list (readDashes fuel t.mark [])
        else missing p t
      | .mapStart =>
        if block then
          advance
          entries (readEntries fuel t.mark [])
        else missing p t
      | _ => missing p t

/-- Reads a list with dashes that starts at `start`, the items so far given latest first. -/
def readDashes : Nat → Mark → List Node → Read (List Node)
  | 0, start, _ => do throw (.nesting start (← peek).mark .missingDash)
  | fuel + 1, start, done => do
    let t ← peek
    match t.kind with
    | .dash =>
      advance
      match (← peek).kind with
      | .dash | .blockEnd => readDashes fuel start (emptyAt t.mark :: done)
      | _ => readDashes fuel start ((← readNode fuel true false) :: done)
    | .blockEnd =>
      advance
      return done.reverse
    | _ => throw (.nesting start t.mark .missingDash)

/-- Reads a list with dashes that is not indented, the items so far given latest first. -/
def readFlat : Nat → List Node → Read (List Node)
  | 0, done => return done.reverse
  | fuel + 1, done => do
    let t ← peek
    match t.kind with
    | .dash =>
      advance
      match (← peek).kind with
      | .dash | .key | .value | .blockEnd => readFlat fuel (emptyAt t.mark :: done)
      | _ => readFlat fuel ((← readNode fuel true false) :: done)
    | _ => return done.reverse

/-- Reads a map by indentation that starts at `start`, the entries so far given latest first. -/
def readEntries : Nat → Mark → List (Node × Node) → Read (List (Node × Node))
  | 0, start, _ => do throw (.nesting start (← peek).mark .missingKey)
  | fuel + 1, start, done => do
    let t ← peek
    match t.kind with
    | .key =>
      advance
      let key ← match (← peek).kind with
        | .key | .value | .blockEnd => pure (emptyAt t.mark)
        | _ => readNode fuel true true
      let value ← readValue fuel
      readEntries fuel start ((key, value) :: done)
    | .blockEnd =>
      advance
      return done.reverse
    | _ => throw (.nesting start t.mark .missingKey)

/-- Reads the value behind a key by indentation. -/
def readValue : Nat → Read Node
  | 0 => do throw (.nesting {} (← peek).mark .missingKey)
  | fuel + 1 => do
    let t ← peek
    match t.kind with
    | .value =>
      advance
      match (← peek).kind with
      | .key | .value | .blockEnd => return emptyAt t.mark
      | _ => readNode fuel true true
    | _ => return emptyAt t.mark

/-- Reads a list in brackets that starts at `start`, the items so far given latest first. -/
def readBrackets : Nat → Mark → (first : Bool) → List Node → Read (List Node)
  | 0, start, _, _ => do throw (.nesting start (← peek).mark .missingCommaOrBracket)
  | fuel + 1, start, first, done => do
    let t ← peek
    match t.kind, first with
    | .closeBracket, _ =>
      advance
      return done.reverse
    | .comma, false =>
      advance
      readItem fuel start done
    | _, true => readItem fuel start done
    | _, false => throw (.nesting start t.mark .missingCommaOrBracket)

/-- Reads an item of a list in brackets, or the end of the list. -/
def readItem : Nat → Mark → List Node → Read (List Node)
  | 0, start, _ => do throw (.nesting start (← peek).mark .missingCommaOrBracket)
  | fuel + 1, start, done => do
    let t ← peek
    match t.kind with
    | .key =>
      advance
      let entry ← readPair fuel
      readBrackets fuel start false (.map (t.mark.line + 1) Node.mapTag [entry] :: done)
    | .closeBracket =>
      advance
      return done.reverse
    | _ => readBrackets fuel start false ((← readNode fuel false false) :: done)

/-- Reads a key and its value that stand in a list in brackets. -/
def readPair : Nat → Read (Node × Node)
  | 0 => do throw (.nesting {} (← peek).mark .missingNode)
  | fuel + 1 => do
    let t ← peek
    let key ← match t.kind with
      | .value | .comma | .closeBracket => do
        advance
        pure (emptyAt t.mark)
      | _ => readNode fuel false false
    let t ← peek
    match t.kind with
    | .value =>
      advance
      let v ← peek
      match v.kind with
      | .comma | .closeBracket => return (key, emptyAt t.mark)
      | _ => return (key, ← readNode fuel false false)
    | _ => return (key, emptyAt t.mark)

/-- Reads a map in braces that starts at `start`, the entries so far given latest first. -/
def readBraces : Nat → Mark → (first : Bool) → List (Node × Node) → Read (List (Node × Node))
  | 0, start, _, _ => do throw (.nesting start (← peek).mark .missingCommaOrBrace)
  | fuel + 1, start, first, done => do
    let t ← peek
    match t.kind, first with
    | .closeBrace, _ =>
      advance
      return done.reverse
    | .comma, false =>
      advance
      readEntry fuel start done
    | _, true => readEntry fuel start done
    | _, false => throw (.nesting start t.mark .missingCommaOrBrace)

/-- Reads an entry of a map in braces, or the end of the map. -/
def readEntry : Nat → Mark → List (Node × Node) → Read (List (Node × Node))
  | 0, start, _ => do throw (.nesting start (← peek).mark .missingCommaOrBrace)
  | fuel + 1, start, done => do
    match (← peek).kind with
    | .key =>
      advance
      let k ← peek
      let key ← match k.kind with
        | .value | .comma | .closeBrace => pure (emptyAt k.mark)
        | _ => readNode fuel false false
      let t ← peek
      match t.kind with
      | .value =>
        advance
        let v ← peek
        match v.kind with
        | .comma | .closeBrace => readBraces fuel start false ((key, emptyAt v.mark) :: done)
        | _ => readBraces fuel start false ((key, ← readNode fuel false false) :: done)
      | _ => readBraces fuel start false ((key, emptyAt t.mark) :: done)
    | .closeBrace =>
      advance
      return done.reverse
    | _ =>
      let key ← readNode fuel false false
      readBraces fuel start false ((key, emptyAt (← peek).mark) :: done)

end

/-- What handles stand for without a directive. -/
def standardHandles : List (String × String) := [("!", "!"), ("!!", Node.longTag)]

/-- Reads directives, given whether there has been a version. The first argument bounds their
    number. -/
def readDirectives : Nat → (versioned : Bool) → Read Unit
  | 0, _ => pure ()
  | fuel + 1, versioned => do
    let t ← peek
    match t.kind with
    | .version major minor =>
      if versioned then throw (.nesting {} t.mark .repeatedVersion)
      if major != 1 || minor != 1 then throw (.nesting {} t.mark .unknownVersion)
      advance
      readDirectives fuel true
    | .handle name meaning =>
      let s ← get
      if (s.handles.lookup name).isSome then throw (.nesting {} t.mark .repeatedHandle)
      set { s with handles := s.handles ++ [(name, meaning)] }
      advance
      readDirectives fuel versioned
    | _ => pure ()

/-- Reads the first document; a text without one is none. -/
def readDocument : Read (Option Node) := do
  let fuel := 16 * (← get).stream.size + 16
  match (← peek).kind with
  | .streamEnd => return none
  | .version .. | .handle .. | .documentStart =>
    readDirectives fuel false
    let t ← peek
    if t.kind != .documentStart then throw (.nesting {} t.mark .missingDocumentStart)
    advance
    modify fun s => { s with handles := s.handles ++ standardHandles }
    let t ← peek
    let n ← match t.kind with
      | .version .. | .handle .. | .documentStart | .documentEnd | .streamEnd => pure (emptyAt t.mark)
      | _ => readNode fuel true false
    let _ ← peek
    return some n
  | _ =>
    modify fun s => { s with handles := standardHandles }
    let n ← readNode fuel true false
    let _ ← peek
    return some n

end TreeReader

/-- The root of the first document in bytes, if there is one. -/
def read (bytes : List UInt8) : Except Fault (Option Node) :=
  TreeReader.readDocument.run' { stream := .start (.ofBytes bytes) }

end Lantern.Yaml
