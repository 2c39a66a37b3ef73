import Lantern.Yaml.Fault

/-!
# Nodes of a document

The tree of a document. Every node has the line it starts on and a tag in short form, which is the one
it is given or else the one that its content shows.
-/

namespace Lantern.Yaml

/-- A node of a document; lines count from one. -/
inductive Node where
  /-- A scalar. -/
  | scalar (line : Nat) (tag text : String)
  /-- A list. -/
  | seq (line : Nat) (tag : String) (items : List Node)
  /-- Keys and values. -/
  | map (line : Nat) (tag : String) (entries : List (Node × Node))
  /-- Another node under its name. Inside that node itself, which is not complete then, only its
      line, tag and kind are known. -/
  | alias_ (line : Nat) (name : String) (target : Node) (isInside : Bool)
  deriving Inhabited

namespace Node

/-- The tag of lists. -/
def seqTag : String := "!!seq"

/-- The tag of maps. -/
def mapTag : String := "!!map"

/-- The line a node starts on. -/
def line : Node → Nat
  | scalar line .. | seq line .. | map line .. | alias_ line .. => line

/-- The tag of a node; an alias has that of its target. -/
def tag : Node → String
  | scalar _ tag _ | seq _ tag _ | map _ tag _ => tag
  | alias_ _ _ target _ => target.tag

/-- The text a node is told by: that of a scalar, the name of an alias, and nothing for others. -/
def text : Node → String
  | scalar _ _ text => text
  | alias_ _ name .. => name
  | seq .. | map .. => ""

/-- Whether two nodes are alike as keys: of one kind and with the same text. -/
def sameKey (a b : Node) : Bool :=
  a.text == b.text &&
    match a, b with
    | scalar .., scalar .. | seq .., seq .. | map .., map .. | alias_ .., alias_ .. => true
    | _, _ => false

/-- The long form of the tags that are known to all documents. -/
def longTag : String := "tag:yaml.org,2002:"

/-- A tag in short form. -/
def shortTag (tag : String) : String :=
  if longTag.toList.isPrefixOf tag.toList then
    "!!" ++ String.ofList (tag.toList.drop longTag.length)
  else tag

end Node

end Lantern.Yaml
