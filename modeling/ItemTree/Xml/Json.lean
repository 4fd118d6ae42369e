import ItemTree.Json.Record
import ItemTree.Xml.Node

/-!
# JSON form of a node

A record of tag, attributes and children, of which the last two are left out when empty. Reading opens one bracket
for a node, one for its attributes and one for its list of children.
-/

namespace ItemTree.Node

/-- the member of the attributes, if there are any -/
def attributesMember (as : Attributes) : List (String × Json) :=
  if as.isEmpty then [] else [("attributes", .object (as.map fun a => (a.1, .string a.2)))]

/-- the member of the children, if there are any -/
def childrenMember (children : List Json) : List (String × Json) :=
  if children.isEmpty then [] else [("children", .array children)]

mutual
def toJson : Node → Json
  | ⟨tag, as, children⟩ =>
    .object (("tag", .string tag) :: (attributesMember as ++ childrenMember (toJsonAll children)))
def toJsonAll : List Node → List Json
  | [] => []
  | n :: ns => toJson n :: toJsonAll ns
end

/-- fields read so far -/
structure Draft where
  tag : Option String := none
  attributes : Option Attributes := none
  children : Option (List Node) := none

/-- a map of strings, in which the last value of a name counts -/
def readAttributes (depth : Nat) : Json.Reader Attributes := fun cs =>
  match Json.skipBlanks cs with
  | '\x7b' :: cs =>
    if depth = 0 then .error .malformed
    else
      let member (as : Attributes) (name : String) : Except Json.ReadError (Json.Reader Attributes) :=
        .ok (do return as.insert name (← Json.readString))
      Json.members Json.stringTail member [] cs
  | cs => Json.refuse "a map" cs

/-- a list of nodes -/
def readChildren (depth : Nat) (child : Json.Reader Node) : Json.Reader (List Node) := fun cs =>
  match Json.skipBlanks cs with
  | '[' :: cs => if depth = 0 then .error .malformed else Json.elements child cs
  | cs => Json.refuse "a sequence" cs

/-- the fields of a node inside of which `depth` brackets may be opened -/
def record (depth : Nat) (child : Json.Reader Node) : Json.Record Draft where
  name := "XmlNode"
  start := {}
  fields :=
    [ ⟨"tag", true, fun d => d.tag.isSome, fun d => do return { d with tag := some (← Json.readString) }⟩,
      ⟨"attributes", false, fun d => d.attributes.isSome,
        fun d => do return { d with attributes := some (← readAttributes depth) }⟩,
      ⟨"children", false, fun d => d.children.isSome,
        fun d => do return { d with children := some (← readChildren depth child) }⟩ ]

def ofDraft (d : Draft) : Node := ⟨d.tag.getD "", d.attributes.getD [], d.children.getD []⟩

/-- a node with at most `depth` nested brackets -/
def read : Nat → Json.Reader Node
  | 0 => do return ofDraft (← (record 0 (Json.fail .malformed)).read 0)
  | 1 => do return ofDraft (← (record 0 (Json.fail .malformed)).read 1)
  | depth + 2 => do return ofDraft (← (record (depth + 1) (read depth)).read (depth + 2))

def parse (text : String) : Except Json.ReadError Node := Json.readAll (read Json.nestingLimit) text

end ItemTree.Node
