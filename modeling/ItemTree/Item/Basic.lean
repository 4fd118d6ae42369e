import ItemTree.Header
import ItemTree.Kind

/-!
# Items

An `Item` is a node of a document: a literal, a container of entries, a loop, a type or a declaration. Every item
has a `Header`. Besides entries, loops, types and declarations have named members, each of them set or not.
-/

namespace ItemTree

/-- a type, or a type applied to an element type as in `list<int>`; the literal of the header is its name -/
inductive TypeRef where
  | bare (header : Header)
  | applied (header : Header) (element : TypeRef)
  deriving DecidableEq, Repr

inductive Item where
  /-- literal, identifier or fragment of an expression -/
  | leaf (header : Header)
  /-- list of entries -/
  | complex (header : Header) (contents : List Item)
  /-- top-level declarations of one file -/
  | file (header : Header) (contents : List Item) (fileName : String)
  /-- a `for` with three header slots and a body -/
  | loop (header : Header) (initialization condition incrementation content : Option Item)
  | type (ref : TypeRef)
  /-- modifiers, `property`, type, name, and content after a colon -/
  | property (header : Header) (modifiers : List Modifier) (type : Option TypeRef) (name content : Option Item)
  /-- parameter of a function -/
  | parameter (header : Header) (type : Option TypeRef) (name : Option Item)
  deriving Repr

namespace TypeRef

def header : TypeRef → Header
  | bare h => h
  | applied h _ => h

def element? : TypeRef → Option TypeRef
  | bare _ => none
  | applied _ e => some e

def mapHeader (f : Header → Header) : TypeRef → TypeRef
  | bare h => bare (f h)
  | applied h e => applied (f h) e

/-- text of the literal -/
def name (t : TypeRef) : String := t.header.text

/-- a type by its name, which becomes the literal -/
def named (position : Position) (name : String) : TypeRef := bare { position := position, value := .string name }

/-- a type with an element type -/
def generic (position : Position) (name : String) (element : TypeRef) : TypeRef :=
  applied { position := position, value := .string name } element

/-- a list type -/
def list (position : Position) (element : TypeRef) : TypeRef := generic position "list" element

end TypeRef

namespace Item

def header : Item → Header
  | leaf h => h
  | complex h _ => h
  | file h _ _ => h
  | loop h _ _ _ _ => h
  | type t => t.header
  | property h _ _ _ _ => h
  | parameter h _ _ => h

def mapHeader (f : Header → Header) : Item → Item
  | leaf h => leaf (f h)
  | complex h es => complex (f h) es
  | file h es n => file (f h) es n
  | loop h i c s b => loop (f h) i c s b
  | type t => type (t.mapHeader f)
  | property h ms t n c => property (f h) ms t n c
  | parameter h t n => parameter (f h) t n

def kind : Item → Kind
  | leaf _ => .item
  | complex _ _ => .complexItem
  | file _ _ _ => .file
  | loop _ _ _ _ _ => .loop
  | type _ => .type
  | property _ _ _ _ _ => .propertyDeclaration
  | parameter _ _ _ => .functionParameter

/-- literal as text, without parentheses -/
def text (i : Item) : String := i.header.text

/-- new item and the notices of the change -/
def setValue (i : Item) (v : Value) : Item × List Notice :=
  let (h, notices) := i.header.setValue v
  (i.mapHeader fun _ => h, notices)

@[inherit_doc setValue]
def setParenthesized (i : Item) (b : Bool) : Item × List Notice :=
  let (h, notices) := i.header.setParenthesized b
  (i.mapHeader fun _ => h, notices)

def observe (i : Item) (observer : String) : Item := i.mapHeader fun h => h.observe observer

/-- entries of a container -/
def contents? : Item → Option (List Item)
  | complex _ es => some es
  | file _ es _ => some es
  | _ => none

/-- named slots with what is in them, in ascending order of the names -/
def members : Item → List (String × Option Item)
  | leaf _ => []
  | complex _ _ => []
  | file _ _ _ => []
  | loop _ i c s b => [("condition", c), ("content", b), ("incrementation", s), ("initialization", i)]
  | type t => [("element", t.element?.map type)]
  | property _ _ t n c => [("content", c), ("name", n), ("type", t.map type)]
  | parameter _ t n => [("content", none), ("name", n), ("type", t.map type)]

/-- a file of the same position, with nothing else taken over -/
def blankCopy? : Item → Option Item
  | file h _ _ => some (file { position := h.position } [] "")
  | _ => none

end Item

end ItemTree
