import ItemTree.Item.Container

/-!
# Summaries of items

A `Brief` is an item in four words. An `Inspection` adds its literal and what is particular to its kind.
-/

namespace ItemTree

structure Brief where
  kind : Kind
  text : String
  parenthesized : Bool
  position : Position
  deriving DecidableEq, Repr

/-- what only some kinds have -/
inductive Particulars where
  | leaf
  | complex (entries : List Brief)
  | file (fileName : String) (entries : List Brief)
  | loop (initialization condition incrementation content : Option Brief)
  | type (name : String) (element : Option String)
  | property (modifiers : List Modifier) (type : Option String) (name content : Option Brief)
  | parameter (type : Option String) (name : Option Brief)
  deriving Repr

structure Inspection where
  brief : Brief
  value : Value
  isContainer : Bool
  own : Particulars
  deriving Repr

namespace Item

def brief (i : Item) : Brief := ⟨i.kind, i.text, i.header.parenthesized, i.header.position⟩

def particulars : Item → Particulars
  | leaf _ => .leaf
  | complex _ es => .complex (es.map brief)
  | file _ es n => .file n (es.map brief)
  | loop _ i c p b => .loop (i.map brief) (c.map brief) (p.map brief) (b.map brief)
  | type t => .type t.name (t.element?.map TypeRef.name)
  | property _ ms t n c => .property ms (t.map TypeRef.name) (n.map brief) (c.map brief)
  | parameter _ t n => .parameter (t.map TypeRef.name) (n.map brief)

def inspect (i : Item) : Inspection := ⟨i.brief, i.header.value, i.container?.isSome, i.particulars⟩

end Item

end ItemTree
