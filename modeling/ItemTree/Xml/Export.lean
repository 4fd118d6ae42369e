import ItemTree.Item.Container
import ItemTree.Xml.Node

/-!
# Exporting items as nodes

The node of an item has the name of its kind as tag and its literal as attribute `Value`. Slots of loops and
declarations become wrappers without attributes, which are there even when the slot is not set.

A `Hook` is called once for the node of every item, when its attributes and children are complete, and may change
the node and a state. Wrappers do not go through it.
-/

namespace ItemTree

/-- what to do with the finished node of an item -/
abbrev Hook (σ : Type) := Node → StateM σ Node

variable {σ : Type}

/-- node of an item before its children: tag and literal -/
def Header.node (h : Header) (k : Kind) : Node := ({ tag := k.name } : Node).set "Value" h.text

/-- modifiers joined by blanks -/
def modifierText (ms : List Modifier) : String := " ".intercalate (ms.map Modifier.name)

/-- the attribute of the modifiers, if there are any -/
def withModifiers (ms : List Modifier) (n : Node) : Node :=
  if ms.isEmpty then n else n.set "Modifiers" (modifierText ms)

/-- wrapper of a slot -/
def wrapper (tag : String) (content : List Node) : Node := { tag := tag, children := content }

/-- a type; the element type is its one child -/
def TypeRef.exportWith (hook : Hook σ) : TypeRef → StateM σ Node
  | bare h => hook (h.node .type)
  | applied h e => do
    let child ← e.exportWith hook
    hook ((h.node .type).push child)

/-- wrapper of a slot for a type -/
def exportType (hook : Hook σ) (tag : String) : Option TypeRef → StateM σ Node
  | none => return wrapper tag []
  | some t => return wrapper tag [← t.exportWith hook]

mutual
/-- the node of an item, with the state after it -/
def Item.exportWith (hook : Hook σ) : Item → StateM σ Node
  | .leaf h => hook (h.node .item)
  | .complex h es => do
    let children ← exportEntries hook es
    hook { h.node .complexItem with children := children }
  | .file h es name => do
    let children ← exportEntries hook es
    hook ({ h.node .file with children := children }.set "FileName" name)
  | .loop h i c p b => do
    let i ← exportSlot hook "Initialization" i
    let c ← exportSlot hook "Condition" c
    let p ← exportSlot hook "Incrementation" p
    let b ← exportSlot hook "Content" b
    hook { h.node .loop with children := [i, c, p, b] }
  | .type t => t.exportWith hook
  | .property h ms t n c => do
    let t ← exportType hook "Type" t
    let n ← exportSlot hook "Name" n
    let c ← exportSlot hook "Content" c
    hook { withModifiers ms (h.node .propertyDeclaration) with children := [t, n, c] }
  | .parameter h t n => do
    let t ← exportType hook "Type" t
    let n ← exportSlot hook "Name" n
    hook { h.node .functionParameter with children := [t, n, wrapper "Content" []] }
/-- nodes of entries in order -/
def exportEntries (hook : Hook σ) : List Item → StateM σ (List Node)
  | [] => return []
  | i :: is => do
    let n ← i.exportWith hook
    let ns ← exportEntries hook is
    return n :: ns
/-- wrapper of a slot -/
def exportSlot (hook : Hook σ) (tag : String) : Option Item → StateM σ Node
  | none => return wrapper tag []
  | some i => do
    let n ← i.exportWith hook
    return wrapper tag [n]
end

namespace Hook

/-- leaves everything as it is -/
def plain : Hook Unit := fun n => return n

/-- counts the nodes -/
def counting : Hook Nat := fun n => do
  modify (· + 1)
  return n

/-- keeps every node as it is finished -/
def recording : Hook (List Node) := fun n => do
  modify (· ++ [n])
  return n

/-- numbers the nodes in an attribute, from one -/
def numbering (name : String) : Hook Nat := fun n => do
  let count ← modifyGet fun k => (k + 1, k + 1)
  return n.set name (String.ofList (Nat.toDigits 10 count))

end Hook

namespace Item

/-- the node of an item alone, without anything below it -/
def exportLeaf (hook : Hook σ) (i : Item) : StateM σ Node := hook (i.header.node i.kind)

/-- plain export -/
def toXml (i : Item) : Node := ((i.exportWith Hook.plain).run ()).1

end Item

namespace Container

/-- the exported entries as further children of a node -/
def exportInto (c : Container) (hook : Hook σ) (n : Node) : StateM σ Node := do
  let children ← exportEntries hook c.contents
  return { n with children := n.children ++ children }

end Container

end ItemTree
