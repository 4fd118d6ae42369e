import ItemTree.Item.Container
import ItemTree.Source.Config
import ItemTree.Source.Writer

/-!
# Source text of items

An item is emitted at a level: the cursor already stands where it begins, and every further line it writes is
indented by that level or more.

* a block is `{`, its entries one level deeper on lines of their own, `}`;
* a loop writes its three header slots one level deeper, and the entries of a container body between its own braces;
* a declaration hands its level on.
-/

namespace ItemTree

/-- literal, in parentheses if flagged -/
def Header.emit (h : Header) (w : Writer) : Writer :=
  if h.parenthesized then ((w.write "(").write h.text).write ")" else w.write h.text

/-- name, and the element type in angle brackets -/
def TypeRef.emit : TypeRef → Writer → Writer
  | bare h, w => h.emit w
  | applied h e, w => (e.emit ((h.emit w).write "<")).write ">"

/-- a type, and a blank if a name follows -/
def emitType (t : Option TypeRef) (spaced : Bool) (w : Writer) : Writer :=
  match t with
  | none => w
  | some t => if spaced then (t.emit w).write " " else t.emit w

/-- each modifier with a blank after it -/
def emitModifiers : List Modifier → Writer → Writer
  | [], w => w
  | m :: ms, w => emitModifiers ms ((w.write m.name).write " ")

mutual
/-- an item at a level -/
def Item.emit : Item → Nat → Writer → Writer
  | .leaf h, _, w => h.emit w
  | .complex _ es, level, w => (emitEntries es (level + 1) (w.write "\x7b").newline).writeAt level "\x7d"
  | .file _ es _, level, w => (emitEntries es (level + 1) (w.write "\x7b").newline).writeAt level "\x7d"
  | .loop _ i c p b, level, w =>
    let w := emitSlot i (level + 1) (w.write "for (")
    let w := emitSlot c (level + 1) (w.write "; ")
    let w := emitSlot p (level + 1) (w.write "; ")
    let w := ((w.write ")").newline).lineAt level "\x7b"
    (emitBody b (level + 1) w).writeAt level "\x7d"
  | .type t, _, w => t.emit w
  | .property _ ms t n c, level, w =>
    let w := (emitModifiers ms w).write "property"
    let w := if t.isSome || n.isSome then w.write " " else w
    let w := emitSlot n level (emitType t n.isSome w)
    emitContent c level w
  | .parameter _ t n, level, w => emitSlot n level (emitType t n.isSome w)
/-- every entry on a line of its own -/
def emitEntries : List Item → Nat → Writer → Writer
  | [], _, w => w
  | i :: is, level, w => emitEntries is level (i.emit level (w.writeAt level "")).newline
/-- the item in a slot, if any -/
def emitSlot : Option Item → Nat → Writer → Writer
  | none, _, w => w
  | some i, level, w => i.emit level w
/-- the item after a colon, if any -/
def emitContent : Option Item → Nat → Writer → Writer
  | none, _, w => w
  | some i, level, w => i.emit level (w.write ": ")
/-- lines of a loop body: the entries of a container, or the one item -/
def emitBody : Option Item → Nat → Writer → Writer
  | none, _, w => w
  | some (.complex _ es), level, w => emitEntries es level w
  | some (.file _ es _), level, w => emitEntries es level w
  | some i, level, w => (i.emit level (w.writeAt level "")).newline
end

namespace Container

/-- the entries, each on a line of its own -/
def emitEntries (c : Container) (level : Nat) (w : Writer) : Writer := ItemTree.emitEntries c.contents level w

/-- the entries one level deeper between braces -/
def emitBlock (c : Container) (level : Nat) (w : Writer) : Writer :=
  (c.emitEntries (level + 1) (w.write "\x7b").newline).writeAt level "\x7d"

end Container

namespace EmitConfig

/-- an empty writer with the configured unit -/
def writer (c : EmitConfig) : Writer := { unit := c.indent }

end EmitConfig

namespace Item

/-- source text of an item -/
def toSource (i : Item) (c : EmitConfig) : String :=
  let w := i.emit 0 c.writer
  (if c.trailingNewline then w.newline else w).output

end Item

end ItemTree
