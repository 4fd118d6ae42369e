import ItemTree.Item.Container

/-!
# Blueprints

A `Blueprint` describes an item by loose data: a name for its kind and whatever slots are given. `Blueprint.build`
makes the item, or finds the first unknown name: first the kind, then the parts in their order, at the end the
modifiers. Slots that a kind does not have are ignored.
-/

namespace ItemTree

inductive Blueprint where
  | mk (kind : String) (position : Position) (value : Option Value) (parenthesized : Option Bool)
    (label fileName : Option String) (modifiers : List String) (contents : List (Option Blueprint))
    (initialization condition incrementation content type element name : Option Blueprint)

/-- the type in an item that is one -/
def Item.typeRef? : Item → Option TypeRef
  | .type t => some t
  | _ => none

namespace Blueprint

/-- the literal and the flag that are given take effect on the finished item -/
def finish (value : Option Value) (parenthesized : Option Bool) (i : Item) : Item :=
  let i := match value with
    | none => i
    | some v => (i.setValue v).1
  match parenthesized with
  | none => i
  | some b => (i.setParenthesized b).1

/-- a type from its name or its element type; the element type alone makes a list -/
def typeOf (position : Position) (name : Option String) (element : Option TypeRef) : TypeRef :=
  match name, element with
  | some n, some e => .generic position n e
  | some n, none => .named position n
  | none, some e => .list position e
  | none, none => .named position ""

mutual
/-- the item of a blueprint -/
def build : Blueprint → Except TreeError Item
  | mk kind position value parenthesized label fileName modifiers contents i c p b t e n => do
    let h : Header := { position := position }
    let k ← Kind.ofName kind
    let item ← match k with
      | .item => pure (Item.leaf { h with value := value.getD .null })
      | .complexItem => do
        let es ← buildEntries contents
        pure (Item.complex h es)
      | .file => do
        let es ← buildEntries contents
        pure (Item.file h es (fileName.getD ""))
      | .loop => do
        let i ← buildSlot i
        let c ← buildSlot c
        let p ← buildSlot p
        let b ← buildSlot b
        pure (Item.loop h i c p b)
      | .type => do
        let e ← buildSlot e
        pure (Item.type (typeOf position label (e.bind Item.typeRef?)))
      | .propertyDeclaration => do
        let t ← buildSlot t
        let n ← buildSlot n
        let b ← buildSlot b
        let ms ← modifiers.mapM Modifier.ofName
        pure (Item.property h ms (t.bind Item.typeRef?) n b)
      | .functionParameter => do
        let t ← buildSlot t
        let n ← buildSlot n
        pure (Item.parameter h (t.bind Item.typeRef?) n)
    return finish value parenthesized item
/-- entries in order; those that are absent are left out -/
def buildEntries : List (Option Blueprint) → Except TreeError (List Item)
  | [] => return []
  | e :: es => do
    let i ← buildSlot e
    let is ← buildEntries es
    return i.toList ++ is
/-- the item of a slot, if any -/
def buildSlot : Option Blueprint → Except TreeError (Option Item)
  | none => return none
  | some b => do
    let i ← b.build
    return some i
end

end Blueprint

end ItemTree
