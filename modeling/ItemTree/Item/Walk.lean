import ItemTree.Item.Basic

/-!
# Walking an item and everything below it

A `Visitor` acts on a state when an item is entered and when a member is met, set or not. A walk enters the item,
then its entries in order, then its members in ascending order of their names.

* `Item.kinds`, `Item.count`: kinds and number of the items met;
* `Item.events`: everything met, in order;
* `Item.unset`: names of the members met that are not set.
-/

namespace ItemTree

/-- what to do on the way -/
structure Visitor (σ : Type) where
  item : Item → σ → σ := fun _ s => s
  member : String → Option Item → σ → σ := fun _ _ s => s

variable {σ : Type}

/-- a type and its element types -/
def TypeRef.walk (v : Visitor σ) (t : TypeRef) (s : σ) : σ :=
  let s := v.item (.type t) s
  match t with
  | bare _ => v.member "element" none s
  | applied _ e => e.walk v (v.member "element" (some (.type e)) s)

/-- a member that holds a type -/
def walkType (v : Visitor σ) (name : String) (t : Option TypeRef) (s : σ) : σ :=
  let s := v.member name (t.map .type) s
  match t with
  | none => s
  | some t => t.walk v s

mutual
/-- an item and everything below it -/
def Item.walk (v : Visitor σ) : Item → σ → σ
  | .leaf h, s => v.item (.leaf h) s
  | .complex h es, s => walkEntries v es (v.item (.complex h es) s)
  | .file h es n, s => walkEntries v es (v.item (.file h es n) s)
  | .loop h i c p b, s =>
    let s := v.item (.loop h i c p b) s
    let s := walkMember v "condition" c s
    let s := walkMember v "content" b s
    let s := walkMember v "incrementation" p s
    walkMember v "initialization" i s
  | .type t, s => t.walk v s
  | .property h ms t n c, s =>
    let s := v.item (.property h ms t n c) s
    let s := walkMember v "content" c s
    let s := walkMember v "name" n s
    walkType v "type" t s
  | .parameter h t n, s =>
    let s := v.item (.parameter h t n) s
    let s := v.member "content" none s
    let s := walkMember v "name" n s
    walkType v "type" t s
/-- entries in order -/
def walkEntries (v : Visitor σ) : List Item → σ → σ
  | [], s => s
  | i :: is, s => walkEntries v is (i.walk v s)
/-- a member and the item in it -/
def walkMember (v : Visitor σ) (name : String) : Option Item → σ → σ
  | none, s => v.member name none s
  | some i, s => i.walk v (v.member name (some i) s)
end

/-- something met on a walk -/
inductive Event where
  | item (kind : Kind) (text : String)
  | member (name : String) (set : Bool)
  deriving DecidableEq, Repr

namespace Visitor

def counting : Visitor Nat := { item := fun _ n => n + 1 }

def collectingKinds : Visitor (List Kind) := { item := fun i ks => ks ++ [i.kind] }

def logging : Visitor (List Event) :=
  { item := fun i es => es ++ [.item i.kind i.text]
    member := fun name i es => es ++ [.member name i.isSome] }

def collectingUnset : Visitor (List String) :=
  { member := fun name i names => if i.isSome then names else names ++ [name] }

end Visitor

namespace Item

/-- number of items, the root included -/
def count (i : Item) : Nat := i.walk .counting 0

/-- kinds of all items in the order of the walk -/
def kinds (i : Item) : List Kind := i.walk .collectingKinds []

def events (i : Item) : List Event := i.walk .logging []

def unset (i : Item) : List String := i.walk .collectingUnset []

end Item

end ItemTree
