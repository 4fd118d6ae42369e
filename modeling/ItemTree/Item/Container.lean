import ItemTree.Error
import ItemTree.Item.Basic

/-!
# Containers

A `Container` is a header with a list of entries, shared by blocks and files. Entries move in and out; an operation
that fails leaves the container as it was.
-/

namespace ItemTree

structure Container where
  header : Header := {}
  contents : List Item := []

namespace Container

def length (c : Container) : Nat := c.contents.length

def isEmpty (c : Container) : Bool := c.contents.isEmpty

def get? (c : Container) (index : Nat) : Option Item := c.contents[index]?

/-- adds an entry at the end -/
def push (c : Container) (i : Item) : Container := { c with contents := c.contents ++ [i] }

/-- adds an entry at the end, if there is one -/
def pushOptional (c : Container) : Option Item → Container
  | none => c
  | some i => c.push i

/-- adds an entry before the one at `index`, or at the end -/
def insert (c : Container) (index : Nat) (i : Item) : Except TreeError Container :=
  if c.length < index then .error (.indexOutOfBounds index c.length)
  else .ok { c with contents := c.contents.take index ++ i :: c.contents.drop index }

/-- takes out the entry at `index` -/
def remove (c : Container) (index : Nat) : Except TreeError (Item × Container) :=
  match c.contents.drop index with
  | [] => .error (.indexOutOfBounds index c.length)
  | i :: rest => .ok (i, { c with contents := c.contents.take index ++ rest })

/-- takes out all entries -/
def takeContents (c : Container) : List Item × Container := (c.contents, { c with contents := [] })

/-- drops all entries -/
def clear (c : Container) : Container := { c with contents := [] }

/-- the block of a container -/
def toItem (c : Container) : Item := .complex c.header c.contents

end Container

namespace Item

/-- the container of a block or file -/
def container? : Item → Option Container
  | complex h es => some ⟨h, es⟩
  | file h es _ => some ⟨h, es⟩
  | _ => none

/-- a block or file with another container, any other item as it is -/
def withContainer (i : Item) (c : Container) : Item :=
  match i with
  | complex _ _ => complex c.header c.contents
  | file _ _ n => file c.header c.contents n
  | i => i

end Item

end ItemTree
