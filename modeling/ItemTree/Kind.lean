/-!
# Kinds of items and modifiers of declarations

Both are closed lists of names; `ofName?` reads a name back.
-/

namespace ItemTree

/-- what an item is; the name doubles as the tag of its export -/
inductive Kind where
  | item
  | complexItem
  | file
  | loop
  | type
  | propertyDeclaration
  | functionParameter
  deriving DecidableEq, Repr

namespace Kind

/-- all kinds, in the order of their indices -/
def all : List Kind := [item, complexItem, file, loop, type, propertyDeclaration, functionParameter]

def name : Kind → String
  | item => "Item"
  | complexItem => "ComplexItem"
  | file => "File"
  | loop => "For"
  | type => "Type"
  | propertyDeclaration => "PropertyDeclaration"
  | functionParameter => "FunctionParameter"

/-- place in `Kind.all` -/
def index (k : Kind) : Nat := all.idxOf k

def ofName? (s : String) : Option Kind := all.find? fun k => k.name == s

end Kind

/-- what may stand before `property` -/
inductive Modifier where
  | default
  | readonly
  deriving DecidableEq, Repr

namespace Modifier

def all : List Modifier := [default, readonly]

/-- the keyword -/
def name : Modifier → String
  | default => "default"
  | readonly => "readonly"

/-- the name of the modifier as a constant -/
def label : Modifier → String
  | default => "Default"
  | readonly => "Readonly"

def ofName? (s : String) : Option Modifier := all.find? fun m => m.name == s

end Modifier

end ItemTree
