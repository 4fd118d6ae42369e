import ItemTree.Value

/-!
# The state every item carries

A `Header` has a fixed position, a literal, a parenthesis flag and the names of its observers. Setting the literal
or the flag yields the new header and one `Notice` per observer, in the order of registration, unless nothing
changes.
-/

namespace ItemTree

structure Header where
  position : Position := {}
  value : Value := .null
  parenthesized : Bool := false
  observers : List String := []
  deriving DecidableEq, Repr

/-- what happened to a header -/
inductive Change where
  | value (v : Value)
  | parenthesized (b : Bool)
  deriving DecidableEq, Repr

/-- a change as an observer receives it -/
structure Notice where
  observer : String
  change : Change
  deriving DecidableEq, Repr

namespace Header

/-- literal as text, without parentheses -/
def text (h : Header) : String := h.value.text

/-- a change told to every observer -/
def notify (h : Header) (c : Change) : List Notice := h.observers.map fun o => ⟨o, c⟩

/-- observers are told in the order in which they came -/
def observe (h : Header) (observer : String) : Header := { h with observers := h.observers ++ [observer] }

/-- takes the literal unless it is the same one -/
def setValue (h : Header) (v : Value) : Header × List Notice :=
  if h.value.sameAs v then (h, []) else ({ h with value := v }, h.notify (.value v))

/-- takes the flag unless it is the same one -/
def setParenthesized (h : Header) (b : Bool) : Header × List Notice :=
  if h.parenthesized == b then (h, []) else ({ h with parenthesized := b }, h.notify (.parenthesized b))

end Header

end ItemTree
