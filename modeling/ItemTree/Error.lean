import ItemTree.Json.Error
import ItemTree.Kind
import ItemTree.Value

/-!
# Failures of tree operations

Unknown names, indices outside of a container, and emit configurations that cannot be read.
-/

namespace ItemTree

inductive TreeError where
  | unknownKind (name : String)
  | unknownModifier (name : String)
  | indexOutOfBounds (index length : Nat)
  | invalidConfig (cause : Json.ReadError)
  deriving DecidableEq, Repr

namespace TreeError

def message : TreeError → String
  | unknownKind name => "Unknown item kind: " ++ name
  | unknownModifier name => "Unknown property modifier: " ++ name
  | indexOutOfBounds index length =>
    "Index " ++ natText index ++ " out of bounds for " ++ natText length ++ " content entries"
  | invalidConfig cause => "Invalid emit configuration: " ++ cause.message

end TreeError

/-- the kind of a name -/
def Kind.ofName (s : String) : Except TreeError Kind :=
  match ofName? s with
  | some k => .ok k
  | none => .error (.unknownKind s)

/-- the modifier of a keyword -/
def Modifier.ofName (s : String) : Except TreeError Modifier :=
  match ofName? s with
  | some m => .ok m
  | none => .error (.unknownModifier s)

end ItemTree
