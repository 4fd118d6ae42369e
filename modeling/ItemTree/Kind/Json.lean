import ItemTree.Json.Typed
import ItemTree.Kind

/-!
# JSON form of kinds and modifiers

Both are constants written by name.
-/

namespace ItemTree

namespace Kind

def toJson (k : Kind) : Json := .string k.name

def read : Json.Reader Kind := Json.readVariant (all.map fun k => (k.name, k))

def parse (text : String) : Except Json.ReadError Kind := Json.readAll read text

end Kind

namespace Modifier

def toJson (m : Modifier) : Json := .string m.label

def read : Json.Reader Modifier := Json.readVariant (all.map fun m => (m.label, m))

def parse (text : String) : Except Json.ReadError Modifier := Json.readAll read text

end Modifier

end ItemTree
