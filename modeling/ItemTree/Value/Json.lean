import ItemTree.Json.Record
import ItemTree.Value

/-!
# JSON form of literals and positions

A literal is a bare scalar, so its variant is recovered from the shape of the text alone. A position is a record of
two words.
-/

namespace ItemTree

namespace Value

def toJson : Value → Json
  | null => .null
  | bool b => .bool b
  | integer n => .integer n.toInt
  | double d => .double d
  | string s => .string s

/-- an integer that fits 64 signed bits stays one, any other number is a double -/
def ofNumber : Json.Number → Value
  | .integer n =>
    if n < Int.pow 2 63 then integer (Int64.ofInt n)
    else double ((Double.ofDecimal false n.toNat 0).getD (Double.ofMagnitude false 0))
  | .double d => double d

/-- the literal of a scalar; arrays and objects have none -/
def ofJson? : Json → Option Value
  | .null => some null
  | .bool b => some (bool b)
  | .number n => (Json.Number.ofNumeral? n).map ofNumber
  | .string s => some (string s)
  | .array _ => none
  | .object _ => none

/-- the whole value is read before its shape is judged -/
def read : Json.Reader Value := do
  match ofJson? (← Json.read Json.nestingLimit) with
  | some v => return v
  | none => Json.fail (.refused (.noVariant "Value"))

def parse (text : String) : Except Json.ReadError Value := Json.readAll read text

end Value

namespace Position

def toJson (p : Position) : Json := .object [("line", .integer p.line.toNat), ("column", .integer p.column.toNat)]

/-- fields read so far -/
structure Draft where
  line : Option UInt32 := none
  column : Option UInt32 := none

def record : Json.Record Draft where
  name := "Position"
  start := {}
  fields :=
    [ ⟨"line", true, fun d => d.line.isSome, fun d => do return { d with line := some (← Json.readWord) }⟩,
      ⟨"column", true, fun d => d.column.isSome, fun d => do return { d with column := some (← Json.readWord) }⟩ ]

def read : Json.Reader Position := do
  let d ← record.read Json.nestingLimit
  return ⟨d.line.getD 0, d.column.getD 0⟩

def parse (text : String) : Except Json.ReadError Position := Json.readAll read text

end Position

end ItemTree
